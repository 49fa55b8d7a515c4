import BinaryXml.Command.Directory
import BinaryXml.Command.Listing

/-!
# The command line

Reads the arguments and the files, runs a command, and prints and writes what it says.
-/

namespace BinaryXml.CommandLine

/-- What the arguments ask for. -/
structure Arguments where
  input : Option String := none
  output : Option String := none
  /-- Whether to list the strings of pools. -/
  strings : Bool := false
  options : Compile.Options := {}

/-- Read the arguments behind the name of the command. -/
def Arguments.parse (arguments : Arguments) : List String → Except String Arguments
  | [] => .ok arguments
  | "--utf16" :: rest =>
    parse { arguments with options := { arguments.options with encoding := .utf16 } } rest
  | "--strings" :: rest | "-s" :: rest => parse { arguments with strings := true } rest
  | "--verbose" :: rest | "-v" :: rest => parse arguments rest
  | "--input" :: path :: rest | "-i" :: path :: rest =>
    parse { arguments with input := some path } rest
  | "--output" :: path :: rest | "-o" :: path :: rest =>
    parse { arguments with output := some path } rest
  | "--unbound-prefix" :: "reject" :: rest =>
    parse { arguments with options := { arguments.options with unbound := .reject } } rest
  | "--unbound-prefix" :: "sentinel" :: rest =>
    parse { arguments with options := { arguments.options with unbound := .sentinel } } rest
  | argument :: _ => .error s!"unexpected argument '{argument}'"

/-- An argument that has to be given. -/
def need (name : String) (argument : Option String) : IO String :=
  match argument with
  | some value => return value
  | none => throw (IO.userError s!"the argument --{name} is missing")

/-- The content of a file. -/
def readFile (path : String) : IO Command.Input := do
  try
    return .ok (← IO.FS.readBinFile path)
  catch e => return .error (toString e)

/-- Carry out what a command says; the exit code tells whether it failed. -/
def carryOut (outputPath : Option String) (outcome : Command.Outcome) : IO UInt32 := do
  IO.print outcome.printed
  if let (some path, some content) := (outputPath, outcome.output) then
    IO.FS.writeBinFile path content
  match outcome.failure with
  | none => return 0
  | some failure =>
    IO.eprint failure.text
    return 1

/-- What stands in a directory. Links are not followed, and what cannot be looked at is left out. -/
partial def readEntries (directory : IO.FS.DirEntry) : IO (List Command.Entry) := do
  let mut found := []
  for entry in ← directory.path.readDir do
    let name := entry.fileName
    try
      match (← entry.path.symlinkMetadata).type with
      | .dir => found := .folder name (← readEntries entry) :: found
      | .file => found := .file name (← readFile entry.path.toString) :: found
      | _ => found := .other name :: found
    catch _ => pure ()
  return found.reverse

/-- Compile a directory into another. -/
def compileDirectory (options : Compile.Options) (input output : String) : IO UInt32 := do
  let start ← IO.monoMsNow
  let files := Command.filesIn (← readEntries { root := input, fileName := "" })
  let elapsed := s!"{(← IO.monoMsNow) - start}ms"
  let outcome := Command.compileDirectory options input output elapsed files
  IO.FS.createDirAll output
  for folder in outcome.folders do
    IO.FS.createDirAll (output ++ "/" ++ folder)
  for (path, content) in outcome.outputs do
    IO.FS.writeBinFile (output ++ "/" ++ path) content
  IO.print outcome.printed
  return 0

/-- Run a command. -/
def run (command : String) (arguments : Arguments) : IO UInt32 := do
  let input ← need "input" arguments.input
  match command with
  | "compile" =>
    let output ← need "output" arguments.output
    let start ← IO.monoMsNow
    let content ← readFile input
    let elapsed := s!"{(← IO.monoMsNow) - start}ms"
    carryOut output (Command.compile arguments.options input output elapsed content)
  | "decode" => carryOut arguments.output (Command.decode input arguments.output (← readFile input))
  | "dump" => carryOut none (Command.list arguments.strings input (← readFile input))
  | "compile-dir" =>
    compileDirectory arguments.options input (← need "output" arguments.output)
  | _ => throw (IO.userError s!"unknown command '{command}'")

end BinaryXml.CommandLine

open BinaryXml.CommandLine in
/-- Run the command that the arguments name. -/
def main (arguments : List String) : IO UInt32 := do
  match arguments with
  | [] => throw (IO.userError "a command is missing: compile, decode, dump or compile-dir")
  | command :: rest =>
    match Arguments.parse {} rest with
    | .ok parsed => run command parsed
    | .error e => throw (IO.userError e)
