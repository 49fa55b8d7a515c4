import BinaryXml.Command.Convert
import BinaryXml.Text.Quoted

/-!
# Listing a binary document

The command that prints a line for each chunk of a binary document: its type tag, its size and what
it holds, with the strings that it refers to.
-/

namespace BinaryXml.Command

/-- The string at an index, or a note that there is none. -/
def stringOrNote (file : ChunkFile) (index : UInt32) : String :=
  match file.string index with
  | .ok s => s
  | .error _ => "<invalid>"

def encodingName : StringEncoding → String
  | .utf8 => "Utf8"
  | .utf16 => "Utf16"

/-- What a listing shows of a namespace's scope. -/
def describeScope (file : ChunkFile) (side : String) (scope : NamespaceScope) : String :=
  let name := match scope.name with
    | some index => stringOrNote file index
    | none => ""
  s!"namespace {side}: {name}=" ++ stringOrNote file scope.uri

/-- What a listing shows of a chunk's contents. -/
def describe (file : ChunkFile) : Chunk → String
  | .stringPool pool => s!"string pool: {pool.size} strings, " ++ encodingName pool.encoding
  | .resourceMap ids => s!"resource map: {ids.length} ids"
  | .startNamespace scope => describeScope file "start" scope
  | .endNamespace scope => describeScope file "end" scope
  | .startTag tag =>
    "<" ++ stringOrNote file tag.name
      ++ s!"> line {tag.line}, {tag.attributes.length} attributes"
  | .endTag tag => "</" ++ stringOrNote file tag.name ++ ">"
  | .characterData data => "text " ++ Text.quoted (stringOrNote file data.data)
  | .other _ => "unknown"

open Numeral in
def chunkLine (file : ChunkFile) (chunk : Chunk) (size : Nat) : String :=
  typeTag chunk.kind ++ " " ++ padLeft 8 ' ' (toString size) ++ "  " ++ describe file chunk ++ "\n"

open Numeral in
def entryLines (pool : StringPool) : List String :=
  pool.entries.zipIdx.map fun ((offset, s), index) =>
    "    [" ++ padLeft 4 ' ' (toString index) ++ "] @" ++ padRight 6 (toString offset) ++ " "
      ++ Text.quoted s ++ "\n"

/-- The lines for a chunk; the strings of a pool are listed on demand. -/
def chunkLines (strings : Bool) (file : ChunkFile) (chunk : Chunk) (size : Nat) : String :=
  let line := chunkLine file chunk size
  match chunk with
  | .stringPool pool => if strings then line ++ String.join (entryLines pool) else line
  | _ => line

/-- List chunks behind what has been printed. A chunk without a size ends the listing. -/
def listOnto (strings : Bool) (file : ChunkFile) (printed : String) : List Chunk → Outcome
  | [] => { printed }
  | chunk :: rest =>
    match orFail chunk.size with
    | .error failure => { printed, failure := some failure }
    | .ok size => listOnto strings file (printed ++ chunkLines strings file chunk size) rest

/-- List the binary document in the file `inputName`, with the strings of its pools on demand. -/
def list (strings : Bool) (inputName : String) (input : Input) : Outcome :=
  let sized : Except Failure (ChunkFile × Nat) := do
    let file ← readBinary input
    let size ← orFail file.size
    return (file, size)
  match sized with
  | .error failure => { printed := "", failure := some failure }
  | .ok (file, size) =>
    listOnto strings file
      s!"{inputName}: {size} bytes, {file.chunks.length} chunks\n" file.chunks

end BinaryXml.Command
