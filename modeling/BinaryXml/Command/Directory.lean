import BinaryXml.Command.Convert
import BinaryXml.Command.Tree

/-!
# Compiling a directory

The command that compiles every XML file below a directory into a file at the same path below
another. Each file is a job of its own: it is compiled, the folders above its place are made, and it
is written there. A job that fails is counted, and the others go on.
-/

namespace BinaryXml.Command

/-! ### The output directory -/

/-- What stands below the output directory. -/
structure Shelf where
  folders : List String := []
  /-- The paths and contents of the files. -/
  files : List (String × ByteArray) := []

namespace Shelf

/-- There are all the folders on the way to a path. -/
abbrev LeadsTo (shelf : Shelf) (path : String) : Prop :=
  ∀ folder ∈ foldersAbove path, folder ∈ shelf.folders

/-- Make a folder unless it is there. -/
def makeFolder (path : String) (shelf : Shelf) : Option Shelf :=
  if path ∈ shelf.files.map Prod.fst ∨ ¬ shelf.LeadsTo path then none
  else if path ∈ shelf.folders then some shelf
  else some { shelf with folders := shelf.folders ++ [path] }

/-- Write a file, in place of one that is there. -/
def write (path : String) (content : ByteArray) (shelf : Shelf) : Option Shelf :=
  if path ∈ shelf.folders ∨ ¬ shelf.LeadsTo path then none
  else some { shelf with files := shelf.files.filter (·.1 ≠ path) ++ [(path, content)] }

end Shelf

/-! ### Jobs -/

/-- How far a job has come. -/
inductive Stage where
  | waiting
  /-- The file has compiled; of the folders above its place some may be missing. -/
  | housing (content : ByteArray) (missing : List String)
  | written (content : ByteArray)
  | failed
  deriving DecidableEq

/-- A file to compile into one at the same path. -/
structure Job where
  path : String
  input : Input
  stage : Stage := .waiting

/-- What the jobs share. -/
structure Progress where
  shelf : Shelf := {}
  /-- The number of jobs that have failed. -/
  errors : Nat := 0

namespace Job

def fail (job : Job) (progress : Progress) : Job × Progress :=
  ({ job with stage := .failed }, { progress with errors := progress.errors + 1 })

/-- One step of a job. -/
def step (options : Compile.Options) (job : Job) (progress : Progress) : Job × Progress :=
  match job.stage with
  | .waiting =>
    match compileContent options job.input with
    | .error _ => job.fail progress
    | .ok content => ({ job with stage := .housing content (foldersAbove job.path) }, progress)
  | .housing content (folder :: missing) =>
    match progress.shelf.makeFolder folder with
    | none => job.fail progress
    | some shelf => ({ job with stage := .housing content missing }, { progress with shelf })
  | .housing content [] =>
    match progress.shelf.write job.path content with
    | none => job.fail progress
    | some shelf => ({ job with stage := .written content }, { progress with shelf })
  | .written _ => (job, progress)
  | .failed => (job, progress)

/-- How many steps a job may still take. -/
def stepsLeft (job : Job) : Nat :=
  match job.stage with
  | .waiting => (foldersAbove job.path).length + 2
  | .housing _ missing => missing.length + 1
  | .written _ => 0
  | .failed => 0

/-- A job that fails is at its end. -/
theorem stepsLeft_fail (job : Job) (progress : Progress) : (job.fail progress).1.stepsLeft = 0 :=
  rfl

/-- Every step of a job that is not at its end brings it nearer. -/
theorem stepsLeft_step_lt {options : Compile.Options} {job : Job} {progress : Progress}
    (h : job.stepsLeft ≠ 0) : (job.step options progress).1.stepsLeft < job.stepsLeft := by
  obtain ⟨path, input, stage⟩ := job
  cases stage with
  | waiting =>
    unfold step
    dsimp only
    split
    · rw [stepsLeft_fail]
      exact Nat.pos_of_ne_zero h
    · exact Nat.lt_succ_self _
  | housing content missing =>
    cases missing with
    | nil =>
      -- the file is written, or it cannot be
      unfold step
      dsimp only
      split
      · rw [stepsLeft_fail]
        exact Nat.pos_of_ne_zero h
      · exact Nat.lt_succ_self _
    | cons folder missing =>
      -- one folder fewer is missing, or it cannot be made
      unfold step
      dsimp only
      split
      · rw [stepsLeft_fail]
        exact Nat.pos_of_ne_zero h
      · exact Nat.lt_succ_self _
  | written content => exact absurd rfl h
  | failed => exact absurd rfl h

/-- Take a job to its end. -/
def finish (options : Compile.Options) (job : Job) (progress : Progress) : Progress :=
  if job.stepsLeft = 0 then progress
  else
    let next := job.step options progress
    next.1.finish options next.2
  termination_by job.stepsLeft
  decreasing_by exact stepsLeft_step_lt ‹_›

end Job

/-! ### The command -/

/-- Compile files, each into one at its path, one after the other. -/
def compileFiles (options : Compile.Options) (files : List (String × Input)) : Progress :=
  files.foldl (fun progress (path, input) => Job.finish options { path, input } progress) {}

/-- What is printed about a number of files to compile. -/
def directoryReport (inputName outputName elapsed : String) (total errors : Nat) : String :=
  s!"Scanning: {inputName}\n" ++ s!"Compiling {total} files to {outputName}...\n"
    ++ s!"Compiled {total - errors} files in {elapsed} ({errors} errors)\n"

structure DirectoryOutcome where
  printed : String
  /-- The folders that were made. -/
  folders : List String
  /-- The paths and contents of the files that were made. -/
  outputs : List (String × ByteArray)
  deriving DecidableEq

/-- The files that are to be compiled. -/
def chosen (files : List (String × Input)) : List (String × Input) :=
  files.filter fun file => isXmlPath file.1

/-- Compile the XML files among `files`, which are those below the directory `inputName`, each with
its path there, into the directory `outputName`; `elapsed` is how long it took. -/
def compileDirectory (options : Compile.Options) (inputName outputName elapsed : String)
    (files : List (String × Input)) : DirectoryOutcome :=
  let progress := compileFiles options (chosen files)
  { printed :=
      directoryReport inputName outputName elapsed (chosen files).length progress.errors
    folders := progress.shelf.folders
    outputs := progress.shelf.files }

end BinaryXml.Command
