import BinaryXml.Error

/-!
# Outcomes of commands

A command works on the contents of files. It says what it prints, what it wants written, and whether
it failed. A failure is reported with the chain of errors that caused it.
-/

namespace BinaryXml.Command

structure Failure where
  report : String
  /-- What caused it, and what caused that, and so on. -/
  causes : List String := []
  deriving DecidableEq, Repr

/-- The reports of an error as a cause: a fault of a read is a cause of its own. -/
def causesOf (error : Error) : List String :=
  match error with
  | .read fault => [error.message, fault.message]
  | _ => [error.message]

/-- A text with `lead` ahead of its first line and `indent` ahead of every other. -/
def hang (lead indent text : String) : String :=
  lead ++ String.intercalate ("\n" ++ indent) (text.splitOn "\n")

/-- The text that lists causes: one alone is indented, several are numbered from zero. -/
def causesText (causes : List String) : String :=
  match causes with
  | [] => ""
  | [cause] => "\nCaused by:\n" ++ hang "    " "    " cause ++ "\n"
  | _ =>
    let numbered := causes.zipIdx.map fun (cause, n) =>
      hang (Numeral.padLeft 5 ' ' (toString n) ++ ": ") "       " cause ++ "\n"
    "\nCaused by:\n" ++ String.join numbered

def Failure.text (failure : Failure) : String :=
  "Error: " ++ failure.report ++ "\n" ++ causesText failure.causes

/-- The content of a file, or why it cannot be read. -/
abbrev Input := Except String ByteArray

/-- The value of a step that has to succeed, or `report` with what caused it to fail. -/
def orReport {α : Type} (report : String) : Except Error α → Except Failure α
  | .ok value => .ok value
  | .error error => .error { report, causes := causesOf error }

/-- The value of a step that has to succeed, or its error as the report. -/
def orFail {α : Type} : Except Error α → Except Failure α
  | .ok value => .ok value
  | .error error => .error { report := error.message, causes := (causesOf error).tail }

def read (input : Input) : Except Failure ByteArray :=
  match input with
  | .ok content => .ok content
  | .error reason => .error { report := "Failed to read input file", causes := [reason] }

structure Outcome where
  printed : String
  /-- The content of its output file, if it made one. -/
  output : Option ByteArray := none
  /-- Why it failed, if it did. -/
  failure : Option Failure := none

end BinaryXml.Command
