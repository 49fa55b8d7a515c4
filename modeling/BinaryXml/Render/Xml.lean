import BinaryXml.Bytes.Sink
import BinaryXml.Render.Event

/-!
# Rendered documents as XML text

Every tag stands on a line of its own, indented by four blanks for each level, except behind a text,
which the tag follows directly. The five characters that XML gives a meaning are written as
references.
-/

namespace BinaryXml

namespace Render

/-- A character as it stands in a text or a value. -/
def escapeCharacter (c : Char) : List Char :=
  match c with
  | '<' => "&lt;".toList
  | '>' => "&gt;".toList
  | '&' => "&amp;".toList
  | '\'' => "&apos;".toList
  | '"' => "&quot;".toList
  | _ => [c]

/-- A text with the characters that XML gives a meaning written as references. -/
def escape (text : String) : String :=
  String.ofList (text.toList.flatMap escapeCharacter)

/-- The attributes of a tag, each behind a blank. -/
def attributesText (attributes : List (String × String)) : String :=
  String.join (attributes.map fun (name, value) =>
    " " ++ name ++ "=\"" ++ escape value ++ "\"")

/-- The declaration at the front of every document. -/
def declarationText : String :=
  "<?xml version=\"1.0\" encoding=\"utf-8\"?>"

/-- Where the next event is written. -/
structure Margin where
  /-- The number of elements around it. -/
  level : Nat := 0
  /-- Whether a tag goes on the line, because a text stands before it. -/
  behindText : Bool := false

/-- What stands before a tag: a new line, indented, or nothing behind a text. -/
def Margin.lead (margin : Margin) : String :=
  if margin.behindText then ""
  else String.ofList ('\n' :: List.replicate (4 * margin.level) ' ')

/-- The text of an event, and where the next one is written. -/
def eventText (margin : Margin) : RenderEvent → String × Margin
  | .start name attributes =>
    (margin.lead ++ "<" ++ name ++ attributesText attributes ++ ">",
      { level := margin.level + 1 })
  | .empty name attributes =>
    (margin.lead ++ "<" ++ name ++ attributesText attributes ++ "/>", { level := margin.level })
  | .finish name =>
    let outer := { margin with level := margin.level - 1 }
    (outer.lead ++ "</" ++ name ++ ">", { level := outer.level })
  | .text content => (escape content, { margin with behindText := true })

def writeEvents : List RenderEvent → Margin → Writing Unit
  | [], _ => pure ()
  | event :: rest, margin => do
    let (text, margin) := eventText margin event
    Writing.text text
    writeEvents rest margin

/-- The text of events, behind what is `done`. -/
def eventsTextOnto (done : String) : List RenderEvent → Margin → String
  | [], _ => done
  | event :: rest, margin =>
    let (text, margin) := eventText margin event
    eventsTextOnto (done ++ text) rest margin

end Render

namespace ChunkFile

/-- Write a document as XML text. A string that is not there ends the writing behind the last event
that needs none of it. -/
def writeXml (file : ChunkFile) : Writing Unit := do
  let rendering := file.rendering
  Writing.text Render.declarationText
  Render.writeEvents rendering.events {}
  match rendering.failure with
  | some error => throw error
  | none => pure ()

def toXml (file : ChunkFile) : Except Error String :=
  let rendering := file.rendering
  match rendering.failure with
  | some error => .error error
  | none => .ok (Render.eventsTextOnto Render.declarationText rendering.events {})

end ChunkFile

end BinaryXml
