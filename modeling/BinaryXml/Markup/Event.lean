import BinaryXml.Markup.Attributes
import BinaryXml.Markup.LineMap
import BinaryXml.Markup.Token

/-!
# Events of XML text

An event is a token whose inside has been looked at: names, attributes and the lines of tags, texts
with their references replaced.
-/

namespace BinaryXml.Markup

inductive Event where
  | start (name : String) (attributes : List (String × String)) (line : UInt32)
  /-- An element without content. -/
  | empty (name : String) (attributes : List (String × String)) (line : UInt32)
  /-- An element of this name ends. -/
  | finish (name : String)
  | text (content : String)
  | cdata (content : String)
  | comment (content : String)
  /-- A declaration, a processing instruction or a document type declaration. -/
  | ignored
  deriving DecidableEq, Repr

def Event.ofToken (lines : LineMap) (located : Located) : Except Fault Event :=
  let line := UInt32.ofNat (lines.line located.offset)
  match located.token with
  | .startTag content => do
    let attributes ← tagAttributes content
    return .start (String.ofList (tagName content)) attributes line
  | .emptyTag content => do
    let attributes ← tagAttributes content
    return .empty (String.ofList (tagName content)) attributes line
  | .endTag name => .ok (.finish (String.ofList name))
  | .text raw =>
    match unescape raw with
    | .ok content => .ok (.text (String.ofList content))
    | .error fault => .error (.faultyReference fault)
  | .cdata content => .ok (.cdata (String.ofList content))
  | .comment content => .ok (.comment (String.ofList content))
  | .instruction _ => .ok .ignored
  | .doctype _ => .ok .ignored

end BinaryXml.Markup
