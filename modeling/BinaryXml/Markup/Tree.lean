import BinaryXml.Document.Basic
import BinaryXml.Error
import BinaryXml.Markup.Event
import BinaryXml.Markup.Lexer

/-!
# From XML text to a document

A `TreeBuilder` takes the events of a text one by one and keeps the elements that are open, the
innermost first. A text that is blank after its references are replaced is dropped; character data
is kept even when it is empty. Texts may stand outside of elements, and there may be several
elements at the top, but there has to be one.
-/

namespace BinaryXml

namespace Markup

structure OpenElement where
  name : String
  attributes : List (String × String)
  line : UInt32
  /-- The children so far, the latest first. -/
  children : List Node := []

/-- The element with the children that it has so far. -/
def OpenElement.close (element : OpenElement) : Node :=
  .element element.name element.attributes element.children.reverse element.line

structure TreeBuilder where
  /-- The elements that are open, the innermost first. -/
  openElements : List OpenElement := []
  /-- The nodes at the top, the latest first. -/
  nodes : List Node := []

namespace TreeBuilder

/-- Add a node to the innermost open element or at the top. -/
def add (node : Node) (builder : TreeBuilder) : TreeBuilder :=
  match builder.openElements with
  | [] => { builder with nodes := node :: builder.nodes }
  | top :: others =>
    { builder with openElements := { top with children := node :: top.children } :: others }

/-- Take an event, whose token is at `offset`. -/
def take (offset : Nat) (builder : TreeBuilder) : Event → Except Fault TreeBuilder
  | .start name attributes line =>
    .ok { builder with openElements := { name, attributes, line } :: builder.openElements }
  | .empty name attributes line => .ok (builder.add (.element name attributes [] line))
  | .finish name =>
    match builder.openElements with
    | [] => .error (.malformed offset (.closeTagUnopened name))
    | top :: others =>
      if top.name = name then .ok (add top.close { builder with openElements := others })
      else .error (.malformed offset (.closeTagMismatch top.name name))
  | .text content =>
    if Text.isBlank content.toList then .ok builder else .ok (builder.add (.text content))
  | .cdata content => .ok (builder.add (.text content))
  | .comment content => .ok (builder.add (.comment content))
  | .ignored => .ok builder

/-- Take the events of tokens in order. -/
def takeTokens (lines : LineMap) : List Located → TreeBuilder → Except Fault TreeBuilder
  | [], builder => .ok builder
  | located :: rest, builder =>
    match Event.ofToken lines located with
    | .error fault => .error fault
    | .ok event =>
      match builder.take located.offset event with
      | .error fault => .error fault
      | .ok builder => takeTokens lines rest builder

/-- The document that was built. No element may be open, and there has to be one. -/
def finish (builder : TreeBuilder) : Except Fault Document :=
  match builder.openElements with
  | top :: _ => .error (.unclosedElement top.name)
  | [] =>
    let nodes := builder.nodes.reverse
    if nodes.any Node.isElement then .ok nodes else .error .noElement

end TreeBuilder

/-- A text without the mark that tells its byte order, if it has one. -/
def dropMark (text : List Char) : List Char :=
  match text with
  | '\uFEFF' :: rest => rest
  | _ => text

/-- The document that an XML text spells. Offsets do not count a byte order mark at the front, yet
lines are found by them in the text with its mark. -/
def parse (text : List Char) : Except Fault Document := do
  let lexed := lex (dropMark text)
  let builder ← TreeBuilder.takeTokens (.ofText text) lexed.tokens {}
  match lexed.fault with
  | some fault => throw fault
  | none => builder.finish

end Markup

namespace Document

/-- The document that an XML text spells. -/
def parse (text : String) : Except Error Document :=
  match Markup.parse text.toList with
  | .ok document => .ok document
  | .error fault => .error (.xml fault)

/-- The document that the XML text in some bytes spells; the bytes have to be UTF-8. -/
def parseBytes (bytes : ByteArray) : Except Error Document :=
  match Utf8.decode bytes with
  | .ok text => parse text
  | .error fault => .error (.notUtf8 fault)

end Document

end BinaryXml
