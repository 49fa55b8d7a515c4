import BinaryXml.Text.Split

/-!
# Documents

A document is a list of nodes: elements with their attributes and children, texts and comments.
Attributes are pairs of a qualified name and a value, as they were written. An attribute of the
name `xmlns` or of a name that starts with `xmlns:` declares a namespace; any other is an ordinary
attribute, whose name may have a prefix in front of its first colon.
-/

namespace BinaryXml

inductive Node where
  /-- An element with the line of its start tag, counted from one, or zero if that is unknown. -/
  | element (name : String) (attributes : List (String × String)) (children : List Node)
      (line : UInt32)
  | text (content : String)
  | comment (content : String)
  deriving Inhabited

abbrev Document := List Node

def Node.isElement : Node → Bool
  | .element .. => true
  | _ => false

/-- What an attribute is for. -/
inductive AttributeRole where
  /-- It binds a prefix to a uri; the prefix is empty for the namespace without a prefix. -/
  | declaration (name uri : String)
  /-- It has a name, with or without a prefix, and a value. -/
  | ordinary (qualifier : Option String) (localName value : String)
  deriving DecidableEq, Repr

/-- The role of an attribute. A name that starts with a colon has no prefix. -/
def AttributeRole.classify (name value : String) : AttributeRole :=
  match Text.dropFront? "xmlns:".toList name.toList with
  | some rest => .declaration (String.ofList rest) value
  | none =>
    if name = "xmlns" then .declaration "" value
    else
      match name.toList.span (· ≠ ':') with
      | (first :: others, _ :: rest) =>
        .ordinary (some (String.ofList (first :: others))) (String.ofList rest) value
      | _ => .ordinary none name value

/-- The start of an element, its attributes classified. -/
structure OpenTag where
  name : String
  line : UInt32
  /-- The roles of the attributes in order. -/
  attributes : List AttributeRole
  deriving DecidableEq, Repr

namespace OpenTag

/-- The start of the element with these parts. -/
def ofElement (name : String) (attributes : List (String × String)) (line : UInt32) : OpenTag where
  name
  line
  attributes := attributes.map fun (name, value) => .classify name value

/-- The namespace declarations in order, each a prefix and a uri. -/
def declarations (tag : OpenTag) : List (String × String) :=
  tag.attributes.filterMap fun
    | .declaration name uri => some (name, uri)
    | .ordinary .. => none

/-- The ordinary attributes in order, each a prefix if it has one, a local name and a value. -/
def ordinary (tag : OpenTag) : List (Option String × String × String) :=
  tag.attributes.filterMap fun
    | .ordinary qualifier localName value => some (qualifier, localName, value)
    | .declaration .. => none

/-- The declarations of an element are those among its attributes as they were written. -/
theorem declarations_ofElement (name : String) (attributes : List (String × String))
    (line : UInt32) :
    (ofElement name attributes line).declarations = attributes.filterMap fun written =>
      match AttributeRole.classify written.1 written.2 with
      | .declaration name uri => some (name, uri)
      | .ordinary .. => none := by
  rw [declarations, ofElement, List.filterMap_map]
  rfl

/-- The ordinary attributes of an element are the others of its attributes. -/
theorem ordinary_ofElement (name : String) (attributes : List (String × String))
    (line : UInt32) :
    (ofElement name attributes line).ordinary = attributes.filterMap fun written =>
      match AttributeRole.classify written.1 written.2 with
      | .ordinary qualifier localName value => some (qualifier, localName, value)
      | .declaration .. => none := by
  rw [ordinary, ofElement, List.filterMap_map]
  rfl

end OpenTag

end BinaryXml
