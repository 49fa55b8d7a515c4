import BinaryXml.File
import BinaryXml.Namespace
import BinaryXml.Render.Scope
import BinaryXml.Render.Value

/-!
# What a document is rendered as

The chunks of a document become a list of events: tags with their names and attributes in full, and
texts. Bindings that were opened since the last start tag are declared on the next one, each
declared name once. A start tag with its end tag directly behind it is one empty tag. A string that
is not there stops the rendering; what comes before it is still rendered.
-/

namespace BinaryXml

inductive RenderEvent where
  | start (name : String) (attributes : List (String × String))
  /-- The tag of an element without content. -/
  | empty (name : String) (attributes : List (String × String))
  | finish (name : String)
  | text (content : String)
  deriving DecidableEq, Repr

namespace Render

/-- How strings are looked up. -/
abbrev LookUp := UInt32 → Except Error String

/-- A local name behind a prefix, or alone when the prefix is empty. -/
def qualify (qualifier localName : String) : String :=
  if qualifier.isEmpty then localName else qualifier ++ ":" ++ localName

/-- The prefix to write for a namespace: that of its innermost binding, or else `xml` for the
namespace that needs no binding, or else none. -/
def qualifierOf (lookUp : LookUp) (scopes : Scopes) (uri : UInt32) : Except Error String :=
  match scopes.prefixFor? uri with
  | some index => lookUp index
  | none => do
    let uri ← lookUp uri
    return if uri = xmlNamespaceUri then xmlPrefix else ""

/-- The name to write for a local name in a namespace. -/
def qualifiedName (lookUp : LookUp) (scopes : Scopes) (uri : Option UInt32) (name : UInt32) :
    Except Error String := do
  let localName ← lookUp name
  match uri with
  | none => return localName
  | some uri =>
    let qualifier ← qualifierOf lookUp scopes uri
    return qualify qualifier localName

/-- The name of the attribute that declares a binding. -/
def declaredName (lookUp : LookUp) (name : Option UInt32) : Except Error String :=
  match name with
  | none => .ok "xmlns"
  | some index => do
    let name ← lookUp index
    return if name.isEmpty then "xmlns" else "xmlns:" ++ name

/-- The declarations of some bindings, of which the first of each declared name is kept, after those
already `done`, the latest first. -/
def declarationsOnto (lookUp : LookUp) (done : List (String × String)) :
    List ScopedBinding → Except Error (List (String × String))
  | [] => .ok done.reverse
  | binding :: rest => do
    let name ← declaredName lookUp binding.name
    if done.any (·.1 = name) then
      declarationsOnto lookUp done rest
    else
      let uri ← lookUp binding.uri
      declarationsOnto lookUp ((name, uri) :: done) rest

/-- The declarations that the next start tag makes. -/
def declarations (lookUp : LookUp) (scopes : Scopes) : Except Error (List (String × String)) :=
  declarationsOnto lookUp [] scopes.pending.reverse

/-- The value to write for an attribute: as it was written, or else by its type. -/
def attributeValue (lookUp : LookUp) (attr : Attribute) : Except Error String :=
  match attr.rawValue with
  | some index => lookUp index
  | none =>
    match attr.value.stringIndex? with
    | some index => lookUp index
    | none => .ok attr.value.text

/-- The name and the value to write for an attribute. -/
def renderAttribute (lookUp : LookUp) (scopes : Scopes) (attr : Attribute) :
    Except Error (String × String) := do
  let name ← qualifiedName lookUp scopes attr.uri attr.name
  let value ← attributeValue lookUp attr
  return (name, value)

/-- The name and the attributes to write for a start tag, declarations first. -/
def renderStartTag (lookUp : LookUp) (scopes : Scopes) (tag : StartTag) :
    Except Error (String × List (String × String)) := do
  let name ← qualifiedName lookUp scopes tag.uri tag.name
  let declared ← declarations lookUp scopes
  let own ← tag.attributes.mapM (renderAttribute lookUp scopes)
  return (name, declared ++ own)

/-- The events of some chunks, and the error that stopped the rendering, if one did. -/
structure Rendering where
  events : List RenderEvent
  /-- The error behind them. -/
  failure : Option Error

/-- Render chunks, after the events that are `done` already, the latest first. -/
def renderOnto (lookUp : LookUp) (done : List RenderEvent) (scopes : Scopes) :
    List Chunk → Rendering
  | [] => ⟨done.reverse, none⟩
  | .startNamespace scope :: rest =>
    renderOnto lookUp done (scopes.enter ⟨scope.name, scope.uri⟩) rest
  | .endNamespace scope :: rest =>
    renderOnto lookUp done (scopes.leave ⟨scope.name, scope.uri⟩) rest
  | .startTag tag :: .endTag _ :: rest =>
    match renderStartTag lookUp scopes tag with
    | .error error => ⟨done.reverse, some error⟩
    | .ok (name, attributes) =>
      renderOnto lookUp (.empty name attributes :: done) scopes.declared rest
  | .startTag tag :: rest =>
    match renderStartTag lookUp scopes tag with
    | .error error => ⟨done.reverse, some error⟩
    | .ok (name, attributes) =>
      renderOnto lookUp (.start name attributes :: done) scopes.declared rest
  | .endTag tag :: rest =>
    match qualifiedName lookUp scopes tag.uri tag.name with
    | .error error => ⟨done.reverse, some error⟩
    | .ok name => renderOnto lookUp (.finish name :: done) scopes rest
  | .characterData data :: rest =>
    match lookUp data.data with
    | .error error => ⟨done.reverse, some error⟩
    | .ok content => renderOnto lookUp (.text content :: done) scopes rest
  | .stringPool _ :: rest => renderOnto lookUp done scopes rest
  | .resourceMap _ :: rest => renderOnto lookUp done scopes rest
  | .other _ :: rest => renderOnto lookUp done scopes rest

end Render

/-- What a document is rendered as. -/
def ChunkFile.rendering (file : ChunkFile) : Render.Rendering :=
  Render.renderOnto (ChunkFile.lookUp file.stringPool?) [] {} file.chunks

end BinaryXml
