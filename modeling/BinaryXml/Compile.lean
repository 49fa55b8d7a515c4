import BinaryXml.Document.Walk
import BinaryXml.File
import BinaryXml.Namespace

/-!
# Compiling documents

A document is compiled in two walks. The first collects its strings into a pool and its namespace
declarations into a table; the second builds the tags, looking every string up in the finished pool.
Each declared binding becomes one namespace scope around the whole tree, wherever in the tree it is
declared.
-/

namespace BinaryXml.Compile

structure Options where
  encoding : StringEncoding := .utf8
  /-- What to do about prefixes that are declared nowhere. -/
  unbound : UnboundPolicy := .reject

/-! ### The first walk -/

structure Collection where
  pool : StringPool
  namespaces : NamespaceTable := {}

abbrev Collecting := StateT Collection (Except Error)

def collect (s : String) : Collecting UInt32 := fun ⟨pool, namespaces⟩ =>
  match pool.add s with
  | .error error => .error error
  | .ok (index, pool) => .ok (index, ⟨pool, namespaces⟩)

/-- Collect the strings of an ordinary attribute. One with the prefix `xml` also binds that
prefix. -/
def collectAttribute : Option String × String × String → Collecting Unit
  | (none, localName, value) => do
    let _ ← collect localName
    let _ ← collect value
  | (some qualifier, localName, value) => do
    let _ ← collect localName
    let _ ← collect qualifier
    let _ ← collect value
    if qualifier = xmlPrefix then
      let uri ← collect xmlNamespaceUri
      modify fun c => { c with namespaces := c.namespaces.bindXml uri }

def collector : Visitor Collecting where
  onStart tag := do
    let _ ← collect tag.name
    tag.declarations.forM fun (name, uri) => do
      let _ ← collect name
      let _ ← collect uri
    tag.ordinary.forM collectAttribute
  onDeclaration name uri := do
    let nameIndex ← collect name
    let uriIndex ← collect uri
    modify fun c => { c with namespaces := c.namespaces.declare name ⟨nameIndex, uriIndex⟩ }
  onEnd name _ := do
    let _ ← collect name

/-- The strings and bindings of a document. -/
def collection (encoding : StringEncoding) (document : Document) : Except Error Collection :=
  match (document.walk collector).run { pool := { encoding } } with
  | .error error => .error error
  | .ok (_, collected) => .ok collected

/-! ### The second walk -/

/-- The effects of the second walk, which builds up tags. -/
abbrev Building := StateT (Array Chunk) (Except Error)

/-- The index of a string that the first walk has collected. -/
def indexIn (pool : StringPool) (s : String) : Except Error UInt32 :=
  match pool.indexOf? s with
  | some index => .ok index
  | none => .error (.uncollectedString s)

/-- The namespace index of a prefix used on an element. -/
def resolve (unbound : UnboundPolicy) (namespaces : NamespaceTable) (element name : String) :
    Except Error UInt32 :=
  match namespaces.resolve name, unbound with
  | some uri, _ => .ok uri
  | none, .reject => .error (.unboundPrefix name element)
  | none, .sentinel => .ok UnboundPolicy.sentinelIndex

/-- The attribute that an ordinary attribute of an element becomes. -/
def buildAttribute (unbound : UnboundPolicy) (collected : Collection) (element : String) :
    Option String × String × String → Except Error Attribute
  | (qualifier, localName, value) => do
    let uri ← match qualifier with
      | some name => some <$> resolve unbound collected.namespaces element name
      | none => pure none
    let valueIndex ← indexIn collected.pool value
    let nameIndex ← indexIn collected.pool localName
    return ⟨uri, nameIndex, some valueIndex, .string valueIndex⟩

def buildStartTag (unbound : UnboundPolicy) (collected : Collection) (tag : OpenTag) :
    Except Error StartTag := do
  let attributes ← tag.ordinary.mapM (buildAttribute unbound collected tag.name)
  if Chunk.greatestAttributeCount < attributes.length then
    throw (.tooManyAttributes tag.name attributes.length)
  let name ← indexIn collected.pool tag.name
  return {
    line := tag.line
    comment := none
    uri := none
    name
    attributes
    idIndex := 0
    classIndex := 0
    styleIndex := 0 }

/-- The visitor of the second walk. Declarations were dealt with in the first. -/
def builder (unbound : UnboundPolicy) (collected : Collection) : Visitor Building where
  onStart tag := do
    let startTag ← buildStartTag unbound collected tag
    modify (·.push (.startTag startTag))
  onDeclaration _ _ := pure ()
  onEnd name line := do
    let index ← indexIn collected.pool name
    modify (·.push (.endTag ⟨line, none, none, index⟩))

def tags (unbound : UnboundPolicy) (collected : Collection) (document : Document) :
    Except Error (Array Chunk) :=
  match (document.walk (builder unbound collected)).run #[] with
  | .error error => .error error
  | .ok (_, tags) => .ok tags

/-! ### The whole -/

/-- The scope of a binding around the whole tree. -/
def scopeOf (binding : Binding) : NamespaceScope :=
  ⟨0, none, some binding.name, binding.uri⟩

/-- The file of what the two walks gave: the pool, the scopes opened in order, the tags, and the
scopes closed in the opposite order. -/
def assemble (collected : Collection) (tags : Array Chunk) : ChunkFile where
  chunks :=
    let scopes := collected.namespaces.bindings.map scopeOf
    .stringPool collected.pool :: scopes.map .startNamespace ++ tags.toList
      ++ scopes.reverse.map .endNamespace

end Compile

def compile (options : Compile.Options) (document : Document) : Except Error ChunkFile := do
  let collected ← Compile.collection options.encoding document
  let tags ← Compile.tags options.unbound collected document
  return Compile.assemble collected tags

end BinaryXml
