import BinaryXml.File

/-!
# The elements of a file

The start and end tags of a file, read as brackets, are a forest of elements. `ChunkFile.forest?`
reads it, with every string index replaced by the string that the index denotes in the file's pool;
it fails on tags that do not match up and on indices that denote nothing.
-/

namespace BinaryXml

/-! ## Chunks with strings in them -/

/-- A typed value with its string in it, if it is a string. -/
inductive NamedValue where
  | string (s : String)
  | other (value : Value)
  deriving DecidableEq, Repr

/-- An attribute with strings for indices. -/
structure NamedAttribute where
  uri : Option String
  name : String
  rawValue : Option String
  value : NamedValue
  deriving DecidableEq, Repr

/-- A start tag with strings for indices. -/
structure NamedStart where
  line : UInt32
  comment : Option String
  uri : Option String
  name : String
  attributes : List NamedAttribute
  idIndex : UInt16
  classIndex : UInt16
  styleIndex : UInt16
  deriving DecidableEq, Repr

/-- An end tag with strings for indices. -/
structure NamedEnd where
  line : UInt32
  comment : Option String
  uri : Option String
  name : String
  deriving DecidableEq, Repr

/-- An element: its start tag, its end tag and the elements in between. -/
inductive Element where
  | mk (start : NamedStart) (finish : NamedEnd) (children : List Element)

/-- Whether a chunk is a start or an end tag. -/
def Chunk.isTag : Chunk → Bool
  | .startTag _ | .endTag _ => true
  | _ => false

namespace StringPool

variable (pool : StringPool)

/-- The string that an optional index denotes, if there is an index. -/
def optional? : Option UInt32 → Option (Option String)
  | none => some none
  | some index => some <$> pool.get? index

def namedValue? (value : Value) : Option NamedValue :=
  match value.stringIndex? with
  | some index => .string <$> pool.get? index
  | none => some (.other value)

def namedAttribute? (attr : Attribute) : Option NamedAttribute := do
  let uri ← pool.optional? attr.uri
  let name ← pool.get? attr.name
  let rawValue ← pool.optional? attr.rawValue
  let value ← pool.namedValue? attr.value
  return { uri, name, rawValue, value }

def namedStart? (tag : StartTag) : Option NamedStart := do
  let comment ← pool.optional? tag.comment
  let uri ← pool.optional? tag.uri
  let name ← pool.get? tag.name
  let attributes ← tag.attributes.mapM pool.namedAttribute?
  return {
    line := tag.line
    comment
    uri
    name
    attributes
    idIndex := tag.idIndex
    classIndex := tag.classIndex
    styleIndex := tag.styleIndex }

def namedEnd? (tag : EndTag) : Option NamedEnd := do
  let comment ← pool.optional? tag.comment
  let uri ← pool.optional? tag.uri
  let name ← pool.get? tag.name
  return { line := tag.line, comment, uri, name }

/-! ## Tags as brackets -/

/-- Read tags as brackets. `stack` holds the elements that are open, the innermost first, each with
the elements before it, the latest first; `done` holds the elements already read inside the
innermost. -/
def readForest? (stack : List (NamedStart × List Element)) (done : List Element) :
    List Chunk → Option (List Element)
  | [] => if stack.isEmpty then some done.reverse else none
  | .startTag tag :: rest =>
    match pool.namedStart? tag with
    | some start => readForest? ((start, done) :: stack) [] rest
    | none => none
  | .endTag tag :: rest =>
    match pool.namedEnd? tag, stack with
    | some finish, (start, before) :: stack =>
      readForest? stack (.mk start finish done.reverse :: before) rest
    | _, _ => none
  | _ :: rest => readForest? stack done rest

variable {pool} {stack : List (NamedStart × List Element)} {done : List Element}

/-- A start tag opens an element, with nothing inside it yet. -/
theorem readForest?_startTag {tag : StartTag} {start : NamedStart}
    (h : pool.namedStart? tag = some start) (rest : List Chunk) :
    pool.readForest? stack done (.startTag tag :: rest)
      = pool.readForest? ((start, done) :: stack) [] rest := by
  simp only [readForest?, h]

/-- An end tag closes the innermost element, which then comes behind its siblings. -/
theorem readForest?_endTag {tag : EndTag} {start : NamedStart} {finish : NamedEnd}
    {before : List Element} (h : pool.namedEnd? tag = some finish) (rest : List Chunk) :
    pool.readForest? ((start, before) :: stack) done (.endTag tag :: rest)
      = pool.readForest? stack (.mk start finish done.reverse :: before) rest := by
  simp only [readForest?, h]

/-- Chunks that are no tags are passed over. -/
theorem readForest?_append_of_not_isTag {chunks : List Chunk}
    (h : ∀ chunk ∈ chunks, chunk.isTag = false) (rest : List Chunk) :
    pool.readForest? stack done (chunks ++ rest) = pool.readForest? stack done rest := by
  induction chunks with
  | nil => rfl
  | cons chunk chunks ih =>
    rw [List.forall_mem_cons] at h
    have hrest := ih h.2
    cases chunk with
    | startTag tag | endTag tag => cases h.1
    | _ => exact hrest

end StringPool

/-- The forest of the elements of a file. -/
def ChunkFile.forest? (file : ChunkFile) : Option (List Element) := do
  let pool ← file.stringPool?
  pool.readForest? [] [] file.chunks

end BinaryXml
