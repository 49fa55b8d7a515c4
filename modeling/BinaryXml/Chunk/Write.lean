import BinaryXml.Chunk.Basic
import BinaryXml.StringPool.Format

/-!
# Writing chunks

The size of a chunk follows from what it holds, so it is known before anything is written and
stands in the header that is written first.
-/

namespace BinaryXml.Chunk

/-- The greatest number of attributes that a start tag can count. -/
def greatestAttributeCount : Nat := 0xFFFF

/-- A size, if it fits into 32 bits. -/
def checkedSize (size : Nat) : Except Error Nat :=
  if size < UInt32.size then .ok size else .error .chunkTooLarge

/-- The size of a chunk, its header included. -/
def size : Chunk → Except Error Nat
  | stringPool pool => pool.chunkSize
  | resourceMap ids => checkedSize (8 + 4 * ids.length)
  | startNamespace _ => .ok 24
  | endNamespace _ => .ok 24
  | startTag tag => checkedSize (36 + 20 * tag.attributes.length)
  | endTag _ => .ok 24
  | characterData _ => .ok 28
  | other chunk => checkedSize (8 + chunk.body.size)

def nodeHeader (kind : UInt16) (size : Nat) (line : UInt32) (comment : Option UInt32) :
    NodeHeader :=
  ⟨⟨kind, 16, UInt32.ofNat size⟩, line, storeIndex comment⟩

def writeAttribute (attr : Attribute) : Writing Unit :=
  Writing.record AttributeRecord.layout attr.toRecord

/-- The extension record of a start tag with its attribute records directly behind it. -/
def startTagRecord (tag : StartTag) : StartTagRecord where
  uri := storeIndex tag.uri
  name := tag.name
  attributeStart := 20
  attributeSize := 20
  attributeCount := UInt16.ofNat tag.attributes.length
  idIndex := tag.idIndex
  classIndex := tag.classIndex
  styleIndex := tag.styleIndex

/-- Write a chunk. A start tag with too many attributes fails before its first byte. -/
def write (chunk : Chunk) : Writing Unit := do
  let size ← ofExcept chunk.size
  match chunk with
  | stringPool pool => pool.write
  | resourceMap ids =>
    Writing.record ChunkHeader.layout ⟨ChunkType.resourceMap, 8, UInt32.ofNat size⟩
    Writing.each (Writing.record .u32) ids
  | startNamespace scope | endNamespace scope =>
    Writing.record NodeHeader.layout (nodeHeader chunk.kind size scope.line scope.comment)
    Writing.record NamespaceRecord.layout ⟨storeIndex scope.name, scope.uri⟩
  | startTag tag =>
    if greatestAttributeCount < tag.attributes.length then
      throw .chunkTooLarge
    Writing.record NodeHeader.layout (nodeHeader chunk.kind size tag.line tag.comment)
    Writing.record StartTagRecord.layout (startTagRecord tag)
    Writing.each writeAttribute tag.attributes
  | endTag tag =>
    Writing.record NodeHeader.layout (nodeHeader chunk.kind size tag.line tag.comment)
    Writing.record EndTagRecord.layout ⟨storeIndex tag.uri, tag.name⟩
  | characterData data =>
    Writing.record NodeHeader.layout (nodeHeader chunk.kind size data.line data.comment)
    Writing.record CharacterDataRecord.layout ⟨data.data, data.value.toRecord⟩
  | other chunk =>
    Writing.record ChunkHeader.layout ⟨chunk.kind, chunk.headerSize, UInt32.ofNat size⟩
    Writing.bytes chunk.body

end BinaryXml.Chunk
