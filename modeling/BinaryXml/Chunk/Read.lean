import BinaryXml.Chunk.Basic
import BinaryXml.StringPool.Format

/-!
# Reading chunks

A chunk is read from exactly the bytes that its header declares. The header of the whole is
checked first; then the contents have to fit the header by the rules of the chunk's type. Headers
may be longer, attribute records wider and further apart than this library writes them; a chunk of
another type is kept as it is.
-/

namespace BinaryXml

/-- Read the header of the chunk at a position of some bytes and check that the chunk fits in
there. `offset` is where the position lies in the whole input, for errors. -/
def ChunkHeader.read (data : ByteArray) (position offset : Nat) : Except Error ChunkHeader := do
  let available := data.size - position
  if available < 8 then
    throw (.truncatedChunk offset 8 available)
  let header ← (Reading.record layout).runAt data position
  if header.headerSize.toNat < 8 ∨ header.size.toNat < header.headerSize.toNat then
    throw (.invalidChunkHeader offset header.headerSize header.size)
  if available < header.size.toNat then
    throw (.truncatedChunk offset header.size.toNat available)
  return header

/-- An accepted chunk is eight bytes long at least. -/
theorem ChunkHeader.eight_le_size_of_read {data : ByteArray} {position offset : Nat}
    {header : ChunkHeader} (h : read data position offset = .ok header) :
    8 ≤ header.size.toNat := by
  unfold read at h
  simp only [bind, Except.bind, pure, Except.pure, throw, throwThe, MonadExceptOf.throw] at h
  split at h
  · cases h
  · split at h
    · cases h
    · split at h
      · cases h
      · rename_i hheader
        split at h
        · cases h
        · cases h
          omega

namespace Chunk

/-- Read the header of a tree node and the extension record of the given format behind it. -/
def readNode {α : Type} (record : Layout α) (chunk : ByteArray) (offset : Nat) :
    Except Error (NodeHeader × α) := do
  if chunk.size < 16 then
    throw (.malformedChunk offset .shortNode)
  let node ← (Reading.record NodeHeader.layout).runAt chunk 0
  let headerSize := node.chunk.headerSize.toNat
  if headerSize < 16 then
    throw (.malformedChunk offset .shortNodeHeader)
  if chunk.size < headerSize + record.width then
    throw (.malformedChunk offset .shortNodeRecord)
  let extension ← (Reading.record record).runAt chunk headerSize
  return (node, extension)

def readNamespace (chunk : ByteArray) (offset : Nat) : Except Error NamespaceScope := do
  let (node, record) ← readNode NamespaceRecord.layout chunk offset
  return ⟨node.line, loadIndex node.comment, loadIndex record.name, record.uri⟩

/-- The attributes of the records at `position` and each `stride` behind the one before, after those
already `done`, the latest first. Every record has to lie within the chunk. -/
def readAttributesOnto (chunk : ByteArray) (offset stride : Nat) (done : List Attribute)
    (position : Nat) : Nat → Except Error (List Attribute)
  | 0 => .ok done.reverse
  | count + 1 =>
    match (Reading.record AttributeRecord.layout).runAt chunk position with
    | .error _ => .error (.malformedChunk offset .attributeOutside)
    | .ok record =>
      readAttributesOnto chunk offset stride (.ofRecord record :: done) (position + stride) count

def readStartTag (chunk : ByteArray) (offset : Nat) : Except Error StartTag := do
  let (node, record) ← readNode StartTagRecord.layout chunk offset
  let count := record.attributeCount.toNat
  let stride := record.attributeSize.toNat
  if 0 < count ∧ stride < 20 then
    throw (.malformedChunk offset .shortAttribute)
  let first := node.chunk.headerSize.toNat + record.attributeStart.toNat
  let attributes ← readAttributesOnto chunk offset stride [] first count
  return {
    line := node.line
    comment := loadIndex node.comment
    uri := loadIndex record.uri
    name := record.name
    attributes
    idIndex := record.idIndex
    classIndex := record.classIndex
    styleIndex := record.styleIndex }

def readEndTag (chunk : ByteArray) (offset : Nat) : Except Error EndTag := do
  let (node, record) ← readNode EndTagRecord.layout chunk offset
  return ⟨node.line, loadIndex node.comment, loadIndex record.uri, record.name⟩

def readCharacterData (chunk : ByteArray) (offset : Nat) : Except Error CharacterData := do
  let (node, record) ← readNode CharacterDataRecord.layout chunk offset
  return ⟨node.line, loadIndex node.comment, record.data, .ofRecord record.value⟩

/-- The words that some bytes hold, after those already `done`, the latest first; bytes at the end
that are no whole word are left out. -/
def wordsOnto (done : List UInt32) : List UInt8 → List UInt32
  | b₀ :: b₁ :: b₂ :: b₃ :: rest =>
    wordsOnto (Layout.u32.decode [b₀, b₁, b₂, b₃] :: done) rest
  | _ => done.reverse

def readResourceMap (header : ChunkHeader) (chunk : ByteArray) : List UInt32 :=
  wordsOnto [] (chunk.extract header.headerSize.toNat chunk.size).data.toList

/-- Read the chunk with the given header from its bytes, which stand at `offset`. -/
def decode (header : ChunkHeader) (chunk : ByteArray) (offset : Nat) : Except Error Chunk :=
  if header.kind = ChunkType.stringPool then
    stringPool <$> StringPool.decode chunk offset
  else if header.kind = ChunkType.resourceMap then
    .ok (resourceMap (readResourceMap header chunk))
  else if header.kind = ChunkType.startNamespace then
    startNamespace <$> readNamespace chunk offset
  else if header.kind = ChunkType.endNamespace then
    endNamespace <$> readNamespace chunk offset
  else if header.kind = ChunkType.startTag then
    startTag <$> readStartTag chunk offset
  else if header.kind = ChunkType.endTag then
    endTag <$> readEndTag chunk offset
  else if header.kind = ChunkType.characterData then
    characterData <$> readCharacterData chunk offset
  else
    .ok (other ⟨header.kind, header.headerSize, chunk.extract 8 chunk.size⟩)

end Chunk

end BinaryXml
