import BinaryXml.Chunk.Write
import BinaryXml.Proofs.Chunk.Read

/-!
# Chunks, there and back

`Chunk.bytes` are the bytes of a chunk, `Chunk.Spells chunk piece` says that a piece of bytes is one
whole chunk and reads as `chunk`. A chunk that can be represented spells itself (`spells_bytes`):
its pool is one that `add` and `append` have filled, it is interpreted only if its tag says so, its
header does not reach past it, and it refers to no string by the word that stands for no string.
-/

namespace BinaryXml

open Reading

/-! ## Optional indices -/

/-- An optional index survives as a word, unless it is the word that stands for none. -/
theorem loadIndex_storeIndex {index : Option UInt32} (h : index ≠ some noIndex) :
    loadIndex (storeIndex index) = index := by
  cases index with
  | none => rfl
  | some i =>
    have hi : i ≠ noIndex := fun heq => h (congrArg some heq)
    exact if_neg hi

theorem Attribute.ofRecord_toRecord {attr : Attribute} (huri : attr.uri ≠ some noIndex)
    (hraw : attr.rawValue ≠ some noIndex) : Attribute.ofRecord attr.toRecord = attr := by
  have huri' := loadIndex_storeIndex huri
  have hraw' := loadIndex_storeIndex hraw
  simp only [Attribute.ofRecord, Attribute.toRecord, huri', hraw']
  rfl

namespace Chunk

/-- The optional string indices of a chunk. -/
def optionalIndices : Chunk → List (Option UInt32)
  | startNamespace scope | endNamespace scope => [scope.comment, scope.name]
  | startTag tag =>
    tag.comment :: tag.uri :: tag.attributes.flatMap fun attr => [attr.uri, attr.rawValue]
  | endTag tag => [tag.comment, tag.uri]
  | characterData data => [data.comment]
  | _ => []

/-- An optional index refers to a string like any other. -/
theorem mem_stringRefs_of_mem_optionalIndices {chunk : Chunk} {index : UInt32}
    (h : some index ∈ chunk.optionalIndices) : index ∈ chunk.stringRefs := by
  cases chunk with
  | startTag tag =>
    simp only [optionalIndices, List.mem_cons, List.mem_flatMap, List.not_mem_nil, or_false] at h
    simp only [stringRefs, List.mem_append, List.mem_singleton, List.mem_flatMap]
    -- a start tag has optional indices of its own and those of its attributes
    rcases h with h | h | ⟨attr, hattr, h⟩
    · simp [← h]
    · simp [← h]
    · refine .inr ⟨attr, hattr, ?_⟩
      rcases h with h | h <;> simp [Attribute.stringRefs, ← h]
  | startNamespace scope | endNamespace scope =>
    simp only [optionalIndices, List.mem_cons, List.not_mem_nil, or_false] at h
    rcases h with h | h <;> simp [stringRefs, ← h]
  | endTag tag =>
    simp only [optionalIndices, List.mem_cons, List.not_mem_nil, or_false] at h
    rcases h with h | h <;> simp [stringRefs, ← h]
  | characterData data =>
    simp only [optionalIndices, List.mem_singleton] at h
    simp [stringRefs, ← h]
  | _ => cases h

/-- What a chunk has to be so that its bytes can stand for it, indices apart. -/
def Representable : Chunk → Prop
  | stringPool pool => pool.Built
  | other chunk =>
    chunk.kind ∉ ChunkType.interpreted ∧ 8 ≤ chunk.headerSize.toNat ∧
      chunk.headerSize.toNat ≤ 8 + chunk.body.size
  | _ => True

/-- The pool that a chunk is, if it is one, is well-formed. -/
def WellFormed : Chunk → Prop
  | stringPool pool => pool.WellFormed
  | _ => True

/-- A pool that calls have built is well-formed, and no other chunk has a pool. -/
theorem Representable.wellFormed {chunk : Chunk} (h : chunk.Representable) : chunk.WellFormed := by
  cases chunk with
  | stringPool pool => exact StringPool.Built.wellFormed h
  | _ => trivial

/-! ## The bytes of a chunk -/

def headerSize : Chunk → UInt16
  | stringPool _ => 28
  | resourceMap _ => 8
  | other chunk => chunk.headerSize
  | _ => 16

/-- The common header of a chunk of `total` bytes. -/
def header (chunk : Chunk) (total : Nat) : ChunkHeader :=
  ⟨chunk.kind, chunk.headerSize, UInt32.ofNat total⟩

/-- The bytes of a chunk of the tree. -/
def nodeBytes {α : Type} (node : NodeHeader) (layout : Layout α) (record : α) : ByteArray :=
  (NodeHeader.layout.encode node).toByteArray ++ (layout.encode record).toByteArray

def attributeBytes (attributes : List Attribute) : ByteArray :=
  (attributes.flatMap fun attr => AttributeRecord.layout.encode attr.toRecord).toByteArray

/-- The bytes of a chunk, which are `total` in number. -/
def bytes (total : Nat) (chunk : Chunk) : ByteArray :=
  match chunk with
  | stringPool pool => pool.chunkBytes total
  | resourceMap ids =>
    (ChunkHeader.layout.encode (chunk.header total)).toByteArray
      ++ (ids.flatMap Layout.u32.encode).toByteArray
  | startNamespace scope | endNamespace scope =>
    nodeBytes (nodeHeader chunk.kind total scope.line scope.comment) NamespaceRecord.layout
      ⟨storeIndex scope.name, scope.uri⟩
  | startTag tag =>
    nodeBytes (nodeHeader chunk.kind total tag.line tag.comment) StartTagRecord.layout
        (startTagRecord tag)
      ++ attributeBytes tag.attributes
  | endTag tag =>
    nodeBytes (nodeHeader chunk.kind total tag.line tag.comment) EndTagRecord.layout
      ⟨storeIndex tag.uri, tag.name⟩
  | characterData data =>
    nodeBytes (nodeHeader chunk.kind total data.line data.comment) CharacterDataRecord.layout
      ⟨data.data, data.value.toRecord⟩
  | other rest => (ChunkHeader.layout.encode (chunk.header total)).toByteArray ++ rest.body

/-- The number of attributes that a chunk has to count. -/
def attributeCount : Chunk → Nat
  | startTag tag => tag.attributes.length
  | _ => 0

/-- The bytes of a chunk, if its size and its attributes can be stated. -/
def encoded (chunk : Chunk) : Except Error ByteArray :=
  match chunk.size with
  | .error error => .error error
  | .ok total =>
    if greatestAttributeCount < chunk.attributeCount then .error .chunkTooLarge
    else .ok (chunk.bytes total)

/-- A chunk has bytes exactly when its size fits and its attributes can be counted. -/
theorem encoded_eq_ok_iff {chunk : Chunk} {piece : ByteArray} :
    chunk.encoded = .ok piece ↔
      ∃ total, chunk.size = .ok total ∧ chunk.attributeCount ≤ greatestAttributeCount ∧
        piece = chunk.bytes total := by
  unfold encoded
  constructor
  · intro h
    split at h
    · cases h
    · rename_i total htotal
      split at h
      · cases h
      · cases h
        exact ⟨total, htotal, Nat.not_lt.mp ‹_›, rfl⟩
  · rintro ⟨total, htotal, hcount, rfl⟩
    rw [htotal]
    exact if_neg (Nat.not_lt.mpr hcount)

theorem write_of_size_eq_error {chunk : Chunk} {error : Error} (h : chunk.size = .error error) :
    chunk.write = throw error := by
  unfold write
  rw [h]
  rfl

/-- A chunk whose size and attributes can be stated is written in one go. -/
theorem write_eq_bytes {chunk : Chunk} {total : Nat} (h : chunk.size = .ok total)
    (hcount : chunk.attributeCount ≤ greatestAttributeCount) :
    chunk.write = Writing.bytes (chunk.bytes total) := by
  unfold write
  rw [h]
  show _ = Writing.bytes (chunk.bytes total)
  -- each case is a write of several pieces, which are joined
  cases chunk with
  | stringPool pool => exact StringPool.write_eq_bytes h
  | resourceMap ids =>
    rw [bytes, ← Writing.bytes_bind_bytes, ← Writing.each_record]
    rfl
  | startNamespace scope | endNamespace scope | endTag tag | characterData data =>
    rw [bytes, nodeBytes, ← Writing.bytes_bind_bytes]
    rfl
  | startTag tag =>
    have hattributes : Writing.each writeAttribute tag.attributes
        = Writing.bytes (attributeBytes tag.attributes) := by
      rw [attributeBytes, ← joined_map_toByteArray]
      exact Writing.each_eq_bytes fun _ _ => rfl
    rw [bytes, nodeBytes, ByteArray.append_assoc, ← Writing.bytes_bind_bytes,
      ← Writing.bytes_bind_bytes, ← hattributes]
    have hfew : ¬ greatestAttributeCount < tag.attributes.length := Nat.not_lt.mpr hcount
    show (if greatestAttributeCount < tag.attributes.length then _ else _) = _
    rw [if_neg hfew]
    rfl
  | other rest =>
    rw [bytes, ← Writing.bytes_bind_bytes]
    rfl

/-- A start tag with too many attributes is not written at all. -/
theorem write_of_many_attributes {chunk : Chunk} {total : Nat} (h : chunk.size = .ok total)
    (hcount : greatestAttributeCount < chunk.attributeCount) :
    chunk.write = throw .chunkTooLarge := by
  cases chunk with
  | startTag tag =>
    have hmany : greatestAttributeCount < tag.attributes.length := hcount
    unfold write
    rw [h]
    show (if greatestAttributeCount < tag.attributes.length then _ else _) = _
    rw [if_pos hmany]
    rfl
  | _ => exact absurd hcount (Nat.not_lt_zero _)

/-- A chunk is written whole or not at all. -/
theorem write_eq_replay (chunk : Chunk) :
    chunk.write = Writing.replay .outOfRoom (.ofExcept chunk.encoded) := by
  cases hsize : chunk.size with
  | error error =>
    rw [write_of_size_eq_error hsize, encoded, hsize, Writing.throw_eq_replay .outOfRoom]
    rfl
  | ok total =>
    by_cases hcount : chunk.attributeCount ≤ greatestAttributeCount
    · rw [write_eq_bytes hsize hcount, encoded_eq_ok_iff.mpr ⟨total, hsize, hcount, rfl⟩]
      exact Writing.put_eq_replay _ _
    · have hmany := Nat.not_le.mp hcount
      rw [write_of_many_attributes hsize hmany, encoded, hsize,
        Writing.throw_eq_replay .outOfRoom]
      dsimp only
      rw [if_pos hmany]
      rfl

/-- Without a limit a write gives the bytes of the chunk, or its one failure. -/
theorem write_toBytes_eq_encoded (chunk : Chunk) : chunk.write.toBytes = chunk.encoded := by
  rw [write_eq_replay, Writing.toBytes_replay]
  cases chunk.encoded <;> rfl

/-! ## Sizes -/

theorem checkedSize_eq_ok_iff {n total : Nat} :
    checkedSize n = .ok total ↔ n < UInt32.size ∧ total = n := by
  rw [checkedSize, ite_eq_ok_iff, Except.ok.injEq, eq_comm (a := n)]

theorem size_nodeBytes {α : Type} (node : NodeHeader) (layout : Layout α) (record : α) :
    (nodeBytes node layout record).size = 16 + layout.width := by
  rw [nodeBytes, ByteArray.size_append, List.size_toByteArray, List.size_toByteArray,
    NodeHeader.layout.length_encode, layout.length_encode]
  rfl

theorem size_attributeBytes (attributes : List Attribute) :
    (attributeBytes attributes).size = 20 * attributes.length := by
  have hwidth : AttributeRecord.layout.width = 20 := rfl
  rw [attributeBytes, List.size_toByteArray, ← List.flatMap_map, length_flatMap_encode, hwidth,
    List.length_map]

/-- The size of a chunk fits its field, and is that of its bytes. -/
theorem size_bytes {chunk : Chunk} {total : Nat} (hchunk : chunk.WellFormed)
    (h : chunk.size = .ok total) : total < UInt32.size ∧ (chunk.bytes total).size = total := by
  cases chunk with
  | stringPool pool =>
    have htotal := (StringPool.chunkSize_eq_ok_iff.mp h).2.1
    exact ⟨htotal, StringPool.size_chunkBytes hchunk h⟩
  | resourceMap ids =>
    obtain ⟨htotal, rfl⟩ := checkedSize_eq_ok_iff.mp h
    refine ⟨htotal, ?_⟩
    rw [bytes, ByteArray.size_append, List.size_toByteArray, List.size_toByteArray,
      ChunkHeader.layout.length_encode, length_flatMap_encode]
    rfl
  | startNamespace scope | endNamespace scope | endTag tag | characterData data =>
    -- these kinds have one size each, which the record gives
    cases h
    exact ⟨by decide, size_nodeBytes _ _ _⟩
  | startTag tag =>
    obtain ⟨htotal, rfl⟩ := checkedSize_eq_ok_iff.mp h
    refine ⟨htotal, ?_⟩
    rw [bytes, ByteArray.size_append, size_nodeBytes, size_attributeBytes]
    rfl
  | other rest =>
    obtain ⟨htotal, rfl⟩ := checkedSize_eq_ok_iff.mp h
    refine ⟨htotal, ?_⟩
    rw [bytes, ByteArray.size_append, List.size_toByteArray, ChunkHeader.layout.length_encode]
    rfl

/-! ## Pieces that spell a chunk -/

/-- The piece is one whole chunk, header and all, and reads as `chunk`. -/
def Spells (chunk : Chunk) (piece : ByteArray) : Prop :=
  ∃ header, ChunkHeader.read piece 0 0 = .ok header ∧ header.size.toNat = piece.size ∧
    decode header piece 0 = .ok chunk

/-- Whatever the chunk is, its bytes start with the common header of its kind, its header size and
its size. -/
theorem exists_bytes_eq_header_append (chunk : Chunk) (total : Nat) :
    ∃ rest, chunk.bytes total
      = (ChunkHeader.layout.encode (chunk.header total)).toByteArray ++ rest := by
  -- a node's first record starts with that header
  have hnode : ∀ {α : Type} (node : NodeHeader) (layout : Layout α) (record : α),
      nodeBytes node layout record = (ChunkHeader.layout.encode node.chunk).toByteArray
        ++ ((Layout.u32.encode node.line ++ Layout.u32.encode node.comment).toByteArray
          ++ (layout.encode record).toByteArray) := by
    intro α node layout record
    rw [nodeBytes, ← ByteArray.append_assoc]
    rw [← List.toByteArray_append (l := ChunkHeader.layout.encode node.chunk)]
    rfl
  cases chunk with
  | stringPool pool =>
    have hheader : PoolHeader.layout.encode (pool.header total)
        = ChunkHeader.layout.encode (pool.header total).chunk
          ++ (PoolHeader.layout.encode (pool.header total)).drop 8 := rfl
    rw [bytes, StringPool.chunkBytes, hheader, List.toByteArray_append, ByteArray.append_assoc]
    exact ⟨_, rfl⟩
  | startTag tag =>
    rw [bytes, hnode, ByteArray.append_assoc]
    exact ⟨_, rfl⟩
  | startNamespace scope | endNamespace scope | endTag tag | characterData data =>
    rw [bytes, hnode]
    exact ⟨_, rfl⟩
  | resourceMap ids | other rest => exact ⟨_, rfl⟩

/-- The header is eight bytes at least, and no longer than the chunk. -/
theorem headerSize_bounds {chunk : Chunk} {total : Nat} (hchunk : chunk.Representable)
    (h : chunk.size = .ok total) :
    8 ≤ chunk.headerSize.toNat ∧ chunk.headerSize.toNat ≤ total := by
  cases chunk with
  | stringPool pool =>
    have hsum := (StringPool.chunkSize_eq_ok_iff.mp h).2.2
    have hlong : StringPool.headerSize = 28 := rfl
    refine ⟨show 8 ≤ 28 by decide, ?_⟩
    show 28 ≤ total
    omega
  | resourceMap ids =>
    have hsum := (checkedSize_eq_ok_iff.mp h).2
    refine ⟨Nat.le_refl 8, ?_⟩
    show 8 ≤ total
    omega
  | startNamespace scope | endNamespace scope | endTag tag | characterData data =>
    cases h
    exact ⟨show 8 ≤ 16 by decide, show 16 ≤ _ by decide⟩
  | startTag tag =>
    have hsum := (checkedSize_eq_ok_iff.mp h).2
    refine ⟨show 8 ≤ 16 by decide, ?_⟩
    show 16 ≤ total
    omega
  | other rest =>
    -- the only chunk whose header size is its own
    have hsum := (checkedSize_eq_ok_iff.mp h).2
    refine ⟨hchunk.2.1, ?_⟩
    rw [hsum]
    exact hchunk.2.2

/-- The header of a representable chunk is accepted in front of its bytes. -/
theorem read_header_bytes {chunk : Chunk} {total : Nat} (hchunk : chunk.Representable)
    (h : chunk.size = .ok total) :
    ChunkHeader.read (chunk.bytes total) 0 0 = .ok (chunk.header total) := by
  obtain ⟨htotal, hsize⟩ := size_bytes hchunk.wellFormed h
  obtain ⟨hlong, hfits⟩ := headerSize_bounds hchunk h
  obtain ⟨rest, hrest⟩ := exists_bytes_eq_header_append chunk total
  have hword : (chunk.header total).size.toNat = total := UInt32.toNat_ofNat_of_lt' htotal
  refine ChunkHeader.read_eq_ok_iff.mpr ⟨?_, hlong, ?_, ?_⟩
  · rw [hrest]
    exact (takes_record _ _).runAt_zero _
  · rw [hword]
    exact hfits
  · rw [hword, hsize]
    exact Nat.le_refl _

end Chunk

end BinaryXml
