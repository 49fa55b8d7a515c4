import BinaryXml.Chunk.Read
import BinaryXml.Proofs.Except
import BinaryXml.Proofs.Format.Record
import BinaryXml.Proofs.StringPool.Format

/-!
# What a chunk is read from

The conditions under which a header and a tree node are read, and the part that the offset of a
chunk plays: it stands in the errors and nowhere else, so a chunk reads the same wherever it stands
(`decode_add`). `CutsOut` says that an accepted header cuts a chunk out of some bytes; the chunk
then starts with that header.
-/

namespace BinaryXml

/-! ## Errors at another place -/

/-- The error of the same chunk when it stands `distance` bytes further on. -/
def Error.shift (distance : Nat) : Error → Error
  | .truncatedChunk offset declared available =>
    .truncatedChunk (offset + distance) declared available
  | .unexpectedChunkType offset expected actual =>
    .unexpectedChunkType (offset + distance) expected actual
  | .invalidChunkHeader offset headerSize size =>
    .invalidChunkHeader (offset + distance) headerSize size
  | .malformedChunk offset reason => .malformedChunk (offset + distance) reason
  | error => error

/-- Reads tell positions in the chunk, which stay as they are. -/
theorem mapError_shift_runAt {α : Type} (reading : Reading α) (data : ByteArray)
    (position distance : Nat) :
    (reading.runAt data position).mapError (Error.shift distance)
      = reading.runAt data position := by
  unfold Reading.runAt
  cases reading ⟨data, position⟩ <;> rfl

/-! ## Chunk headers -/

/-- A header is accepted when it is there and says sizes that fit each other and the bytes. -/
theorem ChunkHeader.read_eq_ok_iff {data : ByteArray} {position offset : Nat}
    {header : ChunkHeader} :
    ChunkHeader.read data position offset = .ok header ↔
      (Reading.record layout).runAt data position = .ok header ∧
        8 ≤ header.headerSize.toNat ∧ header.headerSize.toNat ≤ header.size.toNat ∧
        header.size.toNat ≤ data.size - position := by
  unfold ChunkHeader.read
  dsimp only
  simp only [throw_bind, guard_eq_ok_iff, bind_eq_ok_iff, pure_eq_ok_iff, not_or, Nat.not_lt]
  constructor
  · rintro ⟨-, found, hheader, ⟨hlong, hsize⟩, havailable, rfl⟩
    exact ⟨hheader, hlong, hsize, havailable⟩
  · rintro ⟨hheader, hlong, hsize, havailable⟩
    -- the first guard asks for no more than the sizes do
    have henough : 8 ≤ data.size - position := by omega
    exact ⟨henough, header, hheader, ⟨hlong, hsize⟩, havailable, rfl⟩

/-- The header is accepted at a position of some bytes, and `chunk` is what it cuts out there. -/
structure ChunkHeader.CutsOut (header : ChunkHeader) (data : ByteArray) (position offset : Nat)
    (chunk : ByteArray) : Prop where
  read_eq : ChunkHeader.read data position offset = .ok header
  chunk_eq : chunk = data.extract position (position + header.size.toNat)

namespace ChunkHeader.CutsOut

variable {header : ChunkHeader} {data chunk : ByteArray} {position offset : Nat}

/-- The chunk is as large as its header declares, since it does not reach past the end. -/
theorem size_eq (h : header.CutsOut data position offset chunk) :
    chunk.size = header.size.toNat := by
  obtain ⟨-, hlong, hfits, havailable⟩ := read_eq_ok_iff.mp h.read_eq
  rw [h.chunk_eq, ByteArray.size_extract]
  omega

theorem size_lt (h : header.CutsOut data position offset chunk) : chunk.size < UInt32.size := by
  rw [h.size_eq]
  exact header.size.toNat_lt

/-- The header does not reach past the chunk. -/
theorem headerSize_le (h : header.CutsOut data position offset chunk) :
    header.headerSize.toNat ≤ chunk.size := by
  obtain ⟨-, -, hfits, -⟩ := read_eq_ok_iff.mp h.read_eq
  rw [h.size_eq]
  exact hfits

/-- The chunk starts with the header that cuts it out. -/
theorem runAt_eq (h : header.CutsOut data position offset chunk) :
    (Reading.record layout).runAt chunk 0 = .ok header := by
  obtain ⟨hheader, hlong, hfits, havailable⟩ := read_eq_ok_iff.mp h.read_eq
  have hwidth := width_layout
  rw [h.chunk_eq, Reading.runAt_extract _ (by omega) (by omega)]
  exact hheader

theorem valueAt_eq (h : header.CutsOut data position offset chunk) :
    layout.valueAt chunk 0 = header :=
  (Reading.runAt_record_eq_ok_iff_valueAt.mp h.runAt_eq).2.symm

end ChunkHeader.CutsOut

/-! ## Tree nodes -/

namespace Chunk

/-- A tree node is read when both its records are there and its header is long enough. -/
theorem readNode_eq_ok_iff {α : Type} {record : Layout α} {chunk : ByteArray} {offset : Nat}
    {node : NodeHeader} {extension : α} :
    readNode record chunk offset = .ok (node, extension) ↔
      (Reading.record NodeHeader.layout).runAt chunk 0 = .ok node ∧
        16 ≤ node.chunk.headerSize.toNat ∧
        (Reading.record record).runAt chunk node.chunk.headerSize.toNat = .ok extension := by
  unfold readNode
  dsimp only
  simp only [throw_bind, guard_eq_ok_iff, bind_eq_ok_iff, pure_eq_ok_iff, Nat.not_lt, Prod.mk.injEq]
  constructor
  · rintro ⟨-, _, hnode, hlong, -, _, hextension, rfl, rfl⟩
    exact ⟨hnode, hlong, hextension⟩
  · rintro ⟨hnode, hlong, hextension⟩
    -- a record that is read lies within the chunk
    have hchunk : 0 + 16 ≤ chunk.size := ((Reading.runAt_record_eq_ok_iff _ _ _ _).mp hnode).1
    have hrecord := ((Reading.runAt_record_eq_ok_iff _ _ _ _).mp hextension).1
    have hshort : 16 ≤ chunk.size := by omega
    exact ⟨hshort, node, hnode, hlong, hrecord, extension, hextension, rfl, rfl⟩

/-- Behind the header that cuts it out, a tree node is read from two words and from the record that
stands where the header ends. -/
theorem readNode_eq_ok_iff_of_cutsOut {α : Type} {record : Layout α} {header : ChunkHeader}
    {data chunk : ByteArray} {position offset : Nat}
    (h : header.CutsOut data position offset chunk) {node : NodeHeader} {extension : α} :
    readNode record chunk offset = .ok (node, extension) ↔
      16 ≤ header.headerSize.toNat ∧ header.headerSize.toNat + record.width ≤ chunk.size ∧
        node = ⟨header, Layout.u32.valueAt chunk 8, Layout.u32.valueAt chunk 12⟩ ∧
        extension = record.valueAt chunk header.headerSize.toNat := by
  have hnode : 16 ≤ chunk.size → NodeHeader.layout.valueAt chunk 0
      = ⟨header, Layout.u32.valueAt chunk 8, Layout.u32.valueAt chunk 12⟩ := by
    intro hlong
    rw [NodeHeader.valueAt_layout (by omega), h.valueAt_eq]
  have hheader := h.headerSize_le
  have hwidth : 0 + NodeHeader.layout.width = 16 := rfl
  simp only [readNode_eq_ok_iff, Reading.runAt_record_eq_ok_iff_valueAt, hwidth]
  constructor
  · -- both ways the node is the header that cut the chunk out, with two words behind it
    rintro ⟨⟨hlong, rfl⟩, hsize, hrange, rfl⟩
    rw [hnode hlong] at hsize hrange ⊢
    exact ⟨hsize, hrange, rfl, rfl⟩
  · rintro ⟨hsize, hrange, rfl, rfl⟩
    have hlong : 16 ≤ chunk.size := by omega
    exact ⟨⟨hlong, (hnode hlong).symm⟩, hsize, hrange, rfl⟩

end Chunk

/-! ## Chunks at another place

Reading a chunk `distance` bytes further on gives the same chunk, or the same error at the place
shifted by that distance. The proofs follow the reads through their guards: a guard's error tells
the offset, and a record's error does not. -/

/-- No error of a pool tells an offset. -/
theorem StringPool.shift_of_append {pool : StringPool} {s : String} {error : Error}
    (h : pool.append s = .error error) (distance : Nat) : error.shift distance = error := by
  rcases error_of_append h with hsize | rfl
  · obtain ⟨length, rfl⟩ := StringEntry.eq_stringTooLong_of_size_eq_error hsize
    rfl
  · rfl

/-- Nor does any error of its entries. -/
theorem StringPool.mapError_shift_appendEntriesAt (distance : Nat) (data : ByteArray)
    (offsets : List UInt32) (pool : StringPool) :
    (appendEntriesAt data offsets pool).mapError (Error.shift distance)
      = appendEntriesAt data offsets pool := by
  induction offsets generalizing pool with
  | nil => rfl
  | cons offset rest ih =>
    simp only [appendEntriesAt]
    cases StringEntry.decode pool.encoding data offset.toNat with
    | none => rfl
    | some s =>
      -- an error of the pool is one that has no offset
      cases happend : pool.append s with
      | ok result => simpa only [happend] using ih result.2
      | error error =>
        simp only [happend]
        show Except.error (error.shift distance) = .error error
        rw [shift_of_append happend]

/-- A string pool reads the same wherever its chunk stands. -/
theorem StringPool.decode_add (chunk : ByteArray) (offset distance : Nat) :
    decode chunk (offset + distance) = (decode chunk offset).mapError (Error.shift distance) := by
  unfold decode
  dsimp only
  simp only [throw_bind, mapError_bind, mapError_guard, mapError_shift_runAt]
  congr 1
  funext header
  congr 2
  funext offsets
  -- a pool without strings is read without a look at its string data
  by_cases hcount : header.stringCount.toNat = 0
  · rw [if_pos hcount, if_pos hcount]
    rfl
  rw [if_neg hcount, if_neg hcount]
  by_cases hrange : stringsEnd header chunk.size < header.stringsStart.toNat
      ∨ chunk.size < stringsEnd header chunk.size
  · rw [if_pos hrange, if_pos hrange]
    rfl
  · rw [if_neg hrange, if_neg hrange, mapError_shift_appendEntriesAt]

namespace Chunk

/-- So does a tree node, on which the four lemmas behind it rest. -/
theorem readNode_add {α : Type} (record : Layout α) (chunk : ByteArray) (offset distance : Nat) :
    readNode record chunk (offset + distance)
      = (readNode record chunk offset).mapError (Error.shift distance) := by
  unfold readNode
  dsimp only
  simp only [throw_bind, mapError_guard, mapError_bind, mapError_shift_runAt]
  rfl

theorem readNamespace_add (chunk : ByteArray) (offset distance : Nat) :
    readNamespace chunk (offset + distance)
      = (readNamespace chunk offset).mapError (Error.shift distance) := by
  rw [readNamespace, readNamespace, readNode_add, mapError_bind]
  rfl

theorem readEndTag_add (chunk : ByteArray) (offset distance : Nat) :
    readEndTag chunk (offset + distance)
      = (readEndTag chunk offset).mapError (Error.shift distance) := by
  rw [readEndTag, readEndTag, readNode_add, mapError_bind]
  rfl

theorem readCharacterData_add (chunk : ByteArray) (offset distance : Nat) :
    readCharacterData chunk (offset + distance)
      = (readCharacterData chunk offset).mapError (Error.shift distance) := by
  rw [readCharacterData, readCharacterData, readNode_add, mapError_bind]
  rfl

theorem readAttributesOnto_add (chunk : ByteArray) (offset distance stride : Nat)
    (done : List Attribute) (position count : Nat) :
    readAttributesOnto chunk (offset + distance) stride done position count
      = (readAttributesOnto chunk offset stride done position count).mapError
        (Error.shift distance) := by
  induction count generalizing done position with
  | zero => rfl
  | succ count ih =>
    simp only [readAttributesOnto]
    cases (Reading.record AttributeRecord.layout).runAt chunk position with
    | error error => rfl
    | ok record => exact ih _ _

theorem readStartTag_add (chunk : ByteArray) (offset distance : Nat) :
    readStartTag chunk (offset + distance)
      = (readStartTag chunk offset).mapError (Error.shift distance) := by
  rw [readStartTag, readStartTag, readNode_add, mapError_bind]
  dsimp only
  simp only [throw_bind, mapError_guard, mapError_bind, readAttributesOnto_add]
  rfl

/-- **A chunk reads the same wherever it stands**, but for the place that its errors tell. -/
theorem decode_add (header : ChunkHeader) (chunk : ByteArray) (offset distance : Nat) :
    decode header chunk (offset + distance)
      = (decode header chunk offset).mapError (Error.shift distance) := by
  unfold decode
  simp only [apply_ite (Except.mapError (Error.shift distance)), mapError_map,
    StringPool.decode_add, readNamespace_add, readStartTag_add, readEndTag_add,
    readCharacterData_add]
  rfl

/-- Whether a chunk is read does not depend on where it stands. -/
theorem decode_eq_ok_iff_zero {header : ChunkHeader} {piece : ByteArray} {offset : Nat}
    {chunk : Chunk} :
    decode header piece offset = .ok chunk ↔ decode header piece 0 = .ok chunk := by
  have hshift := decode_add header piece 0 offset
  rw [Nat.zero_add] at hshift
  rw [hshift, mapError_eq_ok_iff]

end Chunk

end BinaryXml
