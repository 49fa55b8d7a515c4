import BinaryXml.Proofs.File.Failing
import BinaryXml.Proofs.File.RoundTrip
import Mathlib.Algebra.GroupWithZero.Nat

/-!
# Declared sizes

The sizes of chunks are known before a byte of them is written. Here they are held against the bytes
that are written then, the size of a chunk and the one in its header (`Chunk.sizedAs_of_encoded`),
and those of a whole document (`ChunkFile.sizedAs_of_toBytes`). The strings that the chunks refer to
do not matter, only the pools have to be well-formed. What a size comes to in numbers is its
`extent`, and it is declared when that fits into 32 bits (`ChunkFile.size_eq_ok_iff`).
-/

namespace BinaryXml

/-! ## What the first eight bytes declare -/

/-- The bytes start with a type, and with their own number in the second four bytes. -/
structure Declares (data : ByteArray) (kind : UInt16) : Prop where
  read_kind : (Reading.record .u16).runAt data 0 = .ok kind
  read_size : ∃ word, (Reading.record .u32).runAt data 4 = .ok word ∧ word.toNat = data.size

/-- A common header declares its kind in the first two bytes and its size in the last four. -/
theorem declares_of_header (header : ChunkHeader) {rest : ByteArray}
    (h : header.size.toNat = ((ChunkHeader.layout.encode header).toByteArray ++ rest).size) :
    Declares ((ChunkHeader.layout.encode header).toByteArray ++ rest) header.kind := by
  have hfields : (ChunkHeader.layout.encode header).toByteArray
      = (Layout.u16.encode header.kind).toByteArray
        ++ ((Layout.u16.encode header.headerSize).toByteArray
          ++ (Layout.u32.encode header.size).toByteArray) := by
    rw [← List.toByteArray_append, ← List.toByteArray_append]
    rfl
  refine ⟨?_, header.size, ?_, h⟩
  · -- the bytes are cut behind the first word, and then in front of the last
    rw [hfields, ByteArray.append_assoc]
    exact (Reading.takes_record .u16 header.kind).runAt_zero _
  · rw [hfields, ← ByteArray.append_assoc (a := (Layout.u16.encode header.kind).toByteArray)]
    exact (Reading.takes_record .u32 header.size).runAt _ rest

/-! ## Chunks -/

/-- The bytes end with the entries of a pool, filled up with zeros to a multiple of four. -/
structure StringPool.PaddedIn (pool : StringPool) (piece : ByteArray) : Prop where
  size_entriesBytes : (entriesBytes pool.encoding pool.strings.toList).size = pool.dataSize
  exists_zeros : ∃ front count,
    piece = front ++ entriesBytes pool.encoding pool.strings.toList
      ++ (List.replicate count 0).toByteArray ∧
    front.size = headerSize + 4 * pool.size ∧ count < 4 ∧ 4 ∣ pool.dataSize + count

/-- In the bytes of a pool the entries stand behind the table, and the zeros behind them. -/
theorem StringPool.paddedIn_chunkBytes {pool : StringPool} (hpool : pool.WellFormed)
    (total : Nat) : pool.PaddedIn (pool.chunkBytes total) where
  size_entriesBytes := by
    rw [StringPool.size_entriesBytes, hpool.dataSize_eq]
  exists_zeros := by
    refine ⟨(PoolHeader.layout.encode (pool.header total)).toByteArray
      ++ tableBytes (pool.offsets.toList.map UInt32.ofNat),
      (pool.dataSize + 3) / 4 * 4 - pool.dataSize, ?_, ?_, ?_, ?_⟩
    · rw [chunkBytes, padding, ByteArray.append_assoc, ByteArray.append_assoc]
    · rw [ByteArray.size_append, List.size_toByteArray, PoolHeader.layout.length_encode,
        size_tableBytes, List.length_map, length_offsets hpool]
      rfl
    · omega
    · omega

namespace Chunk

/-- The bytes are what a chunk is written as, and as many as it declares. -/
structure SizedAs (chunk : Chunk) (piece : ByteArray) : Prop where
  write_eq : chunk.write.toBytes = .ok piece
  size_eq : chunk.size = .ok piece.size
  declares : Declares piece chunk.kind
  paddedIn : ∀ pool, chunk = .stringPool pool → pool.PaddedIn piece

/-- **A chunk is as long as its size says**, and says so itself. -/
theorem sizedAs_of_encoded {chunk : Chunk} {piece : ByteArray} (hchunk : chunk.WellFormed)
    (h : chunk.encoded = .ok piece) : chunk.SizedAs piece := by
  obtain ⟨total, htotal, -, rfl⟩ := encoded_eq_ok_iff.mp h
  obtain ⟨hfits, hbytes⟩ := size_bytes hchunk htotal
  obtain ⟨rest, hrest⟩ := exists_bytes_eq_header_append chunk total
  refine ⟨(write_toBytes_eq_encoded chunk).trans h, by rw [hbytes, htotal], ?_, ?_⟩
  · rw [hrest]
    refine declares_of_header (chunk.header total) ?_
    rw [← hrest, hbytes]
    exact UInt32.toNat_ofNat_of_lt' hfits
  · rintro pool rfl
    exact StringPool.paddedIn_chunkBytes hchunk total

end Chunk

/-! ## Documents -/

namespace ChunkFile

/-- The start tags of a document are its chunks of that kind. -/
theorem mem_startTags_iff {file : ChunkFile} {tag : StartTag} :
    tag ∈ file.startTags ↔ .startTag tag ∈ file.chunks := by
  rw [startTags, List.mem_filterMap]
  constructor
  · rintro ⟨chunk, hchunk, htag⟩
    cases chunk <;> cases htag
    exact hchunk
  · intro h
    exact ⟨_, h, rfl⟩

/-- **When a document is written**: its size fits, and every start tag can count its attributes. -/
theorem exists_toBytes_iff {file : ChunkFile} :
    (∃ data, file.toBytes = .ok data) ↔
      (∃ total, file.size = .ok total) ∧
        ∀ tag ∈ file.startTags, tag.attributes.length ≤ Chunk.greatestAttributeCount := by
  constructor
  · rintro ⟨data, hdata⟩
    obtain ⟨total, pieces, htotal, hpieces, -⟩ := toBytes_eq_ok_iff.mp hdata
    refine ⟨⟨total, htotal⟩, fun tag htag => ?_⟩
    obtain ⟨piece, -, hpiece⟩ :=
      exists_mem_right_of_forall₂ hpieces _ (mem_startTags_iff.mp htag)
    obtain ⟨_, -, hcount, -⟩ := Chunk.encoded_eq_ok_iff.mp hpiece
    exact hcount
  · rintro ⟨⟨total, htotal⟩, hcounts⟩
    have hcounts' : ∀ chunk ∈ file.chunks, chunk.attributeCount ≤ Chunk.greatestAttributeCount := by
      -- chunks of other kinds have no attributes to count
      intro chunk hchunk
      cases chunk with
      | startTag tag => exact hcounts tag (mem_startTags_iff.mpr hchunk)
      | _ => exact Nat.zero_le _
    rcases toBytes_eq_ok_or_chunkTooLarge hcounts' with ⟨_, data, -, hdata⟩ | ⟨herror, -⟩
    · exact ⟨data, hdata⟩
    · rw [htotal] at herror
      cases herror

/-- The bytes are as many as a document declares, and those of its chunks as many as they declare.
-/
structure SizedAs (file : ChunkFile) (data : ByteArray) : Prop where
  size_eq : file.size = .ok data.size
  declares : Declares data ChunkType.document
  /-- Behind the header of eight bytes are the chunks one after the other. -/
  exists_pieces : ∃ pieces, List.Forall₂ Chunk.SizedAs file.chunks pieces ∧
    data.extract 8 data.size = joined pieces

/-- **A document is as long as its size says**, and so is each of its chunks. -/
theorem sizedAs_of_toBytes {file : ChunkFile} {data : ByteArray}
    (hchunks : ∀ chunk ∈ file.chunks, chunk.WellFormed) (h : file.toBytes = .ok data) :
    file.SizedAs data := by
  obtain ⟨total, pieces, htotal, hpieces, rfl⟩ := toBytes_eq_ok_iff.mp h
  obtain ⟨hfits, hsum⟩ := size_eq_of_encoded hchunks htotal hpieces
  have hfront : (ChunkHeader.layout.encode (header total)).toByteArray.size = 8 := by
    rw [List.size_toByteArray, ChunkHeader.layout.length_encode]
    rfl
  have hsize : ((ChunkHeader.layout.encode (header total)).toByteArray ++ joined pieces).size
      = total := by
    rw [ByteArray.size_append, hfront, hsum]
  refine ⟨by rw [hsize, htotal], ?_, pieces, ?_, ?_⟩
  · refine declares_of_header (header total) ?_
    rw [hsize]
    exact UInt32.toNat_ofNat_of_lt' hfits
  · -- each chunk is as long as it declares, and behind the header there is nothing but chunks
    have hboth := (List.forall₂_and_left _ _).mpr ⟨hchunks, hpieces⟩
    exact hboth.imp fun _ _ ⟨hchunk, hpiece⟩ => Chunk.sizedAs_of_encoded hchunk hpiece
  · exact ByteArray.extract_append_eq_right hfront.symm (by rw [ByteArray.size_append])

/-- **Declared sizes are exact.** A document with well-formed pools is written when its size fits
and its start tags can count their attributes, and then all that is said of sizes holds of the
bytes. -/
theorem toBytes_sized {file : ChunkFile}
    (hpools : ∀ pool, .stringPool pool ∈ file.chunks → pool.WellFormed) :
    ((∃ data, file.toBytes = .ok data) ↔
      (∃ total, file.size = .ok total) ∧
        ∀ tag ∈ file.startTags, tag.attributes.length ≤ Chunk.greatestAttributeCount) ∧
    ∀ data, file.toBytes = .ok data → file.SizedAs data := by
  have hchunks : ∀ chunk ∈ file.chunks, chunk.WellFormed := by
    intro chunk hchunk
    cases chunk with
    | stringPool pool => exact hpools pool hchunk
    | _ => trivial
  exact ⟨exists_toBytes_iff, fun data => sizedAs_of_toBytes hchunks⟩

/-- A document with two pools has a size, and its start tag can count its one attribute. -/
theorem toBytes_sized_twoPools :
    ∃ data, twoPools.toBytes = .ok data ∧ twoPools.SizedAs data := by
  have hpools : ∀ pool, .stringPool pool ∈ twoPools.chunks → pool.WellFormed := by
    intro pool hpool
    exact (representable_of_mem_twoPools _ hpool).wellFormed
  obtain ⟨hiff, hsized⟩ := toBytes_sized hpools
  obtain ⟨data, hdata⟩ := hiff.mpr ⟨⟨_, rfl⟩, by decide⟩
  exact ⟨data, hdata, hsized data hdata⟩

end ChunkFile

/-! ## Sizes in closed form -/

namespace Chunk

/-- The size that a chunk comes to when nothing limits it. -/
def extent : Chunk → Nat
  | stringPool pool => StringPool.headerSize + 4 * pool.size + (pool.dataSize + 3) / 4 * 4
  | resourceMap ids => 8 + 4 * ids.length
  | startNamespace _ | endNamespace _ | endTag _ => 24
  | startTag tag => 36 + 20 * tag.attributes.length
  | characterData _ => 28
  | other chunk => 8 + chunk.body.size

/-- A chunk has a size when what it comes to fits into 32 bits. -/
theorem size_eq_ok_iff {chunk : Chunk} {total : Nat} :
    chunk.size = .ok total ↔ chunk.extent < UInt32.size ∧ total = chunk.extent := by
  cases chunk with
  | stringPool pool =>
    rw [size, StringPool.chunkSize_eq_ok_iff, extent]
    constructor
    · rintro ⟨-, hfits, rfl⟩
      exact ⟨hfits, rfl⟩
    · rintro ⟨hfits, rfl⟩
      -- with the header in front there is room for the padding
      have hheader : StringPool.headerSize = 28 := rfl
      exact ⟨by omega, hfits, rfl⟩
  | resourceMap ids | startTag tag | other rest => exact checkedSize_eq_ok_iff
  | startNamespace scope | endNamespace scope | endTag tag | characterData data =>
    rw [size, extent, Except.ok.injEq, eq_comm]
    exact (and_iff_right (by decide)).symm

end Chunk

namespace ChunkFile

/-- The size that a document comes to when nothing limits it. -/
def extent (file : ChunkFile) : Nat :=
  8 + (file.chunks.map Chunk.extent).sum

/-- The sum fits at every step when it fits at the end. -/
theorem addSizes_eq_ok_iff {chunks : List Chunk} {start total : Nat}
    (hstart : start < UInt32.size) :
    addSizes chunks start = .ok total ↔
      start + (chunks.map Chunk.extent).sum < UInt32.size ∧
        total = start + (chunks.map Chunk.extent).sum := by
  induction chunks generalizing start with
  | nil =>
    rw [addSizes, Except.ok.injEq, eq_comm]
    exact (and_iff_right hstart).symm
  | cons chunk rest ih =>
    rw [addSizes, List.map_cons, List.sum_cons, ← Nat.add_assoc]
    cases hsize : chunk.size with
    | error error =>
      constructor
      · intro h
        cases h
      · rintro ⟨hfits, rfl⟩
        -- a chunk without a size is too large by itself
        have hchunk := Chunk.size_eq_ok_iff.mpr ⟨by omega, Eq.refl chunk.extent⟩
        rw [hsize] at hchunk
        cases hchunk
    | ok size =>
      obtain ⟨-, rfl⟩ := Chunk.size_eq_ok_iff.mp hsize
      dsimp only
      split
      · rename_i hfits
        exact ih hfits
      · constructor
        · intro h
          cases h
        · rintro ⟨hfits, rfl⟩
          omega

/-- A document has a size exactly when what it comes to fits into 32 bits. -/
theorem size_eq_ok_iff {file : ChunkFile} {total : Nat} :
    file.size = .ok total ↔ file.extent < UInt32.size ∧ total = file.extent :=
  addSizes_eq_ok_iff (by decide)

end ChunkFile

end BinaryXml
