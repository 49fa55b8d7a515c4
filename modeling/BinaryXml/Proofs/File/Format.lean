import BinaryXml.Proofs.Chunk.Run

/-!
# Documents and their bytes

A document is written as its header and the pieces of its chunks (`toBytes_eq_ok_iff`) and read from
a header and pieces that spell its chunks (`parse_eq_ok_iff`). `CutsInto data pieces` says which
pieces those are, from the sizes that stand in them alone.
-/

namespace BinaryXml

namespace ChunkFile

/-! ## Writing -/

/-- The header of a document of `total` bytes. -/
def header (total : Nat) : ChunkHeader :=
  ⟨ChunkType.document, 8, UInt32.ofNat total⟩

/-- Chunks are written without a failure when each of them is. -/
theorem inTurn_encoded_eq_iff {chunks : List Chunk} {data : ByteArray} :
    (Written.inTurn (chunks.map fun chunk => .ofExcept chunk.encoded)).failure = none ∧
        (Written.inTurn (chunks.map fun chunk => .ofExcept chunk.encoded)).stored = data ↔
      ∃ pieces, List.Forall₂ (fun chunk piece => chunk.encoded = .ok piece) chunks pieces ∧
        data = joined pieces := by
  induction chunks generalizing data with
  | nil =>
    constructor
    · rintro ⟨-, rfl⟩
      exact ⟨[], .nil, rfl⟩
    · rintro ⟨pieces, hpieces, rfl⟩
      cases hpieces
      exact ⟨rfl, rfl⟩
  | cons chunk rest ih =>
    rw [List.map_cons, Written.inTurn]
    constructor
    · intro h
      -- a chunk that fails is the end of the write
      cases hchunk : chunk.encoded with
      | error error =>
        rw [hchunk] at h
        cases h.1
      | ok piece =>
        rw [hchunk, Written.andThen_of_failure_eq_none _ rfl] at h
        obtain ⟨hnone, rfl⟩ := h
        obtain ⟨pieces, hpieces, hrest⟩ := ih.mp ⟨hnone, rfl⟩
        refine ⟨piece :: pieces, .cons hchunk hpieces, ?_⟩
        rw [joined_cons, ← hrest]
        rfl
    · rintro ⟨pieces, hpieces, rfl⟩
      cases hpieces with
      | @cons _ piece _ pieces hchunk hpieces =>
      obtain ⟨hnone, hstored⟩ := ih.mpr ⟨pieces, hpieces, rfl⟩
      rw [hchunk, Written.andThen_of_failure_eq_none _ rfl, joined_cons, hstored]
      exact ⟨hnone, rfl⟩

/-- A document that has a size is its header and then the outcomes of its chunks in turn. -/
theorem write_of_size_eq_ok {file : ChunkFile} {total : Nat} (htotal : file.size = .ok total) :
    file.write = Writing.replay .outOfRoom
      ((⟨(ChunkHeader.layout.encode (header total)).toByteArray, none⟩ : Written).andThen
        (.inTurn (file.chunks.map fun chunk => .ofExcept chunk.encoded))) := by
  rw [← Writing.replay_bind_replay, ← Writing.each_eq_replay .outOfRoom
    fun chunk _ => chunk.write_eq_replay, ← Writing.put_eq_replay, write, htotal]
  rfl

theorem write_of_size_eq_error {file : ChunkFile} {error : Error} (h : file.size = .error error) :
    file.write = Writing.replay .outOfRoom ⟨.empty, some error⟩ := by
  rw [← Writing.throw_eq_replay, write, h]
  rfl

/-- **A document is written as its header and the pieces of its chunks.** -/
theorem toBytes_eq_ok_iff {file : ChunkFile} {data : ByteArray} :
    file.toBytes = .ok data ↔
      ∃ total pieces, file.size = .ok total ∧
        List.Forall₂ (fun chunk piece => chunk.encoded = .ok piece) file.chunks pieces ∧
        data = (ChunkHeader.layout.encode (header total)).toByteArray ++ joined pieces := by
  constructor
  · intro h
    -- without a size there are no bytes, not even those of a header
    cases htotal : file.size with
    | error error =>
      rw [toBytes, write_of_size_eq_error htotal] at h
      cases h
    | ok total =>
      rw [toBytes, write_of_size_eq_ok htotal, Writing.toBytes_replay_eq_ok_iff,
        Written.andThen_of_failure_eq_none _ rfl] at h
      obtain ⟨hnone, rfl⟩ := h
      obtain ⟨pieces, hpieces, hstored⟩ := inTurn_encoded_eq_iff.mp ⟨hnone, rfl⟩
      refine ⟨total, pieces, rfl, hpieces, ?_⟩
      rw [← hstored]
  · rintro ⟨total, pieces, htotal, hpieces, rfl⟩
    obtain ⟨hnone, hstored⟩ := inTurn_encoded_eq_iff.mpr ⟨pieces, hpieces, rfl⟩
    rw [toBytes, write_of_size_eq_ok htotal, Writing.toBytes_replay_eq_ok_iff,
      Written.andThen_of_failure_eq_none _ rfl, hstored]
    exact ⟨hnone, rfl⟩

/-! ## The size in the header -/

/-- Sizes that add up from `start` reach the end of the pieces, and stay within 32 bits. -/
theorem addSizes_of_encoded {chunks : List Chunk} {pieces : List ByteArray} {start sum : Nat}
    (hchunks : ∀ chunk ∈ chunks, chunk.WellFormed)
    (hpieces : List.Forall₂ (fun chunk piece => chunk.encoded = .ok piece) chunks pieces)
    (hstart : start < UInt32.size) (h : addSizes chunks start = .ok sum) :
    sum < UInt32.size ∧ sum = start + (joined pieces).size := by
  induction hpieces generalizing start with
  | nil =>
    cases h
    exact ⟨hstart, rfl⟩
  | @cons chunk piece chunks pieces hchunk _ ih =>
    obtain ⟨size, hsize, -, rfl⟩ := Chunk.encoded_eq_ok_iff.mp hchunk
    have hbytes := (Chunk.size_bytes (hchunks chunk List.mem_cons_self) hsize).2
    rw [addSizes, hsize] at h
    dsimp only at h
    split at h
    · -- the sum is held against the bound at each chunk, so it never passes it
      rename_i hfits
      have hrest := ih (fun c hc => hchunks c (List.mem_cons_of_mem _ hc)) hfits h
      rw [joined_cons, ByteArray.size_append, hbytes, ← Nat.add_assoc]
      exact hrest
    · cases h

/-- A document of well-formed chunks is as long as its header says. -/
theorem size_eq_of_encoded {file : ChunkFile} {total : Nat} {pieces : List ByteArray}
    (hchunks : ∀ chunk ∈ file.chunks, chunk.WellFormed) (htotal : file.size = .ok total)
    (hpieces : List.Forall₂ (fun chunk piece => chunk.encoded = .ok piece) file.chunks pieces) :
    total < UInt32.size ∧ total = 8 + (joined pieces).size :=
  addSizes_of_encoded hchunks hpieces (by decide) htotal

/-! ## Validation -/

/-- Chunks are valid when each index in them is that of one of the `count` strings. -/
theorem validateChunks_eq_ok_iff {count : Nat} {chunks : List Chunk} :
    validateChunks count chunks = .ok () ↔
      ∀ chunk ∈ chunks, ∀ index ∈ chunk.stringRefs, index.toNat < count := by
  induction chunks with
  | nil => simp [validateChunks]
  | cons chunk rest ih =>
    rw [List.forall_mem_cons, ← ih, validateChunks]
    cases hfind : chunk.stringRefs.find? fun index => count ≤ index.toNat with
    | some index =>
      -- an index that is too large ends the check
      have hlarge := List.find?_some hfind
      have hmem := List.mem_of_find?_eq_some hfind
      rw [decide_eq_true_eq] at hlarge
      constructor
      · intro h
        cases h
      · rintro ⟨hsmall, -⟩
        exact absurd (hsmall index hmem) (Nat.not_lt.mpr hlarge)
    | none =>
      have hsmall : ∀ index ∈ chunk.stringRefs, index.toNat < count := by
        intro index hmem
        have hnone := List.find?_eq_none.mp hfind index hmem
        rw [decide_eq_true_eq] at hnone
        exact Nat.not_le.mp hnone
      exact ⟨fun h => ⟨hsmall, h⟩, fun h => h.2⟩

/-- The number of strings fits into 32 bits, so the word for no string is not an index. -/
theorem stringCount_lt {file : ChunkFile} (hchunks : ∀ chunk ∈ file.chunks, chunk.Representable) :
    file.stringCount < UInt32.size := by
  unfold stringCount
  cases hpool : file.stringPool? with
  | none => exact show 0 < UInt32.size by decide
  | some pool =>
    obtain ⟨chunk, hmem, hchunk⟩ := List.exists_of_findSome?_eq_some hpool
    cases chunk with
    | stringPool found =>
      cases hchunk
      exact (StringPool.Built.wellFormed (hchunks _ hmem)).size_lt
    | _ => cases hchunk

/-- In a valid document no index is the word that stands for no string: no pool is large enough for
it. -/
theorem not_mem_optionalIndices_of_validate {file : ChunkFile}
    (hchunks : ∀ chunk ∈ file.chunks, chunk.Representable) (hvalid : file.validate = .ok ()) :
    ∀ chunk ∈ file.chunks, some noIndex ∉ chunk.optionalIndices := by
  intro chunk hmem hindex
  have hlt := validateChunks_eq_ok_iff.mp hvalid chunk hmem noIndex
    (Chunk.mem_stringRefs_of_mem_optionalIndices hindex)
  have hcount := stringCount_lt hchunks
  -- the greatest word there is
  have hword : noIndex.toNat = UInt32.size - 1 := rfl
  omega

/-! ## Reading -/

/-- The bytes hold a document: behind a document's header stand pieces that spell its chunks. -/
def SpelledBy (file : ChunkFile) (data : ByteArray) (pieces : List ByteArray) : Prop :=
  ∃ header, ChunkHeader.read data 0 0 = .ok header ∧ header.kind = ChunkType.document ∧
    data.extract header.headerSize.toNat header.size.toNat = joined pieces ∧
    List.Forall₂ Chunk.Spells file.chunks pieces

/-- A reader of a document is made from an accepted header of the document's type, and its run is
what that header cuts out. -/
theorem ofDocument_eq_ok_iff {data : ByteArray} {reader : ChunkReader} :
    ChunkReader.ofDocument data = .ok reader ↔
      ∃ header, ChunkHeader.read data 0 0 = .ok header ∧ header.kind = ChunkType.document ∧
        reader = { window := data.extract header.headerSize.toNat header.size.toNat,
                   base := header.headerSize.toNat } := by
  unfold ChunkReader.ofDocument
  dsimp only
  simp only [throw_bind, bind_eq_ok_iff, guard_eq_ok_iff, pure_eq_ok_iff, ne_eq, not_not]

/-- **What some bytes parse as.** A document is read from the bytes that hold it, provided that all
its indices refer to strings. -/
theorem parse_eq_ok_iff {data : ByteArray} {file : ChunkFile} :
    parse data = .ok file ↔ (∃ pieces, file.SpelledBy data pieces) ∧ file.validate = .ok () := by
  unfold parse
  dsimp only
  simp only [bind_eq_ok_iff, pure_eq_ok_iff]
  constructor
  · rintro ⟨reader, hreader, chunks, hchunks, ⟨⟩, hvalid, rfl⟩
    obtain ⟨header, hheader, hkind, rfl⟩ := ofDocument_eq_ok_iff.mp hreader
    obtain ⟨pieces, hpieces, hspells⟩ := (ChunkReader.chunks_eq_ok_iff rfl).mp hchunks
    rw [ChunkReader.ahead, ByteArray.extract_zero_size] at hpieces
    exact ⟨⟨pieces, header, hheader, hkind, hpieces, hspells⟩, hvalid⟩
  · rintro ⟨⟨pieces, header, hheader, hkind, hpieces, hspells⟩, hvalid⟩
    refine ⟨_, ofDocument_eq_ok_iff.mpr ⟨header, hheader, hkind, rfl⟩, file.chunks,
      (ChunkReader.chunks_eq_ok_iff rfl).mpr ⟨pieces, ?_, hspells⟩, (), hvalid, rfl⟩
    rw [ChunkReader.ahead, ByteArray.extract_zero_size]
    exact hpieces

end ChunkFile

end BinaryXml
