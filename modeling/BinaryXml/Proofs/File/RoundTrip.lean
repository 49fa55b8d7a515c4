import BinaryXml.Proofs.File.Format

/-!
# Documents, there and back

A document of representable chunks is read back from its bytes as it was (`parse_toBytes`). A
document that was read from any bytes at all is of that kind, so writing it again gives a normal
form of these bytes: it reads the same, it is written the same, and it has the same chunks of types
that are not interpreted (`normalForm_of_parse`).
-/

namespace BinaryXml

/-! ## Pieces of a document -/

namespace Chunk

/-- By the size that stands in its header, the piece is one whole chunk. -/
def Whole (piece : ByteArray) : Prop :=
  8 ≤ piece.size ∧ (headerOf piece).size.toNat = piece.size

/-- The piece has the tag of a chunk that is not interpreted. -/
def uninterpreted (piece : ByteArray) : Bool :=
  (headerOf piece).kind ∉ ChunkType.interpreted

/-- What stands behind a piece does not change its header. -/
theorem headerOf_append {piece : ByteArray} (hlong : 8 ≤ piece.size) (tail : ByteArray) :
    headerOf (piece ++ tail) = headerOf piece := by
  have hwidth : ChunkHeader.layout.width = 8 := rfl
  have hlength : piece.data.toList.length = piece.size := by
    rw [Array.length_toList, ByteArray.size_data]
  -- only the first eight bytes are looked at
  have hcut : ∀ rest : List UInt8, ChunkHeader.layout.decode (piece.data.toList ++ rest)
      = ChunkHeader.layout.decode (piece.data.toList.take 8) := by
    intro rest
    rw [← List.take_append_drop 8 piece.data.toList, List.append_assoc,
      ChunkHeader.exact_layout.decode_append, List.take_append_drop]
    rw [List.length_take, hwidth]
    omega
  have hnone := hcut []
  rw [List.append_nil] at hnone
  rw [headerOf, headerOf, ByteArray.data_append, Array.toList_append, hcut, hnone]

/-- Whole chunks that start some bytes are the same chunk. -/
theorem Whole.eq_of_append_eq_append {piece other rest tail : ByteArray} (hpiece : Whole piece)
    (hother : Whole other) (h : piece ++ rest = other ++ tail) : piece = other ∧ rest = tail := by
  have hheader : headerOf piece = headerOf other := by
    rw [← headerOf_append hpiece.1 rest, h, headerOf_append hother.1 tail]
  have hsize : piece.size = other.size := by
    rw [← hpiece.2, ← hother.2, hheader]
  exact (ByteArray.append_eq_append_iff_of_size_eq_left hsize).mp h

/-- Bytes are cut into whole chunks in one way at most. -/
theorem eq_of_joined_eq_joined {pieces others : List ByteArray} (hpieces : ∀ p ∈ pieces, Whole p)
    (hothers : ∀ p ∈ others, Whole p) (h : joined pieces = joined others) : pieces = others := by
  have hempty : ∀ {piece rest : ByteArray}, Whole piece → ¬ piece ++ rest = .empty := by
    intro piece rest hpiece hempty
    have hlong := hpiece.1
    rw [(ByteArray.append_eq_empty_iff.mp hempty).1] at hlong
    exact absurd hlong (by decide)
  -- the first pieces are the same, and so is what follows them
  induction pieces generalizing others with
  | nil =>
    cases others with
    | nil => rfl
    | cons other tail => exact absurd h.symm (hempty (hothers _ List.mem_cons_self))
  | cons piece rest ih =>
    cases others with
    | nil => exact absurd h (hempty (hpieces _ List.mem_cons_self))
    | cons other tail =>
      obtain ⟨rfl, hrest⟩ := Whole.eq_of_append_eq_append (hpieces _ List.mem_cons_self)
        (hothers _ List.mem_cons_self) h
      rw [ih (fun p hp => hpieces p (List.mem_cons_of_mem _ hp))
        (fun p hp => hothers p (List.mem_cons_of_mem _ hp)) hrest]

theorem Spells.whole {chunk : Chunk} {piece : ByteArray} (h : chunk.Spells piece) : Whole piece :=
  ⟨h.eight_le_size, (headerOf_of_spells h).2⟩

theorem whole_of_forall₂_spells {chunks : List Chunk} {pieces : List ByteArray}
    (h : List.Forall₂ Spells chunks pieces) : ∀ piece ∈ pieces, Whole piece := by
  induction h with
  | nil => exact List.forall_mem_nil _
  | cons hpiece _ ih => exact List.forall_mem_cons.mpr ⟨hpiece.whole, ih⟩

/-- All the bytes of a chunk that is not interpreted are those that the chunk keeps. -/
theorem eq_of_spells_other {rest : OtherChunk} {piece other : ByteArray}
    (hpiece : Spells (.other rest) piece) (hother : Spells (.other rest) other) :
    piece = other := by
  have hsize : ∀ total, ((Chunk.other rest).bytes total).size = 8 + rest.body.size := by
    intro total
    rw [bytes, ByteArray.size_append, List.size_toByteArray, ChunkHeader.layout.length_encode]
    rfl
  have hpiece := eq_bytes_of_spells_other hpiece
  have hother := eq_bytes_of_spells_other hother
  have hlength := (congrArg ByteArray.size hpiece).trans (hsize _)
  have hlength' := (congrArg ByteArray.size hother).trans (hsize _)
  rw [hpiece, hother, hlength, hlength']

/-- Pieces that spell the same chunks agree in all the bytes that are not interpreted. -/
theorem filter_uninterpreted_eq {chunks : List Chunk} {pieces others : List ByteArray}
    (hpieces : List.Forall₂ Spells chunks pieces) (hothers : List.Forall₂ Spells chunks others) :
    others.filter uninterpreted = pieces.filter uninterpreted := by
  induction hpieces generalizing others with
  | nil =>
    cases hothers
    rfl
  | @cons chunk piece chunks pieces hpiece _ ih =>
    cases hothers with
    | @cons _ other _ others hother hothers =>
    have hkind : uninterpreted other = uninterpreted piece := by
      rw [uninterpreted, uninterpreted, (headerOf_of_spells hpiece).1,
        (headerOf_of_spells hother).1]
    rw [List.filter_cons, List.filter_cons, ih hothers, hkind]
    by_cases hkeep : uninterpreted piece = true
    · rw [if_pos hkeep, if_pos hkeep]
      -- every other chunk has one of the tags that are interpreted
      cases chunk with
      | other rest => rw [eq_of_spells_other hother hpiece]
      | _ =>
        rw [uninterpreted, (headerOf_of_spells hpiece).1] at hkeep
        exact absurd hkeep (by simp [kind, ChunkType.interpreted])
    · rw [if_neg hkeep, if_neg hkeep]

end Chunk

namespace ChunkFile

/-- The chunks of the document in the bytes `data`, cut out by the sizes in their headers. -/
def CutsInto (data : ByteArray) (pieces : List ByteArray) : Prop :=
  ∃ header, ChunkHeader.read data 0 0 = .ok header ∧
    data.extract header.headerSize.toNat header.size.toNat = joined pieces ∧
    ∀ piece ∈ pieces, Chunk.Whole piece

/-- The sizes in its headers cut a document in one way only. -/
theorem CutsInto.unique {data : ByteArray} {pieces others : List ByteArray}
    (h : CutsInto data pieces) (h' : CutsInto data others) : pieces = others := by
  obtain ⟨header, hheader, hpieces, hwhole⟩ := h
  obtain ⟨header', hheader', hothers, hwhole'⟩ := h'
  rw [hheader] at hheader'
  cases hheader'
  exact Chunk.eq_of_joined_eq_joined hwhole hwhole' (hpieces.symm.trans hothers)

/-- The pieces that spell a document's chunks are those that its sizes cut out. -/
theorem SpelledBy.cutsInto {file : ChunkFile} {data : ByteArray} {pieces : List ByteArray}
    (h : file.SpelledBy data pieces) : CutsInto data pieces := by
  obtain ⟨header, hheader, -, hpieces, hspells⟩ := h
  exact ⟨header, hheader, hpieces, Chunk.whole_of_forall₂_spells hspells⟩

/-! ## There and back -/

/-- The header of a document in front of its chunks is accepted, and what it cuts out are the
chunks. -/
theorem read_header_append {total : Nat} {run : ByteArray} (htotal : total < UInt32.size)
    (hsum : total = 8 + run.size) :
    ChunkHeader.read ((ChunkHeader.layout.encode (header total)).toByteArray ++ run) 0 0
        = .ok (header total) ∧
      ((ChunkHeader.layout.encode (header total)).toByteArray ++ run).extract
        (header total).headerSize.toNat (header total).size.toNat = run := by
  have hfront : ((ChunkHeader.layout.encode (header total)).toByteArray).size = 8 := by
    rw [List.size_toByteArray, ChunkHeader.layout.length_encode]
    rfl
  -- the size fits its word, so the word tells the size
  have hword : (header total).size.toNat = total := UInt32.toNat_ofNat_of_lt' htotal
  have hheader : (header total).headerSize.toNat = 8 := rfl
  rw [hword, hheader]
  constructor
  · refine ChunkHeader.read_eq_ok_iff.mpr ⟨(Reading.takes_record _ _).runAt_zero _, ?_, ?_, ?_⟩
    · exact Nat.le_refl 8
    · rw [hword, hheader]
      omega
    · rw [hword, ByteArray.size_append, hfront]
      omega
  · exact ByteArray.extract_append_eq_right hfront.symm (by omega)

/-- The bytes of a document of representable chunks hold that document. -/
theorem spelledBy_of_toBytes {file : ChunkFile} {data : ByteArray}
    (hchunks : ∀ chunk ∈ file.chunks, chunk.Representable) (hvalid : file.validate = .ok ())
    (h : file.toBytes = .ok data) : ∃ pieces, file.SpelledBy data pieces := by
  obtain ⟨total, pieces, htotal, hpieces, rfl⟩ := toBytes_eq_ok_iff.mp h
  obtain ⟨hfits, hsum⟩ := size_eq_of_encoded (fun chunk hchunk => (hchunks chunk hchunk).wellFormed)
    htotal hpieces
  obtain ⟨hheader, hrun⟩ := read_header_append hfits hsum
  refine ⟨pieces, header total, hheader, rfl, hrun, ?_⟩
  -- a valid document has no optional index that is the word for none
  have hindices := not_mem_optionalIndices_of_validate hchunks hvalid
  have hboth := (List.forall₂_and_left _ _).mpr
    ⟨fun chunk hmem => And.intro (hchunks chunk hmem) (hindices chunk hmem), hpieces⟩
  refine hboth.imp ?_
  rintro chunk piece ⟨⟨hchunk, hindex⟩, hpiece⟩
  obtain ⟨size, hsize, hcount, rfl⟩ := Chunk.encoded_eq_ok_iff.mp hpiece
  exact Chunk.spells_bytes hchunk hsize hcount hindex

/-- A document that was read from some bytes has representable chunks. -/
theorem SpelledBy.representable {file : ChunkFile} {data : ByteArray} {pieces : List ByteArray}
    (h : file.SpelledBy data pieces) : ∀ chunk ∈ file.chunks, chunk.Representable := by
  obtain ⟨header, -, -, -, hspells⟩ := h
  generalize file.chunks = chunks at hspells ⊢
  induction hspells with
  | nil => exact List.forall_mem_nil _
  | cons hpiece _ ih =>
    exact List.forall_mem_cons.mpr ⟨Chunk.representable_of_spells hpiece, ih⟩

/-- **Reading undoes writing.** The bytes of a document whose chunks can be represented and whose
indices all refer to strings parse as that document. -/
theorem parse_toBytes {file : ChunkFile} {data : ByteArray}
    (hchunks : ∀ chunk ∈ file.chunks, chunk.Representable) (hvalid : file.validate = .ok ())
    (h : file.toBytes = .ok data) :
    ∃ parsed, parse data = .ok parsed ∧ parsed.chunks = file.chunks := by
  have hspelled := spelledBy_of_toBytes hchunks hvalid h
  exact ⟨file, parse_eq_ok_iff.mpr ⟨hspelled, hvalid⟩, rfl⟩

/-- A document with a pool of each encoding, an element and a chunk that is not interpreted. -/
def twoPools : ChunkFile where
  chunks := [
    .stringPool
      { encoding := .utf16, strings := #["tag"], offsets := #[0],
        firstIndex := (∅ : Std.ExtHashMap String UInt32).insertIfNew "tag" 0, dataSize := 10 },
    .stringPool { encoding := .utf8 },
    .startTag ⟨1, none, none, 0, [⟨none, 0, some 0, .string 0⟩], 0, 0, 0⟩,
    .endTag ⟨1, none, none, 0⟩,
    .other ⟨0x0777, 10, [1, 2, 3].toByteArray⟩]

/-- The pools are built by `add` and `append`, and the uninterpreted chunk has a header within its
bytes. -/
theorem representable_of_mem_twoPools : ∀ chunk ∈ twoPools.chunks, chunk.Representable := by
  rw [twoPools, List.forall_mem_cons, List.forall_mem_cons, List.forall_mem_cons,
    List.forall_mem_cons, List.forall_mem_singleton]
  exact ⟨.append (.empty .utf16) (show StringPool.append "tag" _ = .ok (0, _) from rfl),
    .empty .utf8, trivial, trivial,
    show _ ∉ _ from by decide, show 8 ≤ 10 by decide, show 10 ≤ 8 + 3 by decide⟩

/-- A document with two pools is read back as it was, chunk by chunk. -/
theorem parse_toBytes_twoPools :
    ∃ data parsed, twoPools.toBytes = .ok data ∧ parse data = .ok parsed ∧
      parsed.chunks = twoPools.chunks := by
  obtain ⟨data, hdata⟩ : ∃ data, twoPools.toBytes = .ok data := ⟨_, rfl⟩
  obtain ⟨parsed, hparsed, hequal⟩ := parse_toBytes representable_of_mem_twoPools rfl hdata
  exact ⟨data, parsed, hdata, hparsed, hequal⟩

/-- **Writing again is a normal form.** What is written of a document that was read from any bytes
reads as the same document and is written as the same bytes, and the pieces that are not interpreted
are those of the bytes that were read, in the same order. -/
theorem normalForm_of_parse {data normal : ByteArray} {file : ChunkFile}
    (hparse : parse data = .ok file) (h : file.toBytes = .ok normal) :
    (∃ parsed, parse normal = .ok parsed ∧ parsed.chunks = file.chunks ∧
        parsed.toBytes = .ok normal) ∧
      ∃ pieces pieces', CutsInto data pieces ∧ CutsInto normal pieces' ∧
        pieces'.filter Chunk.uninterpreted = pieces.filter Chunk.uninterpreted := by
  obtain ⟨⟨pieces, hspelled⟩, hvalid⟩ := parse_eq_ok_iff.mp hparse
  obtain ⟨pieces', hspelled'⟩ := spelledBy_of_toBytes hspelled.representable hvalid h
  refine ⟨⟨file, parse_eq_ok_iff.mpr ⟨⟨pieces', hspelled'⟩, hvalid⟩, rfl, h⟩, pieces, pieces',
    hspelled.cutsInto, hspelled'.cutsInto, ?_⟩
  obtain ⟨-, -, -, -, hspells⟩ := hspelled
  obtain ⟨-, -, -, -, hspells'⟩ := hspelled'
  exact Chunk.filter_uninterpreted_eq hspells hspells'

/-- A map of one resource behind a header with four bytes too many, a chunk that is not interpreted,
and a byte that the document's size leaves out. -/
def strayBytes : ByteArray :=
  [3, 0, 8, 0, 38, 0, 0, 0,
    0x80, 1, 12, 0, 16, 0, 0, 0, 9, 9, 9, 9, 1, 0, 1, 1,
    0x77, 7, 10, 0, 14, 0, 0, 0, 1, 2, 3, 4, 5, 6,
    255].toByteArray

/-- The normal form of these bytes. -/
def strayNormal : ByteArray :=
  [3, 0, 8, 0, 34, 0, 0, 0,
    0x80, 1, 8, 0, 12, 0, 0, 0, 1, 0, 1, 1,
    0x77, 7, 10, 0, 14, 0, 0, 0, 1, 2, 3, 4, 5, 6].toByteArray

/-- The normal form has neither the long header nor the stray byte, and keeps the uninterpreted
chunk as it was. -/
theorem normalForm_of_parse_strayBytes :
    ∃ file, parse strayBytes = .ok file ∧ file.toBytes = .ok strayNormal ∧
      (∃ parsed, parse strayNormal = .ok parsed ∧ parsed.chunks = file.chunks ∧
        parsed.toBytes = .ok strayNormal) ∧
      ∃ pieces pieces', CutsInto strayBytes pieces ∧ CutsInto strayNormal pieces' ∧
        pieces'.filter Chunk.uninterpreted = pieces.filter Chunk.uninterpreted := by
  have hparse : parse strayBytes = .ok
      { chunks := [.resourceMap [0x01010001],
        .other ⟨0x0777, 10, [1, 2, 3, 4, 5, 6].toByteArray⟩] } := by
    refine parse_eq_ok_iff.mpr ⟨⟨[strayBytes.extract 8 24, strayBytes.extract 24 38],
      ⟨ChunkType.document, 8, 38⟩, by rfl, rfl, by decide +kernel, ?_⟩, rfl⟩
    refine .cons ⟨⟨0x0180, 12, 16⟩, by rfl, by rfl, by rfl⟩ (.cons ?_ .nil)
    exact ⟨⟨0x0777, 10, 14⟩, by rfl, by rfl, by rfl⟩
  exact ⟨_, hparse, by rfl, normalForm_of_parse hparse (by rfl)⟩

end ChunkFile

end BinaryXml
