import BinaryXml.Proofs.File.Tiling

/-!
# Why bytes are refused as a document

The errors of a reader are those of the headers and of the chunks in its run; a document adds that
its own header is of another type, and that an index refers to no string. An error is the last item,
and it is about the chunk that starts where the items in front of it end (`refused_of_mem_items`).
One that a read gives comes from a string pool chunk there that is cut short (`EndsInCutPiece`).
-/

namespace BinaryXml

/-- The errors that the reading of chunks can end in. -/
def Error.OfChunks : Error → Prop
  | truncatedChunk .. | unexpectedChunkType .. | invalidChunkHeader .. | malformedChunk ..
  | malformedString _ | chunkTooLarge | read (.unexpectedEnd ..) => True
  | _ => False

/-- The chunk at a place of a run is a string pool that is cut short: its bytes end before its own
header does, or before its table of offsets does, and a read fails for that. -/
structure StringPool.CutPiece (window : ByteArray) (base start : Nat) (header : ChunkHeader)
    (fault : ReadFault) : Prop where
  read_header : ChunkHeader.read window start (base + start) = .ok header
  kind_eq : header.kind = ChunkType.stringPool
  cutShort : CutShort (window.extract start (start + header.size.toNat))
  decode_eq : Chunk.decode header (window.extract start (start + header.size.toNat)) (base + start)
    = .error (.read fault)

namespace ChunkReader

/-! ## Runs -/

/-- Why a reader stops that has come to a place, and the offset that it tells then: it stays in
front of a header that is refused, and it is behind a chunk that is. -/
inductive Refused (base : Nat) (window : ByteArray) : Nat → Error → Nat → Prop where
  | header {start : Nat} {error : Error} (h : ChunkHeader.Refused (base + start) error) :
    Refused base window (base + start) error (base + start)
  | chunk {start : Nat} {header : ChunkHeader} {error : Error}
    (hread : ChunkHeader.read window start (base + start) = .ok header)
    (hdecode : Chunk.decode header (window.extract start (start + header.size.toNat)) (base + start)
      = .error error)
    (h : Chunk.Refused header (window.extract start (start + header.size.toNat)) (base + start)
      error) :
    Refused base window (base + start) error (base + (start + header.size.toNat))

/-- A step that gives an error is refused where the reader stands. -/
theorem refused_of_next? {reader after : ChunkReader} {error : Error}
    (h : reader.next? = some (.error error, after)) :
    Refused reader.base reader.window reader.offset error after.offset := by
  unfold next? at h
  split at h
  · cases h
  split at h
  · rename_i hheader
    cases h
    exact .header (ChunkHeader.refused_of_read _ _ _ _ hheader)
  · rename_i header hheader
    dsimp only at h
    split at h
    · rename_i hdecode
      cases h
      -- the header was accepted, so the chunk lies within the window
      obtain ⟨hrange, -⟩ := ChunkHeader.read_eq_ok_iff_extract.mp hheader
      obtain ⟨hrecord, hlong, hfits, -⟩ := ChunkHeader.read_eq_ok_iff.mp hheader
      exact .chunk hheader hdecode
        (Chunk.refused_of_decode_extract hrecord (hlong.trans hfits) hrange _ _ hdecode)
    · cases h

theorem items_eq_nil_of_next?_eq_error {reader after : ChunkReader} {error : Error}
    (h : reader.next? = some (.error error, after)) : after.items = [] := by
  obtain ⟨-, -, count, -, rfl⟩ := next?_eq_some_iff.mp h
  exact items_of_next?_eq_none (next?_eq_none_iff.mpr (.inl rfl))

/-- **Why a reader stops.** An error is the last item, and it is about the header or the chunk at
the place where the items in front of it end. -/
theorem refused_of_mem_items {reader : ChunkReader} {error : Error} {behind : Nat}
    (h : (.error error, behind) ∈ reader.items) :
    ∃ front, reader.items = front ++ [(.error error, behind)] ∧
      Refused reader.base reader.window (stop reader.offset front) error behind := by
  induction reader using run_induction with
  | ended reader hnext =>
    rw [items_of_next?_eq_none hnext] at h
    cases h
  | step reader item after hnext ih =>
    obtain ⟨hbase, hwindow, -⟩ := run_eq_of_next? hnext
    rw [items_of_next?_eq_some hnext] at h ⊢
    rw [List.mem_cons, Prod.mk.injEq] at h
    rcases h with ⟨rfl, rfl⟩ | h
    · -- the error is the first item, and nothing follows it
      rw [items_eq_nil_of_next?_eq_error hnext]
      exact ⟨[], rfl, refused_of_next? hnext⟩
    · -- the error comes later, in the same window
      obtain ⟨front, hitems, hrefused⟩ := ih h
      refine ⟨(item, after.offset) :: front, by rw [hitems, List.cons_append], ?_⟩
      rw [hbase, hwindow] at hrefused
      exact hrefused

/-- Whatever a reader stops for, the error is one of those that chunks can give. -/
theorem Refused.ofChunks {base : Nat} {window : ByteArray} {place : Nat} {error : Error}
    {behind : Nat} (h : Refused base window place error behind) : error.OfChunks := by
  cases h with
  | header h => cases h <;> trivial
  | chunk _ _ h =>
    cases h with
    | malformed h =>
      obtain ⟨_, rfl⟩ := h
      trivial
    | pool _ h => cases h <;> trivial

/-- No error of a read comes from a header or from a chunk of the tree. -/
theorem Refused.cutPiece {base : Nat} {window : ByteArray} {place : Nat} {fault : ReadFault}
    {behind : Nat} (h : Refused base window place (.read fault) behind) :
    ∃ start header, place = base + start ∧ behind = base + (start + header.size.toNat) ∧
      StringPool.CutPiece window base start header fault := by
  cases h with
  | header h => cases h
  | @chunk start header _ hread hdecode h =>
    cases h with
    | malformed h =>
      obtain ⟨_, h⟩ := h
      cases h
    | pool hkind h =>
      cases h with
      | cutShort _ _ _ hshort => exact ⟨start, header, rfl, rfl, hread, hkind, hshort, hdecode⟩

/-- The reading of a run ends with a read that fails in a string pool chunk which is cut short. The
chunk starts where the items in front end, and the last item tells where the chunk ends. -/
def EndsInCutPiece (reader : ChunkReader) (fault : ReadFault) (behind : Nat) : Prop :=
  ∃ front start header, reader.items = front ++ [(.error (.read fault), behind)] ∧
    stop reader.offset front = reader.base + start ∧
    behind = reader.base + (start + header.size.toNat) ∧
    StringPool.CutPiece reader.window reader.base start header fault

/-- **A read fails only in a string pool chunk that is cut short.** -/
theorem endsInCutPiece_of_mem_items {reader : ChunkReader} {fault : ReadFault} {behind : Nat}
    (h : (.error (.read fault), behind) ∈ reader.items) : reader.EndsInCutPiece fault behind := by
  obtain ⟨front, hitems, hrefused⟩ := refused_of_mem_items h
  obtain ⟨start, header, hplace, hbehind, hpiece⟩ := hrefused.cutPiece
  exact ⟨front, start, header, hitems, hplace, hbehind, hpiece⟩

theorem ofChunks_of_mem_items {reader : ChunkReader} {error : Error} {behind : Nat}
    (h : (.error error, behind) ∈ reader.items) : error.OfChunks := by
  obtain ⟨_, -, hrefused⟩ := refused_of_mem_items h
  exact hrefused.ofChunks

theorem exists_mem_items_of_chunks {reader : ChunkReader} {error : Error}
    (h : reader.chunks = .error error) : ∃ behind, (.error error, behind) ∈ reader.items := by
  obtain ⟨⟨item, behind⟩, hmem, rfl⟩ := exists_mem_of_mapM_eq_error h
  exact ⟨behind, hmem⟩

end ChunkReader

/-! ## Documents -/

namespace ChunkFile

/-- Why a document is refused for its header. -/
theorem refused_of_ofDocument (data : ByteArray) :
    FailsOnly (fun error => ChunkHeader.Refused 0 error ∨
      ∃ kind, error = .unexpectedChunkType 0 ChunkType.document kind)
      (ChunkReader.ofDocument data) := by
  refine ((ChunkHeader.refused_of_read data 0 0).mono fun _ => .inl).bind fun header _ => ?_
  exact failsOnly_ite (fun _ => failsOnly_error (.inr ⟨_, rfl⟩)) fun _ => failsOnly_ok _

/-- Only an index that is out of range makes chunks invalid. -/
theorem of_validateChunks_eq_error {count : Nat} {chunks : List Chunk} {error : Error}
    (h : validateChunks count chunks = .error error) :
    ∃ index, error = .stringIndexOutOfRange index count := by
  induction chunks with
  | nil => cases h
  | cons chunk rest ih =>
    rw [validateChunks] at h
    split at h
    · cases h
      exact ⟨_, rfl⟩
    · exact ih h

/-- **Why bytes are refused as a document.** Their header is refused, a chunk of them is, or they
refer to a string that is not there. -/
theorem refused_of_parse (data : ByteArray) :
    FailsOnly (fun error => ChunkReader.ofDocument data = .error error ∨
      ∃ reader, ChunkReader.ofDocument data = .ok reader ∧
        ((∃ behind, (.error error, behind) ∈ reader.items) ∨
          ∃ index count, error = .stringIndexOutOfRange index count))
      (parse data) := by
  unfold parse
  refine FailsOnly.bind (fun error h => .inl h) fun reader hreader => ?_
  refine FailsOnly.bind (fun error h => ?_) fun chunks _ => ?_
  · exact .inr ⟨reader, hreader, .inl (ChunkReader.exists_mem_items_of_chunks h)⟩
  refine FailsOnly.bind (fun error h => ?_) fun _ _ => failsOnly_ok _
  obtain ⟨index, rfl⟩ := of_validateChunks_eq_error h
  exact .inr ⟨reader, hreader, .inr ⟨index, _, rfl⟩⟩

end ChunkFile

end BinaryXml
