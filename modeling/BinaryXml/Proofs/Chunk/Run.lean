import BinaryXml.ChunkReader
import BinaryXml.Proofs.Chunk.RoundTrip
import Mathlib.Data.List.Forall2

/-!
# What a run of chunks is read from

A reader that has not stopped gives some chunks and no error exactly when the bytes in front of it
are pieces which spell these chunks one after the other (`chunks_eq_ok_iff`). The step is
`next?_eq_some_ok_iff`; the offsets a reader tells play no part in it.
-/

namespace BinaryXml

/-! ## A chunk inside a run -/

/-- A header is accepted at some place of a run when it is accepted in front of the piece that it
cuts out there. -/
theorem ChunkHeader.read_eq_ok_iff_extract {window : ByteArray} {position offset : Nat}
    {header : ChunkHeader} :
    ChunkHeader.read window position offset = .ok header ↔
      position + header.size.toNat ≤ window.size ∧
        ChunkHeader.read (window.extract position (position + header.size.toNat)) 0 0
          = .ok header := by
  have hwidth : layout.width = 8 := rfl
  rw [read_eq_ok_iff, read_eq_ok_iff, ByteArray.size_extract, Nat.sub_zero]
  constructor
  · rintro ⟨hheader, hlong, hfits, havailable⟩
    have hrange : position + header.size.toNat ≤ window.size := by omega
    rw [Reading.runAt_extract layout (by omega) hrange]
    exact ⟨hrange, hheader, hlong, hfits, by omega⟩
  · rintro ⟨hrange, hheader, hlong, hfits, -⟩
    rw [Reading.runAt_extract layout (by omega) hrange] at hheader
    exact ⟨hheader, hlong, hfits, by omega⟩

/-- What is left of a run starts with the same header as the run does there. -/
theorem ChunkHeader.read_extract_rest (window : ByteArray) (position offset : Nat) :
    ChunkHeader.read (window.extract position window.size) 0 offset
      = ChunkHeader.read window position offset := by
  have hsize : (window.extract position window.size).size = window.size - position := by
    rw [ByteArray.size_extract, Nat.min_self]
  have hwidth : layout.width = 8 := rfl
  unfold ChunkHeader.read
  dsimp only
  rw [hsize, Nat.sub_zero]
  by_cases hshort : window.size - position < 8
  · rw [if_pos hshort, if_pos hshort]
    rfl
  · rw [Reading.runAt_extract layout (by omega) (Nat.le_refl _)]

/-- A piece that spells a chunk has a whole header. -/
theorem Chunk.Spells.eight_le_size {chunk : Chunk} {piece : ByteArray} (h : chunk.Spells piece) :
    8 ≤ piece.size := by
  obtain ⟨header, hread, hsize, -⟩ := h
  obtain ⟨-, hlong, hfits, -⟩ := ChunkHeader.read_eq_ok_iff.mp hread
  omega

namespace ChunkReader

/-! ## One step -/

/-- **The reader gives a chunk when the piece in front of it spells that chunk**, and it goes on
behind the piece. -/
theorem next?_eq_some_ok_iff {reader after : ChunkReader} {chunk : Chunk} :
    reader.next? = some (.ok chunk, after) ↔
      reader.stopped = false ∧ ∃ stop, stop ≤ reader.window.size ∧
        chunk.Spells (reader.window.extract reader.position stop) ∧
        after = { reader with position := stop } := by
  unfold next?
  constructor
  · intro h
    split at h
    · cases h
    rename_i hopen
    split at h
    · cases h
    rename_i header hheader
    dsimp only at h
    split at h <;> cases h
    rename_i hdecode
    -- the header is accepted, and the chunk that it cuts out is decoded
    obtain ⟨hrange, hread⟩ := ChunkHeader.read_eq_ok_iff_extract.mp hheader
    refine ⟨Bool.eq_false_iff.mpr fun hstopped => hopen (.inl hstopped), _, hrange, ?_, rfl⟩
    refine ⟨header, hread, ?_, Chunk.decode_eq_ok_iff_zero.mp hdecode⟩
    rw [ByteArray.size_extract]
    omega
  · rintro ⟨hopen, stop, hstop, hspells, rfl⟩
    -- a piece that spells a chunk is not empty, so there is something ahead
    have hlong := hspells.eight_le_size
    obtain ⟨header, hread, hsize, hdecode⟩ := hspells
    rw [ByteArray.size_extract] at hsize hlong
    have hend : reader.position + header.size.toNat = stop := by omega
    have hmore : ¬ (reader.stopped ∨ reader.window.size ≤ reader.position) := by
      simp only [hopen, Bool.false_eq_true, false_or]
      omega
    have hheader : ChunkHeader.read reader.window reader.position reader.offset = .ok header :=
      ChunkHeader.read_eq_ok_iff_extract.mpr ⟨by omega, by rwa [hend]⟩
    rw [if_neg hmore, hheader]
    simp only [hend, Chunk.decode_eq_ok_iff_zero.mpr hdecode]

/-- There is nothing more to read after an error and at the end of the run, and nowhere else. -/
theorem next?_eq_none_iff {reader : ChunkReader} :
    reader.next? = none ↔ reader.stopped ∨ reader.window.size ≤ reader.position := by
  unfold next?
  constructor
  · intro h
    split at h
    · assumption
    · split at h
      · cases h
      · dsimp only at h
        split at h <;> cases h
  · intro hend
    rw [if_pos hend]

/-- A step stays in the run. -/
theorem run_eq_of_next? {reader after : ChunkReader} {item : Except Error Chunk}
    (h : reader.next? = some (item, after)) :
    after.base = reader.base ∧ after.window = reader.window ∧
      after.position ≤ reader.window.size := by
  unfold next? at h
  split at h
  · cases h
  rename_i hopen
  split at h
  · cases h
    exact ⟨rfl, rfl, Nat.le_of_not_le fun hpast => hopen (.inr hpast)⟩
  · rename_i header hheader
    obtain ⟨-, hlong, hfits, havailable⟩ := ChunkHeader.read_eq_ok_iff.mp hheader
    have hrange : reader.position + header.size.toNat ≤ reader.window.size := by omega
    dsimp only at h
    split at h <;> cases h <;> exact ⟨rfl, rfl, hrange⟩

/-! ## The whole run -/

/-- Every run ends, as every item leaves less to be read. So what holds where a run ends, and in
front of an item whenever it does behind it, holds of every reader. -/
theorem run_induction {motive : ChunkReader → Prop}
    (ended : ∀ reader, reader.next? = none → motive reader)
    (step : ∀ reader item after, reader.next? = some (item, after) → motive after → motive reader)
    (reader : ChunkReader) : motive reader := by
  induction hunread : reader.unread using Nat.strongRecOn generalizing reader with
  | _ unread ih =>
  cases hnext : reader.next? with
  | none => exact ended reader hnext
  | some found =>
    have hless := unread_lt_of_next? hnext
    rw [hunread] at hless
    exact step reader found.1 found.2 hnext (ih _ hless found.2 rfl)

theorem drainOnto_of_next?_eq_none {reader : ChunkReader} (h : reader.next? = none)
    (done : List (Except Error Chunk × Nat)) : drainOnto done reader = (done.reverse, reader) := by
  rw [drainOnto]
  split
  · rfl
  · rename_i hnext
    rw [h] at hnext
    cases hnext

/-- A step puts its item on those that are done. -/
theorem drainOnto_of_next?_eq_some {reader after : ChunkReader} {item : Except Error Chunk}
    (h : reader.next? = some (item, after)) (done : List (Except Error Chunk × Nat)) :
    drainOnto done reader = drainOnto ((item, after.offset) :: done) after := by
  rw [drainOnto]
  split
  · rename_i hnext
    rw [h] at hnext
    cases hnext
  · rename_i hnext
    rw [h] at hnext
    cases hnext
    rfl

/-- Items that are done already stand in front of those that the reader gives. -/
theorem drainOnto_append (done earlier : List (Except Error Chunk × Nat)) (reader : ChunkReader) :
    drainOnto (done ++ earlier) reader
      = (earlier.reverse ++ (drainOnto done reader).1, (drainOnto done reader).2) := by
  fun_induction drainOnto done reader with
  | case1 done reader hnext =>
    rw [drainOnto_of_next?_eq_none hnext, List.reverse_append]
  | case2 done reader item after hnext ih =>
    rw [drainOnto_of_next?_eq_some hnext, ← List.cons_append]
    exact ih

theorem items_of_next?_eq_none {reader : ChunkReader} (h : reader.next? = none) :
    reader.items = [] := by
  rw [items, drainOnto_of_next?_eq_none h]
  rfl

/-- The items are the next one, with the offset behind it, and those of the reader that is left. -/
theorem items_of_next?_eq_some {reader after : ChunkReader} {item : Except Error Chunk}
    (h : reader.next? = some (item, after)) :
    reader.items = (item, after.offset) :: after.items := by
  have happend := drainOnto_append [] [(item, after.offset)] after
  rw [List.nil_append] at happend
  rw [items, drainOnto_of_next?_eq_some h, happend]
  rfl

theorem exhausted_of_next?_eq_none {reader : ChunkReader} (h : reader.next? = none) :
    reader.exhausted = reader := by
  rw [exhausted, drainOnto_of_next?_eq_none h]

/-- A step does not change where the reading ends. -/
theorem exhausted_of_next?_eq_some {reader after : ChunkReader} {item : Except Error Chunk}
    (h : reader.next? = some (item, after)) : reader.exhausted = after.exhausted := by
  have happend := drainOnto_append [] [(item, after.offset)] after
  rw [List.nil_append] at happend
  rw [exhausted, drainOnto_of_next?_eq_some h, happend]
  rfl

/-- The reader that is left has nothing more to be read. -/
theorem next?_exhausted (reader : ChunkReader) : reader.exhausted.next? = none := by
  induction reader using run_induction with
  | ended reader hnext => rwa [exhausted_of_next?_eq_none hnext]
  | step reader item after hnext ih => rwa [exhausted_of_next?_eq_some hnext]

theorem chunks_of_next?_eq_none {reader : ChunkReader} (h : reader.next? = none) :
    reader.chunks = .ok [] := by
  rw [chunks, items_of_next?_eq_none h]
  rfl

theorem chunks_of_next?_eq_ok {reader after : ChunkReader} {chunk : Chunk}
    (h : reader.next? = some (.ok chunk, after)) :
    reader.chunks = (chunk :: ·) <$> after.chunks := by
  rw [chunks, items_of_next?_eq_some h, List.mapM_cons]
  show (do let rest ← after.chunks; pure (chunk :: rest)) = _
  cases after.chunks <;> rfl

theorem chunks_of_next?_eq_error {reader after : ChunkReader} {error : Error}
    (h : reader.next? = some (.error error, after)) : reader.chunks = .error error := by
  rw [chunks, items_of_next?_eq_some h, List.mapM_cons]
  rfl

/-- The bytes in front of the reader. -/
def ahead (reader : ChunkReader) : ByteArray :=
  reader.window.extract reader.position reader.window.size

/-- A piece at the front of what is ahead is cut out of the run, and the rest is ahead behind it. -/
theorem extract_of_ahead_eq_append {reader : ChunkReader} {piece rest : ByteArray}
    (hpiece : 0 < piece.size) (h : reader.ahead = piece ++ rest) :
    reader.position + piece.size ≤ reader.window.size ∧
      reader.window.extract reader.position (reader.position + piece.size) = piece ∧
      ahead { reader with position := reader.position + piece.size } = rest := by
  have hsize := congrArg ByteArray.size h
  rw [ahead, ByteArray.size_extract, ByteArray.size_append, Nat.min_self] at hsize
  have hrange : reader.position + piece.size ≤ reader.window.size := by omega
  have hcut := ByteArray.extract_eq_extract_append_extract (a := reader.window)
    (reader.position + piece.size) (Nat.le_add_right reader.position _) hrange
  have hlength : (reader.window.extract reader.position (reader.position + piece.size)).size
      = piece.size := by
    rw [ByteArray.size_extract]
    omega
  rw [ahead, hcut, ByteArray.append_eq_append_iff_of_size_eq_left hlength] at h
  exact ⟨hrange, h.1, h.2⟩

/-- A piece at the front of what is ahead is read as the chunk that it spells. -/
theorem exists_next?_of_ahead_eq_append {reader : ChunkReader} (hopen : reader.stopped = false)
    {chunk : Chunk} {piece rest : ByteArray} (hspells : chunk.Spells piece)
    (h : reader.ahead = piece ++ rest) :
    ∃ after, reader.next? = some (.ok chunk, after) ∧ after.stopped = false ∧
      after.ahead = rest ∧ after.offset = reader.offset + piece.size := by
  have hlong := hspells.eight_le_size
  obtain ⟨hrange, hpiece, hahead⟩ := extract_of_ahead_eq_append (by omega) h
  rw [← hpiece] at hspells
  exact ⟨_, next?_eq_some_ok_iff.mpr ⟨hopen, _, hrange, hspells, rfl⟩, hopen, hahead,
    (Nat.add_assoc _ _ _).symm⟩

/-- The chunks that a reader gives are spelled, one after the other, by the bytes ahead of it. -/
theorem exists_pieces_of_chunks {reader : ChunkReader} (hopen : reader.stopped = false)
    {chunks : List Chunk} (h : reader.chunks = .ok chunks) :
    ∃ pieces, reader.ahead = joined pieces ∧ List.Forall₂ Chunk.Spells chunks pieces := by
  induction reader using run_induction generalizing chunks with
  | ended reader hnext =>
    rw [chunks_of_next?_eq_none hnext] at h
    cases h
    have hend : reader.window.size ≤ reader.position := by
      rcases next?_eq_none_iff.mp hnext with hstopped | hend
      · rw [hopen] at hstopped
        cases hstopped
      · exact hend
    refine ⟨[], ?_, .nil⟩
    rw [ahead, joined_nil, ByteArray.extract_eq_empty_iff]
    omega
  | step reader item after hnext ih =>
    cases item with
    | error error =>
      rw [chunks_of_next?_eq_error hnext] at h
      cases h
    | ok chunk =>
      rw [chunks_of_next?_eq_ok hnext] at h
      obtain ⟨rest, hafter, rfl⟩ := map_eq_ok_iff.mp h
      obtain ⟨-, stop, hstop, hspells, rfl⟩ := next?_eq_some_ok_iff.mp hnext
      obtain ⟨pieces, hpieces, hrest⟩ := ih (by exact hopen) hafter
      refine ⟨reader.window.extract reader.position stop :: pieces, ?_, .cons hspells hrest⟩
      -- the piece and what is ahead behind it are all that was ahead
      have hlong := hspells.eight_le_size
      rw [ByteArray.size_extract] at hlong
      rw [joined_cons, ← hpieces]
      exact ByteArray.extract_eq_extract_append_extract stop (by omega) hstop

/-- A reader gives the chunks that the pieces ahead of it spell. -/
theorem chunks_of_pieces {reader : ChunkReader} (hopen : reader.stopped = false)
    {chunks : List Chunk} {pieces : List ByteArray} (hpieces : reader.ahead = joined pieces)
    (hspells : List.Forall₂ Chunk.Spells chunks pieces) : reader.chunks = .ok chunks := by
  induction hspells generalizing reader with
  | nil =>
    rw [joined_nil, ahead, ByteArray.extract_eq_empty_iff] at hpieces
    exact chunks_of_next?_eq_none (next?_eq_none_iff.mpr (.inr (by omega)))
  | @cons chunk piece chunks pieces hspells hrest ih =>
    rw [joined_cons] at hpieces
    obtain ⟨after, hnext, hafter, hahead, -⟩ :=
      exists_next?_of_ahead_eq_append hopen hspells hpieces
    rw [chunks_of_next?_eq_ok hnext, ih hafter hahead]
    rfl

/-- **The chunks of a run are those that its pieces spell.** A reader gives some chunks and no error
exactly when all the bytes ahead of it are pieces that spell them in order. -/
theorem chunks_eq_ok_iff {reader : ChunkReader} (hopen : reader.stopped = false)
    {chunks : List Chunk} :
    reader.chunks = .ok chunks ↔
      ∃ pieces, reader.ahead = joined pieces ∧ List.Forall₂ Chunk.Spells chunks pieces := by
  constructor
  · exact exists_pieces_of_chunks hopen
  · rintro ⟨pieces, hpieces, hspells⟩
    exact chunks_of_pieces hopen hpieces hspells

end ChunkReader

end BinaryXml
