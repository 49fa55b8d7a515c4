import BinaryXml.Proofs.Chunk.Run

/-!
# A reader looks ahead only

A reader gives what the bytes ahead of it say, whatever it has passed and wherever its run starts:
one step is a function of these bytes and of the offset where they stand (`next?_eq_some_iff`), and
the offset shows in the errors alone. So readers with the same bytes ahead of them give the same
items (`items_of_ahead_eq`), pieces that spell chunks are read whatever stands behind them
(`items_of_pieces_append`), and runs of chunks are read one after the other (`items_concatenation`).
-/

namespace BinaryXml

/-! ## Headers -/

/-- A header reads the same wherever it stands. -/
theorem ChunkHeader.read_add (data : ByteArray) (position offset distance : Nat) :
    ChunkHeader.read data position (offset + distance)
      = (ChunkHeader.read data position offset).mapError (Error.shift distance) := by
  unfold ChunkHeader.read
  dsimp only
  simp only [throw_bind, mapError_guard, mapError_bind, mapError_shift_runAt]
  rfl

/-- The size stands behind the kind and the size of the header. -/
theorem ChunkHeader.runAt_size {data : ByteArray} {position : Nat} {header : ChunkHeader}
    (h : (Reading.record layout).runAt data position = .ok header) :
    (Reading.record .u32).runAt data (position + 4) = .ok header.size := by
  obtain ⟨hrange, hdecode⟩ := (Reading.runAt_record_eq_ok_iff _ _ _ _).mp h
  have hwidth : layout.width = 8 := rfl
  have hword : Layout.u32.width = 4 := rfl
  rw [hwidth] at hrange hdecode
  refine (Reading.runAt_record_eq_ok_iff _ _ _ _).mpr ⟨by omega, ?_⟩
  have hfield : (data.extract (position + 4) (position + 4 + 4)).data.toList
      = (data.extract position (position + 8)).data.toList.drop 4 := by
    rw [ByteArray.data_extract, ByteArray.data_extract, Array.toList_extract, Array.toList_extract,
      List.extract_eq_take_drop, List.extract_eq_take_drop, List.drop_take, List.drop_drop,
      show position + 4 + 4 - (position + 4) = position + 8 - position - 4 from by omega]
  rw [hword, hfield, ← hdecode]
  show Layout.u32.decode (List.drop 4 _) = Layout.u32.decode (List.drop 2 (List.drop 2 _))
  rw [List.drop_drop]

/-- Of a chunk that is cut off the header is refused, for its own eight bytes or for the bytes that
it declares. -/
theorem ChunkHeader.read_cut {data : ByteArray} {offset cut : Nat} {header : ChunkHeader}
    (h : ChunkHeader.read data 0 offset = .ok header) (hcut : cut < header.size.toNat) :
    ChunkHeader.read (data.extract 0 cut) 0 offset = .error (.truncatedChunk offset
      (if cut < 8 then 8 else header.size.toNat) cut) := by
  obtain ⟨hrecord, hlong, hfits, havailable⟩ := read_eq_ok_iff.mp h
  have hwidth : layout.width = 8 := rfl
  have hsize : (data.extract 0 cut).size = cut := by
    rw [ByteArray.size_extract]
    omega
  unfold ChunkHeader.read
  dsimp only
  rw [hsize, Nat.sub_zero]
  by_cases hshort : cut < 8
  · rw [if_pos hshort, if_pos hshort]
    rfl
  · -- the eight bytes of the header are still there
    have hheader : (Reading.record layout).runAt (data.extract 0 cut) 0 = .ok header := by
      rw [Reading.runAt_extract layout (by omega) (by omega), hrecord]
    have hsound : ¬ (header.headerSize.toNat < 8
        ∨ header.size.toNat < header.headerSize.toNat) := by
      omega
    rw [if_neg hshort, if_neg hshort, hheader]
    simp only [bind, Except.bind, if_neg hsound, if_pos hcut]
    rfl

namespace ChunkReader

/-! ## One step -/

/-- The item at the front of some bytes that stand at `offset`, and the number of bytes that it
takes. A header that is refused takes none. -/
def front (data : ByteArray) (offset : Nat) : Except Error Chunk × Nat :=
  match ChunkHeader.read data 0 offset with
  | .error error => (.error error, 0)
  | .ok header =>
    (Chunk.decode header (data.extract 0 header.size.toNat) offset, header.size.toNat)

/-- The item at the front is the same wherever the bytes stand, and takes as many of them. -/
theorem front_add (data : ByteArray) (offset distance : Nat) :
    front data (offset + distance)
      = ((front data offset).1.mapError (Error.shift distance), (front data offset).2) := by
  unfold front
  rw [ChunkHeader.read_add]
  cases ChunkHeader.read data 0 offset with
  | error error => rfl
  | ok header =>
    show (Chunk.decode header _ (offset + distance), _) = _
    rw [Chunk.decode_add]

/-- The reader behind an item that takes `count` bytes. -/
def movedBehind (reader : ChunkReader) (item : Except Error Chunk) (count : Nat) : ChunkReader :=
  { reader with position := reader.position + count, stopped := !item.isOk }

theorem size_ahead (reader : ChunkReader) :
    reader.ahead.size = reader.window.size - reader.position := by
  rw [ahead, ByteArray.size_extract, Nat.min_self]

theorem ahead_ofBytes (data : ByteArray) : (ofBytes data).ahead = data :=
  ByteArray.extract_zero_size

theorem next?_eq_none_iff_size_ahead {reader : ChunkReader} :
    reader.next? = none ↔ reader.stopped ∨ reader.ahead.size = 0 := by
  rw [next?_eq_none_iff, size_ahead, Nat.sub_eq_zero_iff_le]

/-- What a reader gives that has not stopped, with bytes ahead of it. -/
theorem next?_eq_front {reader : ChunkReader} (hopen : reader.stopped = false)
    (hmore : 0 < reader.ahead.size) :
    reader.next? = some ((front reader.ahead reader.offset).1,
      reader.movedBehind (front reader.ahead reader.offset).1
        (front reader.ahead reader.offset).2) := by
  have hunread : ¬ (reader.stopped ∨ reader.window.size ≤ reader.position) := by
    rw [size_ahead] at hmore
    simp only [hopen, Bool.false_eq_true, false_or]
    omega
  unfold next? front
  rw [if_neg hunread, ahead, ChunkHeader.read_extract_rest]
  cases hread : ChunkHeader.read reader.window reader.position reader.offset with
  | error error => rfl
  | ok header =>
    obtain ⟨-, -, -, havailable⟩ := ChunkHeader.read_eq_ok_iff.mp hread
    -- the chunk is cut out of what is ahead as it is out of the window
    have hpiece : (reader.window.extract reader.position reader.window.size).extract 0
        header.size.toNat
        = reader.window.extract reader.position (reader.position + header.size.toNat) := by
      rw [ByteArray.extract_extract, Nat.add_zero, Nat.min_eq_left (by omega)]
    simp only [hpiece]
    cases Chunk.decode header _ reader.offset with
    | error error => rfl
    | ok chunk =>
      show some (_, { reader with position := _ }) = _
      rw [hopen]
      rfl

/-- **A step looks at the bytes ahead alone.** -/
theorem next?_eq_some_iff {reader after : ChunkReader} {item : Except Error Chunk} :
    reader.next? = some (item, after) ↔
      reader.stopped = false ∧ 0 < reader.ahead.size ∧
        ∃ count, front reader.ahead reader.offset = (item, count) ∧
          after = reader.movedBehind item count := by
  constructor
  · intro h
    have hunread : ¬ (reader.stopped ∨ reader.ahead.size = 0) := by
      rw [← next?_eq_none_iff_size_ahead, h]
      nofun
    rw [not_or, Bool.not_eq_true] at hunread
    obtain ⟨hopen, hmore⟩ := hunread
    rw [next?_eq_front hopen (Nat.pos_of_ne_zero hmore)] at h
    cases h
    exact ⟨hopen, Nat.pos_of_ne_zero hmore, _, rfl, rfl⟩
  · rintro ⟨hopen, hmore, count, hfront, rfl⟩
    rw [next?_eq_front hopen hmore, hfront]

theorem offset_movedBehind (reader : ChunkReader) (item : Except Error Chunk) (count : Nat) :
    (reader.movedBehind item count).offset = reader.offset + count :=
  (Nat.add_assoc _ _ _).symm

theorem ahead_movedBehind (reader : ChunkReader) (item : Except Error Chunk) (count : Nat) :
    (reader.movedBehind item count).ahead = reader.ahead.extract count reader.ahead.size := by
  show reader.window.extract (reader.position + count) reader.window.size = _
  rw [ahead, ByteArray.extract_extract, ByteArray.size_extract, Nat.min_self,
    Nat.min_eq_right (by omega)]

/-! ## The whole run -/

/-- An item and the offset behind it, when the same bytes stand `distance` bytes further on. -/
def shifted (distance : Nat) (item : Except Error Chunk × Nat) : Except Error Chunk × Nat :=
  (item.1.mapError (Error.shift distance), item.2 + distance)

/-- Another place makes no error of a chunk, nor a chunk of an error. -/
theorem isOk_mapError (f : Error → Error) (item : Except Error Chunk) :
    (item.mapError f).isOk = item.isOk := by
  cases item <;> rfl

/-- **Readers with the same bytes ahead of them give the same items**, but for the place where they
stand. -/
theorem items_of_ahead_eq {reader other : ChunkReader} {distance : Nat}
    (hahead : other.ahead = reader.ahead) (hstopped : other.stopped = reader.stopped)
    (hoffset : other.offset = reader.offset + distance) :
    other.items = reader.items.map (shifted distance) := by
  induction reader using run_induction generalizing other with
  | ended reader hnext =>
    have hnext' : other.next? = none := by
      -- both have ended
      rwa [next?_eq_none_iff_size_ahead, hstopped, hahead, ← next?_eq_none_iff_size_ahead]
    rw [items_of_next?_eq_none hnext, items_of_next?_eq_none hnext']
    rfl
  | step reader item after hnext ih =>
    -- both take an item of the same bytes, and have the same bytes ahead of them again
    obtain ⟨hopen, hmore, count, hfront, rfl⟩ := next?_eq_some_iff.mp hnext
    have hnext' : other.next? = some (item.mapError (Error.shift distance),
        other.movedBehind (item.mapError (Error.shift distance)) count) := by
      refine next?_eq_some_iff.mpr ⟨hstopped.trans hopen, by rwa [hahead], count, ?_, rfl⟩
      rw [hahead, hoffset, front_add, hfront]
    have hbehind : (other.movedBehind (item.mapError (Error.shift distance)) count).offset
        = (reader.movedBehind item count).offset + distance := by
      rw [offset_movedBehind, offset_movedBehind, hoffset, Nat.add_right_comm]
    rw [items_of_next?_eq_some hnext, items_of_next?_eq_some hnext', List.map_cons,
      ih (by rw [ahead_movedBehind, ahead_movedBehind, hahead])
        (congrArg (!·) (isOk_mapError _ item)) hbehind, hbehind]
    rfl

/-- The items of chunks whose pieces stand one after the other from `offset` on. -/
def wholeItems (offset : Nat) : List Chunk → List ByteArray → List (Except Error Chunk × Nat)
  | chunk :: chunks, piece :: pieces =>
    (.ok chunk, offset + piece.size) :: wholeItems (offset + piece.size) chunks pieces
  | _, _ => []

/-- **Pieces that spell chunks are read whatever stands behind them**, and what stands there is read
as it is on its own. -/
theorem items_of_pieces_append {reader : ChunkReader} (hopen : reader.stopped = false)
    {chunks : List Chunk} {pieces : List ByteArray} {rest : ByteArray}
    (hspells : List.Forall₂ Chunk.Spells chunks pieces) (h : reader.ahead = joined pieces ++ rest) :
    reader.items = wholeItems reader.offset chunks pieces
      ++ (ofBytes rest).items.map (shifted (reader.offset + (joined pieces).size)) := by
  induction hspells generalizing reader with
  | nil =>
    -- no piece is left, so all that is ahead is the rest
    rw [joined_nil, ByteArray.empty_append] at h
    have hoffset : reader.offset = (ofBytes rest).offset + (reader.offset + (joined []).size) := by
      show reader.offset = 0 + 0 + (reader.offset + 0)
      omega
    exact items_of_ahead_eq (h.trans (ahead_ofBytes rest).symm) hopen hoffset
  | @cons chunk piece chunks pieces hspells hrest ih =>
    rw [joined_cons, ByteArray.append_assoc] at h
    obtain ⟨after, hnext, hafter, hahead, hoffset⟩ :=
      exists_next?_of_ahead_eq_append hopen hspells h
    rw [items_of_next?_eq_some hnext, ih hafter hahead, hoffset, joined_cons,
      ByteArray.size_append, ← Nat.add_assoc]
    rfl

/-- Pieces that spell chunks, read on their own and with something behind them. -/
theorem items_joined_append {chunks : List Chunk} {pieces : List ByteArray}
    (hspells : List.Forall₂ Chunk.Spells chunks pieces) (rest : ByteArray) :
    (ofBytes (joined pieces ++ rest)).items
      = wholeItems 0 chunks pieces ++ (ofBytes rest).items.map (shifted (joined pieces).size) := by
  have hopen : (ofBytes (joined pieces ++ rest)).stopped = false := rfl
  have hoffset : (ofBytes (joined pieces ++ rest)).offset = 0 := rfl
  rw [items_of_pieces_append hopen hspells (ahead_ofBytes _), hoffset, Nat.zero_add]

theorem items_empty : (ofBytes .empty).items = [] :=
  items_of_next?_eq_none rfl

/-- Pieces that spell chunks are read as those chunks and nothing else. -/
theorem items_joined {chunks : List Chunk} {pieces : List ByteArray}
    (hspells : List.Forall₂ Chunk.Spells chunks pieces) :
    (ofBytes (joined pieces)).items = wholeItems 0 chunks pieces := by
  have hitems := items_joined_append hspells .empty
  rwa [ByteArray.append_empty, items_empty, List.map_nil, List.append_nil] at hitems

/-! ## Runs one after the other -/

/-- Nothing but chunks is read from the bytes. -/
def ReadsWhole (data : ByteArray) : Prop :=
  ∀ item ∈ (ofBytes data).items, ∃ chunk, item.1 = .ok chunk

/-- Bytes of which nothing but chunks is read are pieces that spell them. -/
theorem ReadsWhole.exists_pieces {data : ByteArray} (h : ReadsWhole data) :
    ∃ chunks pieces, data = joined pieces ∧ List.Forall₂ Chunk.Spells chunks pieces := by
  obtain ⟨chunks, hchunks⟩ := exists_forall₂_of_forall h
  have hread : (ofBytes data).chunks = .ok chunks := mapM_eq_ok_iff.mpr hchunks
  obtain ⟨pieces, hpieces, hspells⟩ := exists_pieces_of_chunks rfl hread
  rw [ahead_ofBytes] at hpieces
  exact ⟨chunks, pieces, hpieces, hspells⟩

/-- Behind a whole run the items of another are those that it has on its own, with their offsets
moved. -/
theorem items_append {first : ByteArray} (h : ReadsWhole first) (second : ByteArray) :
    (ofBytes (first ++ second)).items
      = (ofBytes first).items ++ (ofBytes second).items.map (shifted first.size) := by
  obtain ⟨chunks, pieces, rfl, hspells⟩ := h.exists_pieces
  rw [items_joined_append hspells, items_joined hspells]

/-- Two whole runs are a whole run. -/
theorem ReadsWhole.append {first second : ByteArray} (hfirst : ReadsWhole first)
    (hsecond : ReadsWhole second) : ReadsWhole (first ++ second) := by
  intro item hitem
  rw [items_append hfirst, List.mem_append] at hitem
  rcases hitem with hitem | hitem
  · exact hfirst item hitem
  · obtain ⟨found, hfound, rfl⟩ := List.mem_map.mp hitem
    obtain ⟨chunk, hchunk⟩ := hsecond found hfound
    exact ⟨chunk, by rw [shifted, hchunk]; rfl⟩

/-- **Runs are read one after the other.** What stands behind bytes from which nothing but chunks is
read is read as it is on its own, but for the place where it stands. So a chunk that is put in
between is read there, and it changes nothing else. -/
theorem items_concatenation {first : ByteArray} (h : ReadsWhole first) (second : ByteArray) :
    (ofBytes (first ++ second)).items
        = (ofBytes first).items ++ (ofBytes second).items.map (shifted first.size) ∧
      ∀ piece chunk, (ofBytes piece).items = [(.ok chunk, piece.size)] →
        (ofBytes (first ++ piece ++ second)).items
          = (ofBytes first).items ++ (.ok chunk, first.size + piece.size)
            :: (ofBytes second).items.map (shifted (first.size + piece.size)) := by
  refine ⟨items_append h second, fun piece chunk hpiece => ?_⟩
  have hwhole : ReadsWhole piece := by
    intro item hitem
    rw [hpiece, List.mem_singleton] at hitem
    exact ⟨chunk, by rw [hitem]⟩
  rw [items_append (h.append hwhole), items_append h, hpiece, ByteArray.size_append,
    List.append_assoc, Nat.add_comm first.size piece.size]
  rfl

/-- A chunk that is not interpreted. -/
def lonePiece : ByteArray :=
  [0x77, 7, 8, 0, 10, 0, 0, 0, 1, 2].toByteArray

/-- A start tag that is nothing but a common header. -/
def bareStartTag : ByteArray :=
  [0x02, 1, 8, 0, 8, 0, 0, 0].toByteArray

/-- A run that ends in an error, on its own, behind a chunk, and behind two: the error tells the
offset where its chunk has come to stand. -/
theorem items_concatenation_bareStartTag :
    ReadsWhole lonePiece ∧
      (ofBytes lonePiece).items = [(.ok (.other ⟨0x0777, 8, [1, 2].toByteArray⟩), 10)] ∧
      (ofBytes bareStartTag).items = [(.error (.malformedChunk 0 .shortNode), 8)] ∧
      (ofBytes (lonePiece ++ bareStartTag)).items
        = [(.ok (.other ⟨0x0777, 8, [1, 2].toByteArray⟩), 10),
          (.error (.malformedChunk 10 .shortNode), 18)] ∧
      (ofBytes (lonePiece ++ lonePiece ++ bareStartTag)).items
        = [(.ok (.other ⟨0x0777, 8, [1, 2].toByteArray⟩), 10),
          (.ok (.other ⟨0x0777, 8, [1, 2].toByteArray⟩), 20),
          (.error (.malformedChunk 20 .shortNode), 28)] := by
  -- the runs on their own are evaluated; those put together are told by the theorem
  have hlone : (ofBytes lonePiece).items
      = [(.ok (.other ⟨0x0777, 8, [1, 2].toByteArray⟩), 10)] := by
    have hnext : (ofBytes lonePiece).next?
        = some (.ok (.other ⟨0x0777, 8, [1, 2].toByteArray⟩), ⟨lonePiece, 0, 10, false⟩) := rfl
    rw [items_of_next?_eq_some hnext, items_of_next?_eq_none (by rfl)]
    rfl
  have hbare : (ofBytes bareStartTag).items = [(.error (.malformedChunk 0 .shortNode), 8)] := by
    have hnext : (ofBytes bareStartTag).next?
        = some (.error (.malformedChunk 0 .shortNode), ⟨bareStartTag, 0, 8, true⟩) := rfl
    rw [items_of_next?_eq_some hnext, items_of_next?_eq_none (by rfl)]
    rfl
  have hwhole : ReadsWhole lonePiece := by
    intro item hitem
    rw [hlone, List.mem_singleton] at hitem
    exact ⟨_, by rw [hitem]⟩
  obtain ⟨hbehind, hspliced⟩ := items_concatenation hwhole bareStartTag
  refine ⟨hwhole, hlone, hbare, ?_, ?_⟩
  · rw [hbehind, hlone, hbare]
    rfl
  · rw [hspliced lonePiece _ hlone, hlone, hbare]
    rfl

end ChunkReader

end BinaryXml
