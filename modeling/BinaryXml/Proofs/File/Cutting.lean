import BinaryXml.Proofs.Chunk.Locality
import BinaryXml.Proofs.File.RoundTrip

/-!
# Runs that are cut

When the bytes of some chunks end early, the chunks in front of the cut are read as if nothing were
missing, and of the chunk that is cut the header is refused, never read as that of a shorter chunk
(`items_of_cut`). A cut between two chunks leaves a run like any other.
-/

namespace BinaryXml

/-! ## Chunks written one after the other -/

/-- A well-formed pool that can be written is one that `append` fills. -/
theorem StringPool.WellFormed.built {pool : StringPool} {total : Nat} (hpool : pool.WellFormed)
    (h : pool.chunkSize = .ok total) : pool.Built :=
  built_of_decode (decode_chunkBytes hpool h 0)

/-- A well-formed chunk that can be written spells itself. -/
theorem Chunk.spells_of_encoded {chunk : Chunk} {piece : ByteArray} (hpool : chunk.WellFormed)
    (hother : ∀ rest, chunk = .other rest → rest.kind ∉ ChunkType.interpreted ∧
      8 ≤ rest.headerSize.toNat ∧ rest.headerSize.toNat ≤ 8 + rest.body.size)
    (hindices : some noIndex ∉ chunk.optionalIndices) (h : chunk.encoded = .ok piece) :
    chunk.Spells piece := by
  obtain ⟨total, hsize, hcount, rfl⟩ := encoded_eq_ok_iff.mp h
  have hchunk : chunk.Representable := by
    cases chunk with
    | stringPool pool => exact StringPool.WellFormed.built hpool hsize
    | other rest => exact hother rest rfl
    | _ => trivial
  exact spells_bytes hchunk hsize hcount hindices

/-- Chunks are written when each of them is, as their pieces in a row. -/
theorem each_write_eq_ok_iff {chunks : List Chunk} {data : ByteArray} :
    (Writing.each Chunk.write chunks).toBytes = .ok data ↔
      ∃ pieces, List.Forall₂ (fun chunk piece => chunk.encoded = .ok piece) chunks pieces ∧
        data = joined pieces := by
  rw [Writing.each_eq_replay .outOfRoom fun chunk _ => chunk.write_eq_replay,
    Writing.toBytes_replay_eq_ok_iff, ChunkFile.inTurn_encoded_eq_iff]

/-! ## Pieces and a cut -/

/-- Where the piece at a place of a row starts, and behind the last one where the row ends. -/
def startOf (pieces : List ByteArray) (i : Nat) : Nat :=
  (joined (pieces.take i)).size

theorem startOf_cons_succ (piece : ByteArray) (rest : List ByteArray) (i : Nat) :
    startOf (piece :: rest) (i + 1) = piece.size + startOf rest i := by
  rw [startOf, List.take_succ_cons, joined_cons, ByteArray.size_append]
  rfl

theorem startOf_succ {pieces : List ByteArray} {i : Nat} (h : i < pieces.length) :
    startOf pieces (i + 1) = startOf pieces i + pieces[i].size := by
  rw [startOf, List.take_succ_eq_append_getElem h, joined_append, ByteArray.size_append,
    joined_cons, joined_nil, ByteArray.append_empty]
  rfl

/-- The pieces that lie in front of a cut are the first so many. -/
theorem exists_count_of_cut (pieces : List ByteArray) (cut : Nat) :
    ∃ count ≤ pieces.length, ∀ i ≤ pieces.length, startOf pieces i ≤ cut ↔ i ≤ count := by
  induction pieces generalizing cut with
  | nil =>
    refine ⟨0, Nat.le_refl 0, fun i hi => ⟨fun _ => hi, fun _ => ?_⟩⟩
    rw [Nat.le_zero.mp hi]
    exact Nat.zero_le cut
  | cons piece rest ih =>
    by_cases hfirst : piece.size ≤ cut
    · obtain ⟨count, hcount, hrest⟩ := ih (cut - piece.size)
      refine ⟨count + 1, Nat.succ_le_succ hcount, fun i hi => ?_⟩
      cases i with
      | zero => exact ⟨fun _ => Nat.zero_le _, fun _ => Nat.zero_le cut⟩
      | succ i =>
        have hplace := hrest i (Nat.le_of_succ_le_succ hi)
        rw [startOf_cons_succ]
        omega
    · -- not even the first piece does
      refine ⟨0, Nat.zero_le _, fun i _ => ?_⟩
      cases i with
      | zero => exact ⟨fun _ => Nat.le_refl 0, fun _ => Nat.zero_le cut⟩
      | succ i =>
        rw [startOf_cons_succ]
        omega

/-- A cut behind some pieces of a row leaves them whole. -/
theorem extract_joined (pieces : List ByteArray) {count cut : Nat}
    (h : startOf pieces count ≤ cut) :
    (joined pieces).extract 0 cut = joined (pieces.take count)
      ++ (joined (pieces.drop count)).extract 0 (cut - startOf pieces count) := by
  have hfront : (joined (pieces.take count)).extract 0 cut = joined (pieces.take count) := by
    conv_lhs => rw [← Nat.max_eq_left h]
    exact ByteArray.extract_zero_max_size
  have hsplit : joined pieces = joined (pieces.take count) ++ joined (pieces.drop count) := by
    rw [← joined_append, List.take_append_drop]
  rw [hsplit, ByteArray.extract_append, hfront, Nat.zero_sub]
  rfl

/-- A cut inside the first piece of a row leaves nothing of those behind it. -/
theorem extract_joined_drop {pieces : List ByteArray} {i cut : Nat} (h : i < pieces.length)
    (hcut : cut ≤ pieces[i].size) :
    (joined (pieces.drop i)).extract 0 cut = pieces[i].extract 0 cut := by
  rw [List.drop_eq_getElem_cons h, joined_cons, ByteArray.extract_append,
    Nat.sub_eq_zero_of_le hcut, Nat.zero_sub, ByteArray.extract_same, ByteArray.append_empty]

namespace ChunkReader

/-! ## What is read of them -/

theorem map_fst_wholeItems {chunks : List Chunk} {pieces : List ByteArray}
    (h : List.Forall₂ Chunk.Spells chunks pieces) (offset : Nat) :
    (wholeItems offset chunks pieces).map (·.1) = chunks.map .ok := by
  induction h generalizing offset with
  | nil => rfl
  | cons _ _ ih => rw [wholeItems, List.map_cons, List.map_cons, ih]

/-- **A piece that is cut inside is refused.** -/
theorem items_of_cut_piece {chunk : Chunk} {piece : ByteArray} (hspells : chunk.Spells piece)
    {cut : Nat} (hpos : 0 < cut) (hcut : cut < piece.size) :
    (ofBytes (piece.extract 0 cut)).items
      = [(.error (.truncatedChunk 0 (if cut < 8 then 8 else piece.size) cut), 0)] := by
  obtain ⟨header, hread, hsize, -⟩ := hspells
  have hlength : (piece.extract 0 cut).size = cut := by
    rw [ByteArray.size_extract]
    omega
  have hfront : front (piece.extract 0 cut) 0
      = (.error (.truncatedChunk 0 (if cut < 8 then 8 else piece.size) cut), 0) := by
    rw [front, ChunkHeader.read_cut hread (by omega), hsize]
  have hopen : (ofBytes (piece.extract 0 cut)).stopped = false := rfl
  have hoffset : (ofBytes (piece.extract 0 cut)).offset = 0 := rfl
  have hnext := next?_eq_some_iff.mpr ⟨hopen, by rwa [ahead_ofBytes, hlength], 0,
    by rw [ahead_ofBytes, hoffset, hfront], rfl⟩
  rw [items_of_next?_eq_some hnext, items_of_next?_eq_none (next?_eq_none_iff.mpr (.inl rfl))]
  rfl

/-- The error for the piece that is cut behind the first `count`, if one is. -/
def cutError (pieces : List ByteArray) (count cut : Nat) : List (Except Error Chunk) :=
  let start := startOf pieces count
  if cut = start then []
  else [.error (.truncatedChunk start
    (if cut - start < 8 then 8 else startOf pieces (count + 1) - start) (cut - start))]

/-- What is read from a row of pieces that is cut: the chunks of the whole pieces, and the error for
the piece that is cut. -/
theorem items_of_cut_pieces {chunks : List Chunk} {pieces : List ByteArray}
    (hspells : List.Forall₂ Chunk.Spells chunks pieces) {count cut : Nat}
    (hcount : ∀ i ≤ pieces.length, startOf pieces i ≤ cut ↔ i ≤ count)
    (hlast : count ≤ pieces.length) (hcut : cut ≤ (joined pieces).size) :
    (ofBytes ((joined pieces).extract 0 cut)).items.map (·.1)
      = (chunks.take count).map .ok ++ cutError pieces count cut := by
  have hstart : startOf pieces count ≤ cut := (hcount count hlast).mpr (Nat.le_refl count)
  have hwhole := List.forall₂_take count hspells
  rw [extract_joined pieces hstart, items_joined_append hwhole, List.map_append,
    map_fst_wholeItems hwhole]
  unfold cutError
  congr 1
  by_cases hboundary : cut = startOf pieces count
  · rw [if_pos hboundary, hboundary, Nat.sub_self, ByteArray.extract_same, items_empty]
    rfl
  · rw [if_neg hboundary]
    -- the cut is behind the start of a piece, so there is one, and it does not end in front of it
    have hmore : count < pieces.length := by
      refine Nat.lt_of_le_of_ne hlast fun hall => hboundary (Nat.le_antisymm ?_ hstart)
      rwa [startOf, hall, List.take_length]
    have hend := startOf_succ hmore
    have hinside : cut < startOf pieces (count + 1) := by
      rw [← Nat.not_le, hcount _ hmore]
      omega
    have hlength := hspells.length_eq
    have hpiece : chunks[count].Spells pieces[count] := hspells.get _ _
    have hsize : pieces[count].size = startOf pieces (count + 1) - startOf pieces count := by omega
    rw [extract_joined_drop hmore (by omega),
      items_of_cut_piece hpiece (by omega) (by omega), hsize]
    show [Except.error (Error.truncatedChunk (0 + startOf pieces count) _ _)] = _
    rw [Nat.zero_add]

/-- **A run that is cut keeps its whole chunks.** What is left of the bytes of some chunks is read
as those of them that lie in front of the cut, and then, unless the cut stands between two chunks,
as one error at the start of the chunk that is cut. -/
theorem items_of_cut {chunks : List Chunk} {data : ByteArray} {cut : Nat}
    (hpools : ∀ chunk ∈ chunks, chunk.WellFormed)
    (hothers : ∀ rest, .other rest ∈ chunks → rest.kind ∉ ChunkType.interpreted ∧
      8 ≤ rest.headerSize.toNat ∧ rest.headerSize.toNat ≤ 8 + rest.body.size)
    (hindices : ∀ chunk ∈ chunks, some noIndex ∉ chunk.optionalIndices)
    (hdata : (Writing.each Chunk.write chunks).toBytes = .ok data) (hcut : cut ≤ data.size) :
    ∃ pieces count, data = joined pieces ∧
      List.Forall₂ (fun chunk piece => chunk.write.toBytes = .ok piece) chunks pieces ∧
      count ≤ chunks.length ∧ (∀ i ≤ chunks.length, startOf pieces i ≤ cut ↔ i ≤ count) ∧
      (ofBytes (data.extract 0 cut)).items.map (·.1)
        = (chunks.take count).map .ok ++ cutError pieces count cut ∧
      (ofBytes (data.extract 0 cut)).exhausted.next? = none := by
  obtain ⟨pieces, hpieces, rfl⟩ := each_write_eq_ok_iff.mp hdata
  have hwritten : List.Forall₂ (fun chunk piece => chunk.write.toBytes = .ok piece) chunks pieces :=
    hpieces.imp fun chunk piece h => chunk.write_toBytes_eq_encoded.trans h
  -- the assumptions are about the chunks of the list, so each piece keeps its membership
  have hmembers : List.Forall₂ (fun chunk piece => chunk ∈ chunks ∧ chunk.encoded = .ok piece)
      chunks pieces := (List.forall₂_and_left _ _).mpr ⟨fun _ hmem => hmem, hpieces⟩
  have hspells : List.Forall₂ Chunk.Spells chunks pieces := by
    refine hmembers.imp ?_
    rintro chunk piece ⟨hmem, hpiece⟩
    exact Chunk.spells_of_encoded (hpools chunk hmem)
      (fun rest hrest => hothers rest (hrest ▸ hmem)) (hindices chunk hmem) hpiece
  have hlength := hspells.length_eq
  obtain ⟨count, hlast, hcount⟩ := exists_count_of_cut pieces cut
  rw [← hlength] at hlast hcount
  exact ⟨pieces, count, rfl, hwritten, hlast, hcount,
    items_of_cut_pieces hspells (hlength ▸ hcount) (hlength ▸ hlast) hcut, next?_exhausted _⟩

/-- A cut three bytes into the third chunk: two chunks are read, and of the third not even its
header. -/
theorem items_of_cut_twoPools :
    ∃ data, (Writing.each Chunk.write ChunkFile.twoPools.chunks).toBytes = .ok data ∧
      (ofBytes (data.extract 0 75)).items.map (·.1)
        = (ChunkFile.twoPools.chunks.take 2).map .ok ++ [.error (.truncatedChunk 72 8 3)] := by
  obtain ⟨data, hdata, hcut⟩ :
      ∃ data, (Writing.each Chunk.write ChunkFile.twoPools.chunks).toBytes = .ok data ∧
        75 ≤ data.size := ⟨_, rfl, by decide +kernel⟩
  obtain ⟨pieces, count, -, hpieces, hlast, hcount, hitems, -⟩ := items_of_cut
    (fun chunk hchunk => (ChunkFile.representable_of_mem_twoPools chunk hchunk).wellFormed)
    (fun rest hrest => ChunkFile.representable_of_mem_twoPools _ hrest) (by decide) hdata hcut
  have hstarts : startOf pieces 2 = 72 ∧ startOf pieces 3 = 128 := by
    -- the third piece starts behind 72 bytes and ends behind 128, so 75 is a cut within it
    obtain _ | ⟨hpool, _ | ⟨hempty, _ | ⟨htag, -⟩⟩⟩ := hpieces
    cases hpool
    cases hempty
    cases htag
    exact ⟨rfl, rfl⟩
  have htwo := hcount 2 (by decide)
  have hthree := hcount 3 (by decide)
  rw [hstarts.1] at htwo
  rw [hstarts.2] at hthree
  obtain rfl : count = 2 := by omega
  refine ⟨data, hdata, ?_⟩
  rw [hitems, cutError, hstarts.1, hstarts.2]
  rfl

end ChunkReader

end BinaryXml
