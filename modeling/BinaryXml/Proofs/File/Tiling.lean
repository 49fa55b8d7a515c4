import BinaryXml.Proofs.Chunk.Failing
import BinaryXml.Proofs.Chunk.Locality
import BinaryXml.Proofs.File.RoundTrip

/-!
# How a reader cuts its input

The items of a reader tile the bytes that it reads: each starts where the one in front of it ends, a
chunk takes the bytes that its header declares and is decoded from these alone, and an error is the
last item (`Tiles`). What is said of offsets, of the number of items and of where the reading ends
follows from that, for the bytes of a document as for those that hold nothing but chunks
(`tiles_input`).
-/

namespace BinaryXml

open Reading

/-- The place in the input that an error names, if it names one. A failed read tells a position in
its chunk, which is none. -/
def Error.offset? : Error → Option Nat
  | truncatedChunk offset _ _ | unexpectedChunkType offset _ _ | invalidChunkHeader offset _ _
  | malformedChunk offset _ => some offset
  | _ => none

theorem ChunkHeader.Refused.offset?_eq {offset : Nat} {error : Error} (h : Refused offset error) :
    error.offset? = some offset := by
  cases h <;> rfl

/-- Whatever place the error of a chunk names is that of the chunk. -/
theorem Chunk.Refused.offset_eq {header : ChunkHeader} {piece : ByteArray} {start : Nat}
    {error : Error} (h : Refused header piece start error) :
    ∀ offset ∈ error.offset?, offset = start := by
  rintro offset hoffset
  cases h with
  | malformed h =>
    obtain ⟨reason, rfl⟩ := h
    cases hoffset
    rfl
  | pool _ h =>
    cases h <;> cases hoffset
    rfl

/-! ## A header in the input -/

/-- In the first `limit` bytes a header stands at `start` and all that it declares behind it. -/
structure ChunkHeader.StandsAt (header : ChunkHeader) (data : ByteArray) (limit start : Nat) :
    Prop where
  read_header : (record layout).runAt data start = .ok header
  read_size : (record .u32).runAt data (start + 4) = .ok header.size
  eight_le_headerSize : 8 ≤ header.headerSize.toNat
  headerSize_le_size : header.headerSize.toNat ≤ header.size.toNat
  end_le : start + header.size.toNat ≤ limit

/-- A header is accepted in a part of the input exactly when it stands there with all that it
declares. -/
theorem ChunkHeader.read_extract_eq_ok_iff {header : ChunkHeader} {data : ByteArray}
    {limit start offset : Nat} (hstart : start ≤ limit) (hlimit : limit ≤ data.size) :
    ChunkHeader.read (data.extract start limit) 0 offset = .ok header ↔
      header.StandsAt data limit start := by
  have hwidth : layout.width = 8 := rfl
  rw [read_eq_ok_iff, ByteArray.size_extract]
  constructor
  · rintro ⟨hread, hlong, hfits, havailable⟩
    rw [runAt_extract layout (by omega) hlimit] at hread
    exact ⟨hread, runAt_size hread, hlong, hfits, by omega⟩
  · rintro ⟨hread, -, hlong, hfits, hend⟩
    rw [runAt_extract layout (by omega) hlimit]
    exact ⟨hread, hlong, hfits, by omega⟩

/-! ## Tiles -/

namespace ChunkReader

/-- From `start` on the items cut the first `limit` bytes into pieces, one behind the other. -/
inductive Tiles (data : ByteArray) (limit : Nat) :
    Nat → List (Except Error Chunk × Nat) → Prop where
  /-- Nothing is left. -/
  | done : Tiles data limit limit []
  /-- A chunk is decoded from the bytes that its header declares, and the rest starts behind them.
  -/
  | chunk {start : Nat} {header : ChunkHeader} {chunk : Chunk}
    {rest : List (Except Error Chunk × Nat)} (stands : header.StandsAt data limit start)
    (decodes : Chunk.decode header (data.extract start (start + header.size.toNat)) start
      = .ok chunk)
    (tiles : Tiles data limit (start + header.size.toNat) rest) :
    Tiles data limit start ((.ok chunk, start + header.size.toNat) :: rest)
  /-- The contents of a chunk are refused, and the reading ends behind it. -/
  | payload {start : Nat} {header : ChunkHeader} {error : Error}
    (stands : header.StandsAt data limit start)
    (decodes : Chunk.decode header (data.extract start (start + header.size.toNat)) start
      = .error error)
    (names : ∀ offset ∈ error.offset?, offset = start) :
    Tiles data limit start [(.error error, start + header.size.toNat)]
  /-- The header of a chunk is refused, and the reading ends in front of it. -/
  | header {start : Nat} {error : Error} (more : start < limit)
    (refused : ∀ header : ChunkHeader, ¬ header.StandsAt data limit start)
    (names : error.offset? = some start) : Tiles data limit start [(.error error, start)]

/-- Where the items start that are read from `start` on, each at the offset behind the one before.
-/
def starts (start : Nat) : List (Except Error Chunk × Nat) → List Nat
  | [] => []
  | item :: rest => start :: starts item.2 rest

/-- The offset behind the last of the items that are read from `start` on. -/
def stop (start : Nat) : List (Except Error Chunk × Nat) → Nat
  | [] => start
  | item :: rest => stop item.2 rest

namespace Tiles

variable {data : ByteArray} {limit start : Nat} {items : List (Except Error Chunk × Nat)}

/-- No tile starts in front of the first. -/
theorem le_of_mem_starts (h : Tiles data limit start items) :
    ∀ place ∈ starts start items, start ≤ place := by
  induction h with
  | done => nofun
  | chunk _ _ _ ih =>
    refine List.forall_mem_cons.mpr ⟨Nat.le_refl _, fun place hplace => ?_⟩
    exact Nat.le_trans (Nat.le_add_right _ _) (ih place hplace)
  | payload | header => exact List.forall_mem_singleton.mpr (Nat.le_refl _)

/-- Each tile starts behind the start of the one before it, since a header has eight bytes. -/
theorem pairwise_starts (h : Tiles data limit start items) :
    (starts start items).Pairwise (· < ·) := by
  induction h with
  | done => exact .nil
  | chunk stands _ tiles ih =>
    refine .cons (fun place hplace => ?_) ih
    have hbehind := tiles.le_of_mem_starts place hplace
    have hlong := stands.eight_le_headerSize
    have hfits := stands.headerSize_le_size
    omega
  | payload | header => exact List.pairwise_singleton _ _

/-- Every item but the last takes the bytes of a header. -/
theorem length_le (h : Tiles data limit start items) :
    8 * items.length ≤ limit - start + 8 := by
  induction h with
  | done => exact Nat.zero_le _
  | chunk stands _ _ ih =>
    have hlong := stands.eight_le_headerSize
    have hfits := stands.headerSize_le_size
    have hend := stands.end_le
    rw [List.length_cons]
    omega
  | payload | header => exact Nat.le_add_left _ _

/-- Tiles without an error reach the end. -/
theorem stop_eq_limit (h : Tiles data limit start items)
    (hwhole : ∀ item ∈ items, ∃ chunk, item.1 = .ok chunk) : stop start items = limit := by
  induction h with
  | done => rfl
  | chunk _ _ _ ih => exact ih fun item hitem => hwhole item (List.mem_cons_of_mem _ hitem)
  | payload | header =>
    obtain ⟨chunk, hchunk⟩ := hwhole _ List.mem_cons_self
    cases hchunk

end Tiles

/-! ## Readers -/

/-- The reader that is left stands behind the last item. -/
theorem offset_exhausted (reader : ChunkReader) :
    reader.exhausted.offset = stop reader.offset reader.items := by
  induction reader using run_induction with
  | ended reader hnext => rw [exhausted_of_next?_eq_none hnext, items_of_next?_eq_none hnext, stop]
  | step reader item after hnext ih =>
    rw [exhausted_of_next?_eq_some hnext, items_of_next?_eq_some hnext, stop, ih]

/-- **One item is one tile.** The rest are tiles behind a chunk, and there is none behind an error.
-/
theorem tiles_of_front {data : ByteArray} {limit start count : Nat} {item : Except Error Chunk}
    {rest : List (Except Error Chunk × Nat)} (hmore : start < limit) (hlimit : limit ≤ data.size)
    (hfront : front (data.extract start limit) start = (item, count))
    (hok : ∀ chunk, item = .ok chunk → start + count ≤ limit →
      Tiles data limit (start + count) rest)
    (herror : ∀ error, item = .error error → rest = []) :
    Tiles data limit start ((item, start + count) :: rest) := by
  unfold front at hfront
  split at hfront
  · -- no header stands here, or it would have been accepted
    rename_i error hread
    cases hfront
    rw [herror error rfl]
    have hrefused := ChunkHeader.refused_of_read _ _ _ _ hread
    refine .header hmore (fun header hstands => ?_) hrefused.offset?_eq
    rw [(ChunkHeader.read_extract_eq_ok_iff hmore.le hlimit).mpr hstands] at hread
    cases hread
  · -- the header stands here, and the chunk is cut out of the input as it is out of the part
    rename_i header hread
    have hstands := (ChunkHeader.read_extract_eq_ok_iff hmore.le hlimit).mp hread
    have hend := hstands.end_le
    have hpiece : (data.extract start limit).extract 0 header.size.toNat
        = data.extract start (start + header.size.toNat) := by
      rw [ByteArray.extract_extract, Nat.add_zero, Nat.min_eq_left hend]
    rw [hpiece, Prod.mk.injEq] at hfront
    obtain ⟨hdecode, rfl⟩ := hfront
    cases item with
    | ok chunk => exact .chunk hstands hdecode (hok chunk rfl hend)
    | error error =>
      have hrefused := Chunk.refused_of_decode_extract hstands.read_header
        (hstands.eight_le_headerSize.trans hstands.headerSize_le_size) (hend.trans hlimit)
        start error hdecode
      rw [herror error rfl]
      exact .payload hstands hdecode hrefused.offset_eq

/-- **The items of a reader tile what is ahead of it.** -/
theorem tiles_items {reader : ChunkReader} {data : ByteArray} {limit : Nat}
    (hopen : reader.stopped = false) (hlimit : limit ≤ data.size) (hoffset : reader.offset ≤ limit)
    (hahead : reader.ahead = data.extract reader.offset limit) :
    Tiles data limit reader.offset reader.items := by
  have hsize : ∀ start, (data.extract start limit).size = limit - start := by
    intro start
    rw [ByteArray.size_extract, Nat.min_eq_left hlimit]
  -- a chunk leaves ahead of the reader what stands behind it in front of the limit
  induction reader using run_induction with
  | ended reader hnext =>
    rw [items_of_next?_eq_none hnext]
    rw [next?_eq_none_iff_size_ahead, hopen, hahead, hsize] at hnext
    have hleft := hnext.resolve_left Bool.false_ne_true
    obtain rfl : reader.offset = limit := by omega
    exact .done
  | step reader item after hnext ih =>
    obtain ⟨-, hmore, count, hfront, rfl⟩ := next?_eq_some_iff.mp hnext
    rw [hahead, hsize] at hmore
    rw [hahead] at hfront
    rw [items_of_next?_eq_some hnext, offset_movedBehind]
    rw [offset_movedBehind] at ih
    refine tiles_of_front (by omega) hlimit hfront ?_ ?_
    · rintro chunk rfl hend
      refine ih rfl hend ?_
      rw [ahead_movedBehind, hahead, hsize, ByteArray.extract_extract]
      congr 1
      omega
    · rintro error rfl
      exact items_of_next?_eq_none (next?_eq_none_iff.mpr (.inl rfl))

/-- What a reader reads of the bytes from `base` up to `limit`. -/
structure TilesInput (reader : ChunkReader) (data : ByteArray) (base limit : Nat) : Prop where
  limit_le : limit ≤ data.size
  /-- The reading starts at `base`. -/
  offset_eq : reader.offset = base
  tiles : Tiles data limit base reader.items
  pairwise_starts : (starts base reader.items).Pairwise (· < ·)
  /-- The reading ends behind the last item, -/
  offset_exhausted : reader.exhausted.offset = stop base reader.items
  /-- and with no error among the items all bytes have been read then. -/
  stop_eq : (∀ item ∈ reader.items, ∃ chunk, item.1 = .ok chunk) → stop base reader.items = limit
  length_le : reader.items.length ≤ (limit - base) / 8 + 1
  /-- Behind the items there is nothing more. -/
  next?_exhausted : reader.exhausted.next? = none

theorem tilesInput_of_ahead {reader : ChunkReader} {data : ByteArray} {limit : Nat}
    (hopen : reader.stopped = false) (hlimit : limit ≤ data.size) (hoffset : reader.offset ≤ limit)
    (hahead : reader.ahead = data.extract reader.offset limit) :
    reader.TilesInput data reader.offset limit := by
  have htiles := tiles_items hopen hlimit hoffset hahead
  have hlength := htiles.length_le
  exact ⟨hlimit, rfl, htiles, htiles.pairwise_starts, reader.offset_exhausted, htiles.stop_eq_limit,
    by omega, reader.next?_exhausted⟩

/-- **Readers tile their input**: that of some bytes from their start to their end, and that of a
document from the end of its header to the end that its header declares. -/
theorem tiles_input (data : ByteArray) :
    (ofBytes data).TilesInput data 0 data.size ∧
      ∀ reader, ofDocument data = .ok reader →
        ∃ header : ChunkHeader, header.StandsAt data data.size 0 ∧
          reader.TilesInput data header.headerSize.toNat header.size.toNat := by
  constructor
  · exact tilesInput_of_ahead rfl (Nat.le_refl _) (Nat.zero_le _)
      ((ahead_ofBytes data).trans ByteArray.extract_zero_size.symm)
  · -- the run of a document is what its header leaves of the input
    intro reader hreader
    obtain ⟨header, hread, -, rfl⟩ := ChunkFile.ofDocument_eq_ok_iff.mp hreader
    have hstands : header.StandsAt data data.size 0 := by
      rw [← ChunkHeader.read_extract_eq_ok_iff (Nat.zero_le _) (Nat.le_refl _),
        ByteArray.extract_zero_size]
      exact hread
    have hlimit := hstands.end_le
    rw [Nat.zero_add] at hlimit
    exact ⟨header, hstands, tilesInput_of_ahead rfl hlimit hstands.headerSize_le_size
      ByteArray.extract_zero_size⟩

/-- Two chunks, the first with a header that is longer than it need be, and a byte behind the
document that is not read. -/
theorem tiles_input_strayBytes :
    ∃ reader, ofDocument ChunkFile.strayBytes = .ok reader ∧
      reader.TilesInput ChunkFile.strayBytes 8 38 ∧ starts 8 reader.items = [8, 24] ∧
      stop 8 reader.items = 38 := by
  have hreader : ofDocument ChunkFile.strayBytes
      = .ok ⟨ChunkFile.strayBytes.extract 8 38, 8, 0, false⟩ := rfl
  obtain ⟨header, hstands, htiles⟩ := (tiles_input ChunkFile.strayBytes).2 _ hreader
  have hheader : (record ChunkHeader.layout).runAt ChunkFile.strayBytes 0
      = .ok ⟨ChunkType.document, 8, 38⟩ := rfl
  rw [hstands.read_header] at hheader
  cases hheader
  have hfirst : next? ⟨ChunkFile.strayBytes.extract 8 38, 8, 0, false⟩
      = some (.ok (.resourceMap [0x01010001]),
        ⟨ChunkFile.strayBytes.extract 8 38, 8, 16, false⟩) := rfl
  have hsecond : next? ⟨ChunkFile.strayBytes.extract 8 38, 8, 16, false⟩
      = some (.ok (.other ⟨0x0777, 10, [1, 2, 3, 4, 5, 6].toByteArray⟩),
        ⟨ChunkFile.strayBytes.extract 8 38, 8, 30, false⟩) := rfl
  refine ⟨_, hreader, htiles, ?_⟩
  rw [items_of_next?_eq_some hfirst, items_of_next?_eq_some hsecond,
    items_of_next?_eq_none (by rfl)]
  exact ⟨rfl, rfl⟩

end ChunkReader

end BinaryXml
