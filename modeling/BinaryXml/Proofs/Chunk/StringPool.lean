import BinaryXml.Proofs.Chunk.Failing
import BinaryXml.Proofs.StringPool.Filling

/-!
# String pools, wherever their entries stand

A string pool chunk says itself how long its header is, how many strings it holds, and between which
places their entries are. It is read when the table behind its header is whole and each offset of
the table leads to an entry there (`decode_stringPool`). The entries may stand in any order, apart
from each other, on top of each other, or be led to twice; the pool that is read has them in the
table's order.
-/

namespace BinaryXml.StringPool

/-! ## What the words of a chunk tell -/

/-- The header of a string pool chunk, whose words stand behind the chunk's own header. -/
def headerTold (header : ChunkHeader) (chunk : ByteArray) : PoolHeader where
  chunk := header
  stringCount := Layout.u32.valueAt chunk 8
  styleCount := Layout.u32.valueAt chunk 12
  flags := Layout.u32.valueAt chunk 16
  stringsStart := Layout.u32.valueAt chunk 20
  stylesStart := Layout.u32.valueAt chunk 24

/-- Where the strings of a string pool chunk are. -/
structure StringTable where
  encoding : StringEncoding
  count : Nat
  /-- The place of the table with the offsets of the entries. -/
  offsets : Nat
  /-- The entries stand here or further on, and the offsets are counted from here. -/
  start : Nat
  /-- The entries end here or before. -/
  stop : Nat
  deriving DecidableEq, Repr

namespace StringTable

/-- What the header of a chunk of `size` bytes tells. The strings end where the style data starts,
if there is any and it starts behind them, and else with the chunk. -/
def ofHeader (header : PoolHeader) (size : Nat) : StringTable where
  encoding := if header.flags &&& PoolHeader.utf8Flag ≠ 0 then .utf8 else .utf16
  count := header.stringCount.toNat
  offsets := header.chunk.headerSize.toNat
  start := header.stringsStart.toNat
  stop :=
    if 0 < header.styleCount ∧ header.stringsStart < header.stylesStart then
      header.stylesStart.toNat
    else size

/-- What a chunk behind its own header tells. -/
def toldBy (header : ChunkHeader) (chunk : ByteArray) : StringTable :=
  ofHeader (headerTold header chunk) chunk.size

/-- The offset at an index of the table leads to the entry of a string. -/
def Spells (table : StringTable) (chunk : ByteArray) (index : Nat) (s : String) : Prop :=
  StringEntry.EntryAt chunk table.stop
    (table.start + (Layout.u32.valueAt chunk (table.offsets + 4 * index)).toNat) s table.encoding

/-- The table and all the entries that it leads to lie within the chunk. -/
structure HeldBy (table : StringTable) (chunk : ByteArray) : Prop where
  header_le : 28 ≤ table.offsets
  offsets_le : table.offsets + 4 * table.count ≤ chunk.size
  entries : table.count = 0 ∨
    table.start ≤ table.stop ∧ table.stop ≤ chunk.size ∧
      ∀ index < table.count, ∃ s, table.Spells chunk index s

/-- The pool holds the strings of the table, one for each of its offsets and in their order. -/
structure ReadAs (table : StringTable) (chunk : ByteArray) (pool : StringPool) : Prop where
  encoding_eq : pool.encoding = table.encoding
  spells : List.Forall₂ (table.Spells chunk) (List.range table.count) pool.strings.toList

end StringTable

/-! ## Reading the chunk -/

variable {header : ChunkHeader} {data chunk : ByteArray} {position offset : Nat}

/-- The header of a pool is read when there are 28 bytes, and its words are the ones behind the
header of the chunk. -/
theorem runAt_header_eq_ok_iff (h : header.CutsOut data position offset chunk)
    {found : PoolHeader} :
    (Reading.record PoolHeader.layout).runAt chunk 0 = .ok found ↔
      28 ≤ chunk.size ∧ found = headerTold header chunk := by
  have hwidth : 0 + PoolHeader.layout.width = 28 := rfl
  rw [Reading.runAt_record_eq_ok_iff_valueAt, hwidth]
  refine and_congr_right fun hlong => ?_
  rw [PoolHeader.valueAt_layout (by omega), h.valueAt_eq]
  rfl

/-- A table is read when all of it is there, and each of its words is read from its own place. -/
theorem runAt_table_eq_ok_iff {count place : Nat} {offsets : List UInt32}
    (hplace : place ≤ chunk.size) :
    (Reading.list .u32 count).runAt chunk place = .ok offsets ↔
      place + 4 * count ≤ chunk.size ∧
        offsets = (List.range count).map fun i => Layout.u32.valueAt chunk (place + 4 * i) := by
  rw [Reading.u32, Reading.runAt_list_record_eq_ok_iff, Layout.width_u32]
  refine and_congr_left fun _ => ?_
  constructor
  · intro hall
    by_cases hnone : count = 0
    · omega
    · have hlast := hall (count - 1) (by omega)
      omega
  · intro htable i hi
    omega

section

variable {table : StringTable} {pool : StringPool}

/-- The strings of a table are put into an empty pool exactly when the table leads to them and the
pool is well-formed with them. -/
theorem appendEntriesAt_table_eq_ok_iff (hstart : table.start ≤ table.stop)
    (hstop : table.stop ≤ chunk.size) :
    appendEntriesAt (chunk.extract table.start table.stop)
        ((List.range table.count).map fun i => Layout.u32.valueAt chunk (table.offsets + 4 * i))
        { encoding := table.encoding } = .ok pool ↔
      table.ReadAs chunk pool ∧ pool.WellFormed := by
  rw [appendEntriesAt_eq_ok_iff (wellFormed_empty _)]
  simp only [List.forall₂_map_left_iff, StringEntry.decode_extract_eq_some_iff hstart hstop,
    List.nil_append]
  constructor
  · rintro ⟨hpool, hencoding, strings, hspells, rfl⟩
    exact ⟨⟨hencoding, hspells⟩, hpool⟩
  · rintro ⟨⟨hencoding, hspells⟩, hpool⟩
    exact ⟨hpool, hencoding, _, hspells, rfl⟩

/-- Strings that all have entries are those of a pool, when there is room for the entries. -/
theorem exists_wellFormed {encoding : StringEncoding} {strings : List String}
    (hsized : ∀ s ∈ strings, ∃ n, StringEntry.size encoding s = .ok n)
    (hfits : entriesSize encoding strings < UInt32.size) :
    ∃ pool : StringPool,
      pool.WellFormed ∧ pool.encoding = encoding ∧ pool.strings.toList = strings := by
  obtain ⟨pool, -, hpool, hencoding, hstrings⟩ := appendEntriesAt_entries strings
    (wellFormed_empty encoding) hsized (by rwa [Nat.zero_add]) .empty
  exact ⟨pool, hpool, hencoding, hstrings⟩

/-- Only the empty pool has the strings of a table without offsets. -/
theorem eq_empty_iff (hnone : table.count = 0) :
    pool = { encoding := table.encoding } ↔ table.ReadAs chunk pool ∧ pool.WellFormed := by
  constructor
  · rintro rfl
    refine ⟨⟨rfl, ?_⟩, wellFormed_empty _⟩
    rw [hnone]
    exact .nil
  · rintro ⟨⟨hencoding, hspells⟩, hpool⟩
    rw [hnone, List.range_zero, List.forall₂_nil_left_iff] at hspells
    exact hpool.eq_of_strings_eq (wellFormed_empty _) hencoding (Array.toList_inj.mp hspells)

theorem StringTable.ReadAs.exists_spells (h : table.ReadAs chunk pool) :
    ∀ index < table.count, ∃ s, table.Spells chunk index s := by
  intro index hindex
  obtain ⟨s, -, hs⟩ := exists_mem_right_of_forall₂ h.spells index (List.mem_range.mpr hindex)
  exact ⟨s, hs⟩

end

/-- Behind its header, a pool is read exactly when it is a pool of the strings that the table leads
to. -/
theorem decode_eq_ok_iff_of_header {found : PoolHeader} {table : StringTable} {pool : StringPool}
    (hfound : (Reading.record PoolHeader.layout).runAt chunk 0 = .ok found)
    (hheader : found.chunk.headerSize.toNat ≤ chunk.size)
    (htable : table = .ofHeader found chunk.size) :
    decode chunk offset = .ok pool ↔
      table.HeldBy chunk ∧ table.ReadAs chunk pool ∧ pool.WellFormed := by
  -- the conditions in the order of the reads, with the words of the table put in
  have hread : decode chunk offset = .ok pool ↔
      28 ≤ table.offsets ∧ table.offsets + 4 * table.count ≤ chunk.size ∧
        (table.count = 0 ∧ pool = { encoding := table.encoding } ∨
          table.count ≠ 0 ∧ table.start ≤ table.stop ∧ table.stop ≤ chunk.size ∧
            appendEntriesAt (chunk.extract table.start table.stop)
              ((List.range table.count).map fun i =>
                Layout.u32.valueAt chunk (table.offsets + 4 * i))
              { encoding := table.encoding } = .ok pool) := by
    rw [decode_eq_ok_iff, htable]
    constructor
    · rintro ⟨told, offsets, htold, hsize, hwords, hpool⟩
      obtain rfl : found = told := Except.ok.inj (hfound.symm.trans htold)
      obtain ⟨hoffsets, rfl⟩ := (runAt_table_eq_ok_iff hheader).mp hwords
      exact ⟨hsize, hoffsets, hpool⟩
    · rintro ⟨hsize, hoffsets, hpool⟩
      exact ⟨found, _, hfound, hsize, (runAt_table_eq_ok_iff hheader).mpr ⟨hoffsets, rfl⟩, hpool⟩
  rw [hread]
  constructor
  · -- without strings the pool is empty, and no place of an entry matters
    rintro ⟨hsize, hoffsets, ⟨hnone, hempty⟩ | ⟨-, hstart, hstop, hentries⟩⟩
    · exact ⟨⟨hsize, hoffsets, .inl hnone⟩, (eq_empty_iff hnone).mp hempty⟩
    · have hread := (appendEntriesAt_table_eq_ok_iff hstart hstop).mp hentries
      exact ⟨⟨hsize, hoffsets, .inr ⟨hstart, hstop, hread.1.exists_spells⟩⟩, hread⟩
  · rintro ⟨⟨hsize, hoffsets, hentries⟩, hread⟩
    refine ⟨hsize, hoffsets, ?_⟩
    by_cases hnone : table.count = 0
    · exact .inl ⟨hnone, (eq_empty_iff hnone).mpr hread⟩
    · obtain ⟨hstart, hstop, -⟩ := hentries.resolve_left hnone
      exact .inr ⟨hnone, hstart, hstop, (appendEntriesAt_table_eq_ok_iff hstart hstop).mpr hread⟩

/-- A pool is read exactly when the table that its words tell is whole and leads to the pool's
strings. -/
theorem decode_eq_ok_iff_toldBy (h : header.CutsOut data position offset chunk)
    {pool : StringPool} :
    decode chunk offset = .ok pool ↔
      (StringTable.toldBy header chunk).HeldBy chunk ∧
        (StringTable.toldBy header chunk).ReadAs chunk pool ∧ pool.WellFormed := by
  by_cases hlong : 28 ≤ chunk.size
  · have hfound := (runAt_header_eq_ok_iff h).mpr ⟨hlong, rfl⟩
    exact decode_eq_ok_iff_of_header hfound h.headerSize_le rfl
  · -- a header that is too long for the chunk is not accepted in the first place
    have hheader := h.headerSize_le
    constructor
    · intro hdecode
      obtain ⟨found, -, hfound, -, -, -⟩ := decode_eq_ok_iff.mp hdecode
      exact absurd ((runAt_header_eq_ok_iff h).mp hfound).1 hlong
    · rintro ⟨hheld, -⟩
      exact absurd (Nat.le_trans hheld.header_le hheader) hlong

/-! ## The strings of a table -/

section

variable {table : StringTable}

/-- A string of the chunk has an entry of its own in a pool. -/
theorem StringTable.exists_size_of_spells (h : header.CutsOut data position offset chunk)
    (hkind : header.kind = ChunkType.stringPool) (hstop : table.stop ≤ chunk.size) {index : Nat}
    {s : String} (hs : table.Spells chunk index s) :
    ∃ n, StringEntry.size table.encoding s = .ok n := by
  have hsize := h.size_lt
  exact StringEntry.not_tooLong_iff.mp
    (StringEntry.not_tooLong_of_entryAt hstop (by omega) (firstWord_ne_of_tag h.runAt_eq hkind) hs)

/-- The strings of a table fill a pool when their entries do not take too much room together. -/
theorem StringTable.HeldBy.exists_readAs (h : header.CutsOut data position offset chunk)
    (hkind : header.kind = ChunkType.stringPool) (hheld : table.HeldBy chunk)
    (hfits : ∀ strings, List.Forall₂ (table.Spells chunk) (List.range table.count) strings →
      entriesSize table.encoding strings < UInt32.size) :
    ∃ pool, table.ReadAs chunk pool ∧ pool.WellFormed := by
  rcases hheld.entries with hnone | ⟨-, hstop, hspelled⟩
  · exact ⟨_, (eq_empty_iff hnone).mp rfl⟩
  · obtain ⟨strings, hstrings⟩ := exists_forall₂_of_forall fun index hindex =>
      hspelled index (List.mem_range.mp hindex)
    have hsized : ∀ s ∈ strings, ∃ n, StringEntry.size table.encoding s = .ok n := by
      intro s hs
      obtain ⟨index, -, hspells⟩ := exists_mem_left_of_forall₂ hstrings s hs
      exact StringTable.exists_size_of_spells h hkind hstop hspells
    obtain ⟨pool, hpool, hencoding, rfl⟩ := exists_wellFormed hsized (hfits strings hstrings)
    exact ⟨pool, ⟨hencoding, hstrings⟩, hpool⟩

/-- An offset leads to one string at most. -/
theorem StringTable.rightUnique_spells (hstop : table.stop ≤ chunk.size) :
    Relator.RightUnique (table.Spells chunk) :=
  fun _ _ _ hs ht => hs.unique hstop ht

end

end BinaryXml.StringPool

namespace BinaryXml.Chunk

open StringPool

variable {header : ChunkHeader} {data chunk : ByteArray} {position offset : Nat}

theorem decode_of_kind_stringPool (chunk : ByteArray) (offset : Nat)
    (hkind : header.kind = ChunkType.stringPool) :
    decode header chunk offset = stringPool <$> StringPool.decode chunk offset := by
  rw [decode, if_pos hkind]

/-- **A string pool is read wherever its entries stand**: it is accepted when its table and the
entries that the table leads to lie within the chunk, and refused otherwise. The pool that is read
has the strings in the order of the table, and parts that are in step with each other as if it had
been filled with them. -/
theorem decode_stringPool (h : header.CutsOut data position offset chunk)
    (hkind : header.kind = ChunkType.stringPool) :
    ((StringTable.toldBy header chunk).HeldBy chunk →
      (∀ strings, List.Forall₂ ((StringTable.toldBy header chunk).Spells chunk)
          (List.range (StringTable.toldBy header chunk).count) strings →
        entriesSize (StringTable.toldBy header chunk).encoding strings < UInt32.size) →
      ∃ pool, decode header chunk offset = .ok (.stringPool pool) ∧
        (StringTable.toldBy header chunk).ReadAs chunk pool ∧ pool.InStep) ∧
    (¬ (StringTable.toldBy header chunk).HeldBy chunk →
      ∃ error, decode header chunk offset = .error error) := by
  rw [decode_of_kind_stringPool chunk offset hkind]
  constructor
  · intro hheld hfits
    obtain ⟨pool, hread, hpool⟩ := hheld.exists_readAs h hkind hfits
    refine ⟨pool, ?_, hread, hpool.inStep⟩
    rw [(decode_eq_ok_iff_toldBy h).mpr ⟨hheld, hread, hpool⟩]
    rfl
  · intro hlacks
    cases hdecode : StringPool.decode chunk offset with
    | ok pool => exact absurd ((decode_eq_ok_iff_toldBy h).mp hdecode).1 hlacks
    | error error => exact ⟨error, rfl⟩

/-- A string pool of 60 bytes with a header of 32. Of its four offsets two lead to one entry, and
the others to entries on top of each other in front of it. Style data ends the chunk. -/
def tangled (stylesStart : UInt8) : ByteArray :=
  [0x01, 0, 32, 0, 60, 0, 0, 0, 4, 0, 0, 0, 1, 0, 0, 0, 0, 1, 0, 0, 48, 0, 0, 0,
    stylesStart, 0, 0, 0, 9, 9, 9, 9, 5, 0, 0, 0, 1, 0, 0, 0, 0, 0, 0, 0, 5, 0, 0, 0,
    5, 1, 1, 0x64, 0, 2, 2, 0x61, 0x62, 255, 255, 255].toByteArray

/-- When the style data starts one byte earlier, it cuts the last entry. -/
theorem decode_stringPool_tangled :
    (∃ pool, decode ⟨ChunkType.stringPool, 32, 60⟩ (tangled 57) 8 = .ok (.stringPool pool) ∧
      pool.strings.toList = ["ab", "d", "\x01", "ab"] ∧ pool.InStep) ∧
    ∃ error, decode ⟨ChunkType.stringPool, 32, 60⟩ (tangled 56) 8 = .error error := by
  constructor
  · have hcut : ChunkHeader.CutsOut ⟨ChunkType.stringPool, 32, 60⟩ (tangled 57) 0 8 (tangled 57) :=
      ⟨rfl, by decide +kernel⟩
    -- what the words of the header tell, and which entry each offset leads to
    have htold : StringTable.toldBy ⟨ChunkType.stringPool, 32, 60⟩ (tangled 57)
        = ⟨.utf8, 4, 32, 48, 57⟩ := by decide +kernel
    have hentry : ∀ index s, StringEntry.decode .utf8 ((tangled 57).extract 48 57)
          (Layout.u32.valueAt (tangled 57) (32 + 4 * index)).toNat = some s →
        StringTable.Spells ⟨.utf8, 4, 32, 48, 57⟩ (tangled 57) index s :=
      fun _ _ => (StringEntry.decode_extract_eq_some_iff (by decide) (by decide)).mp
    have hspells : List.Forall₂ (StringTable.Spells ⟨.utf8, 4, 32, 48, 57⟩ (tangled 57))
        (List.range 4) ["ab", "d", "\x01", "ab"] :=
      .cons (hentry 0 _ (by decide +kernel)) (.cons (hentry 1 _ (by decide +kernel))
        (.cons (hentry 2 _ (by decide +kernel)) (.cons (hentry 3 _ (by decide +kernel)) .nil)))
    have hheld : StringTable.HeldBy ⟨.utf8, 4, 32, 48, 57⟩ (tangled 57) := by
      refine ⟨by decide, by decide, .inr ⟨by decide, by decide, fun index hindex => ?_⟩⟩
      obtain ⟨s, -, hs⟩ := exists_mem_right_of_forall₂ hspells index (List.mem_range.mpr hindex)
      exact ⟨s, hs⟩
    have hunique : Relator.RightUnique
        (List.Forall₂ (StringTable.Spells ⟨.utf8, 4, 32, 48, 57⟩ (tangled 57))) :=
      (StringTable.rightUnique_spells (by decide)).forall₂
    have hread := (decode_stringPool hcut rfl).1
    rw [htold] at hread
    obtain ⟨pool, hpool, ⟨-, hstrings⟩, hstep⟩ := hread hheld fun strings hstrings => by
      rw [hunique hstrings hspells]
      decide +kernel
    exact ⟨pool, hpool, hunique hstrings hspells, hstep⟩
  · have hcut : ChunkHeader.CutsOut ⟨ChunkType.stringPool, 32, 60⟩ (tangled 56) 0 8 (tangled 56) :=
      ⟨rfl, by decide +kernel⟩
    have htold : StringTable.toldBy ⟨ChunkType.stringPool, 32, 60⟩ (tangled 56)
        = ⟨.utf8, 4, 32, 48, 56⟩ := by decide +kernel
    refine (decode_stringPool hcut rfl).2 fun hheld => ?_
    rw [htold] at hheld
    -- the entry that the first offset leads to would have to end one byte further on
    obtain ⟨-, -, hspelled⟩ := hheld.entries.resolve_left (by decide)
    obtain ⟨s, hs⟩ := hspelled 0 (by decide)
    have hlast := (StringEntry.decode_extract_eq_some_iff (by decide) (by decide)).mpr hs
    have hcuts : StringEntry.decode .utf8 ((tangled 56).extract 48 56)
        (Layout.u32.valueAt (tangled 56) (32 + 4 * 0)).toNat = none := by decide +kernel
    exact Option.some_ne_none s (hlast.symm.trans hcuts)

end BinaryXml.Chunk
