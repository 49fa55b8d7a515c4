import BinaryXml.StringPool.Format
import BinaryXml.Proofs.Except
import BinaryXml.Proofs.StringPool.Invariant

/-!
# String pool chunks, there and back

A well-formed pool whose chunk has a size is written in exactly that many bytes, and reading them
gives the pool back with its offsets and first indices. Whatever bytes a pool is read from, the pool
is one that `append` has filled, so it is well-formed too.
-/

namespace BinaryXml.StringPool

open Reading

/-! ## The bytes of a pool's chunk -/

/-- The entries of some strings one after the other. -/
def entriesBytes (encoding : StringEncoding) (strings : List String) : ByteArray :=
  joined (strings.map (StringEntry.encode encoding))

/-- The words of a table of offsets. -/
def tableBytes (offsets : List UInt32) : ByteArray :=
  (offsets.flatMap Layout.u32.encode).toByteArray

/-- The zeros behind the entries. -/
def padding (pool : StringPool) : ByteArray :=
  (List.replicate ((pool.dataSize + 3) / 4 * 4 - pool.dataSize) 0).toByteArray

/-- The bytes of a pool's chunk, which are `total` in number. -/
def chunkBytes (pool : StringPool) (total : Nat) : ByteArray :=
  (PoolHeader.layout.encode (pool.header total)).toByteArray
    ++ (tableBytes (pool.offsets.toList.map UInt32.ofNat)
      ++ (entriesBytes pool.encoding pool.strings.toList ++ pool.padding))

/-- The entries take the space that they are said to take. -/
theorem size_entriesBytes (encoding : StringEncoding) (strings : List String) :
    (entriesBytes encoding strings).size = entriesSize encoding strings := by
  induction strings with
  | nil => rfl
  | cons s rest ih =>
    rw [entriesBytes, List.map_cons, joined_cons, ByteArray.size_append, entriesSize, ← ih]
    rfl

theorem entriesBytes_append (encoding : StringEncoding) (first second : List String) :
    entriesBytes encoding (first ++ second)
      = entriesBytes encoding first ++ entriesBytes encoding second := by
  rw [entriesBytes, List.map_append, joined_append]
  rfl

theorem size_tableBytes (offsets : List UInt32) :
    (tableBytes offsets).size = 4 * offsets.length := by
  rw [tableBytes, List.size_toByteArray, length_flatMap_encode]
  rfl

/-- A pool's chunk has a size when the data can be padded and the whole fits. -/
theorem chunkSize_eq_ok_iff {pool : StringPool} {total : Nat} :
    pool.chunkSize = .ok total ↔
      pool.dataSize + 3 < UInt32.size ∧ total < UInt32.size ∧
        total = headerSize + 4 * pool.size + (pool.dataSize + 3) / 4 * 4 := by
  unfold chunkSize
  simp only [bind_eq_ok_iff, paddedSize, ite_eq_ok_iff, Except.ok.injEq]
  constructor
  · rintro ⟨_, ⟨hpadded, rfl⟩, htotal⟩
    obtain ⟨hfits, htotal⟩ := ite_eq_ok_iff.mp htotal
    cases htotal
    exact ⟨hpadded, hfits, rfl⟩
  · rintro ⟨hpadded, hfits, rfl⟩
    exact ⟨_, ⟨hpadded, rfl⟩, if_pos hfits⟩

/-- A pool whose chunk has a size is written in one go. -/
theorem write_eq_bytes {pool : StringPool} {total : Nat} (h : pool.chunkSize = .ok total) :
    pool.write = Writing.bytes (pool.chunkBytes total) := by
  obtain ⟨hpadded, -, -⟩ := chunkSize_eq_ok_iff.mp h
  -- the table and the entries are loops in the write, and rows of records or of entries in the
  -- bytes
  have htable : Writing.each (fun offset => Writing.record .u32 (UInt32.ofNat offset))
      pool.offsets.toList = Writing.bytes (tableBytes (pool.offsets.toList.map UInt32.ofNat)) := by
    rw [tableBytes, List.flatMap_map, ← joined_map_toByteArray]
    exact Writing.each_eq_bytes fun _ _ => rfl
  have hentries : Writing.each (fun s => Writing.bytes (StringEntry.encode pool.encoding s))
      pool.strings.toList = Writing.bytes (entriesBytes pool.encoding pool.strings.toList) :=
    Writing.each_eq_bytes fun _ _ => rfl
  have hpaddedSize : pool.paddedSize = .ok ((pool.dataSize + 3) / 4 * 4) := by
    rw [paddedSize, if_pos hpadded]
  have hwrite : pool.write = (do
      Writing.bytes (PoolHeader.layout.encode (pool.header total)).toByteArray
      Writing.bytes (tableBytes (pool.offsets.toList.map UInt32.ofNat))
      Writing.bytes (entriesBytes pool.encoding pool.strings.toList)
      Writing.bytes pool.padding) := by
    rw [write, h, htable, hentries, hpaddedSize]
    rfl
  rw [hwrite, Writing.bytes_bind_bytes, Writing.bytes_bind_bytes, Writing.bytes_bind_bytes]
  rfl

theorem length_offsets {pool : StringPool} (hpool : pool.WellFormed) :
    pool.offsets.toList.length = pool.size := by
  rw [hpool.offsets_eq, length_entryOffsets]
  rfl

/-- The chunk of a well-formed pool is as long as its size says. -/
theorem size_chunkBytes {pool : StringPool} {total : Nat} (hpool : pool.WellFormed)
    (h : pool.chunkSize = .ok total) : (pool.chunkBytes total).size = total := by
  obtain ⟨-, -, rfl⟩ := chunkSize_eq_ok_iff.mp h
  have hheader : ∀ header : PoolHeader, (PoolHeader.layout.encode header).length = headerSize :=
    PoolHeader.layout.length_encode
  simp only [chunkBytes, padding, ByteArray.size_append, List.size_toByteArray, hheader,
    size_tableBytes, List.length_map, length_offsets hpool, size_entriesBytes, ← hpool.dataSize_eq,
    List.length_replicate]
  omega

/-! ## Reading the chunk back -/

/-- Strings whose entries stand one after the other are appended in order. The entries in front of
them belong to the strings that the pool holds already. -/
theorem appendEntriesAt_entries (strings : List String) {pool : StringPool}
    (hpool : pool.WellFormed)
    (hsized : ∀ s ∈ strings, ∃ n, StringEntry.size pool.encoding s = .ok n)
    (hfits : pool.dataSize + entriesSize pool.encoding strings < UInt32.size) (after : ByteArray) :
    ∃ filled : StringPool,
      appendEntriesAt
          (entriesBytes pool.encoding (pool.strings.toList ++ strings) ++ after)
          ((entryOffsets pool.encoding pool.dataSize strings).map UInt32.ofNat) pool = .ok filled ∧
        filled.WellFormed ∧ filled.encoding = pool.encoding ∧
        filled.strings.toList = pool.strings.toList ++ strings := by
  induction strings generalizing pool with
  | nil => exact ⟨pool, rfl, hpool, rfl, (List.append_nil _).symm⟩
  | cons s rest ih =>
    obtain ⟨n, hn⟩ := hsized s List.mem_cons_self
    have hentry := StringEntry.size_encode hn
    rw [entriesSize, hentry] at hfits
    -- the entry of `s` is found behind those of the strings before it
    have hdata : entriesBytes pool.encoding (pool.strings.toList ++ s :: rest) ++ after
        = entriesBytes pool.encoding pool.strings.toList ++ StringEntry.encode pool.encoding s
          ++ (entriesBytes pool.encoding rest ++ after) := by
      rw [entriesBytes_append]
      simp only [entriesBytes, List.map_cons, joined_cons, ByteArray.append_assoc]
    have hstart : (UInt32.ofNat pool.dataSize).toNat
        = (entriesBytes pool.encoding pool.strings.toList).size := by
      rw [UInt32.toNat_ofNat_of_lt' hpool.dataSize_lt, size_entriesBytes, hpool.dataSize_eq]
    have hdecode : StringEntry.decode pool.encoding
        (entriesBytes pool.encoding (pool.strings.toList ++ s :: rest) ++ after)
        (UInt32.ofNat pool.dataSize).toNat = some s := by
      rw [hdata, hstart]
      exact StringEntry.decode_append_encode hn _ _
    -- so `s` is appended, and the rest follows from there
    have happend := append_eq_ok_iff.mpr
      ⟨n, hn, hpool.size_lt, by omega, rfl, rfl⟩
    obtain ⟨filled, hfilled, hwell, hencoding, hstrings⟩ := ih (hpool.append happend)
      (fun t ht => hsized t (List.mem_cons_of_mem _ ht)) (by
        show pool.dataSize + n + entriesSize pool.encoding rest < UInt32.size
        omega)
    refine ⟨filled, ?_, hwell, hencoding, ?_⟩
    · simp only [entryOffsets, List.map_cons, appendEntriesAt, hdecode, happend, hentry]
      simpa only [Array.toList_push, List.append_assoc, List.singleton_append] using hfilled
    · rw [hstrings, Array.toList_push, List.append_assoc, List.singleton_append]

/-- The encoding that a header's flags tell. -/
def encodingOf (header : PoolHeader) : StringEncoding :=
  if header.flags &&& PoolHeader.utf8Flag ≠ 0 then .utf8 else .utf16

/-- What a chunk has to be for a pool to be read from it. Where it stands does not matter. -/
theorem decode_eq_ok_iff {chunk : ByteArray} {offset : Nat} {pool : StringPool} :
    decode chunk offset = .ok pool ↔
      ∃ header offsets, (record PoolHeader.layout).runAt chunk 0 = .ok header ∧
        headerSize ≤ header.chunk.headerSize.toNat ∧
        (Reading.list .u32 header.stringCount.toNat).runAt chunk header.chunk.headerSize.toNat
          = .ok offsets ∧
        (header.stringCount.toNat = 0 ∧ pool = { encoding := encodingOf header } ∨
          header.stringCount.toNat ≠ 0 ∧
            header.stringsStart.toNat ≤ stringsEnd header chunk.size ∧
            stringsEnd header chunk.size ≤ chunk.size ∧
            appendEntriesAt
                (chunk.extract header.stringsStart.toNat (stringsEnd header chunk.size)) offsets
                { encoding := encodingOf header } = .ok pool) := by
  unfold decode
  dsimp only
  simp only [throw_bind, bind_eq_ok_iff, guard_eq_ok_iff, Nat.not_lt]
  constructor
  · rintro ⟨header, hheader, hlong, offsets, htable, hpool⟩
    refine ⟨header, offsets, hheader, hlong, htable, ?_⟩
    -- without strings nothing behind the table is looked at
    by_cases hcount : header.stringCount.toNat = 0
    · rw [if_pos hcount, pure_eq_ok_iff] at hpool
      exact .inl ⟨hcount, hpool⟩
    · rw [if_neg hcount, guard_eq_ok_iff, not_or, Nat.not_lt, Nat.not_lt] at hpool
      obtain ⟨⟨hstart, hstop⟩, hentries⟩ := hpool
      exact .inr ⟨hcount, hstart, hstop, hentries⟩
  · rintro ⟨header, offsets, hheader, hlong, htable, hpool⟩
    refine ⟨header, hheader, hlong, offsets, htable, ?_⟩
    rcases hpool with ⟨hcount, hempty⟩ | ⟨hcount, hstart, hstop, hentries⟩
    · rw [if_pos hcount, pure_eq_ok_iff]
      exact hempty
    · rw [if_neg hcount, guard_eq_ok_iff, not_or, Nat.not_lt, Nat.not_lt]
      exact ⟨⟨hstart, hstop⟩, hentries⟩

/-- A table is read by its first offset, which has to spell a string that fits, and then by the
others. -/
theorem appendEntriesAt_cons_eq_ok_iff {data : ByteArray} {offset : UInt32} {rest : List UInt32}
    {pool filled : StringPool} :
    appendEntriesAt data (offset :: rest) pool = .ok filled ↔
      ∃ s index after, StringEntry.decode pool.encoding data offset.toNat = some s ∧
        pool.append s = .ok (index, after) ∧ appendEntriesAt data rest after = .ok filled := by
  rw [appendEntriesAt]
  cases hentry : StringEntry.decode pool.encoding data offset.toNat with
  | none => simp
  | some s =>
    cases happend : pool.append s with
    | error error => simp [happend]
    | ok result =>
      obtain ⟨index, after⟩ := result
      simp [happend]

/-- Strings are appended when the pool with all of them is still well-formed. -/
theorem appendEntriesAt_eq_ok_iff {data : ByteArray} {offsets : List UInt32}
    {pool filled : StringPool} (hpool : pool.WellFormed) :
    appendEntriesAt data offsets pool = .ok filled ↔
      filled.WellFormed ∧ filled.encoding = pool.encoding ∧
        ∃ strings, List.Forall₂ (fun offset s =>
            StringEntry.decode pool.encoding data offset.toNat = some s) offsets strings ∧
          filled.strings.toList = pool.strings.toList ++ strings := by
  induction offsets generalizing pool with
  | nil =>
    rw [appendEntriesAt]
    constructor
    · rintro ⟨⟩
      exact ⟨hpool, rfl, [], .nil, (List.append_nil _).symm⟩
    · rintro ⟨hfilled, hencoding, strings, ⟨⟩, hstrings⟩
      -- no offset is left: the pool itself, which its strings and its encoding determine
      rw [List.append_nil] at hstrings
      rw [hpool.eq_of_strings_eq hfilled hencoding.symm (Array.toList_inj.mp hstrings.symm)]
  | cons offset rest ih =>
    rw [appendEntriesAt_cons_eq_ok_iff]
    constructor
    · rintro ⟨s, index, after, hentry, happend, h⟩
      obtain ⟨hfilled, hencoding, strings, hspelled, hstrings⟩ :=
        (ih (hpool.append happend)).mp h
      obtain ⟨n, -, -, -, -, rfl⟩ := append_eq_ok_iff.mp happend
      rw [Array.toList_push, List.append_assoc] at hstrings
      exact ⟨hfilled, hencoding, s :: strings, .cons hentry hspelled, hstrings⟩
    · rintro ⟨hfilled, hencoding, _, ⟨⟩, hstrings⟩
      rename_i s strings hentry hspelled
      -- a string of the full pool has an entry, and all entries fit, so this one does
      have hmem : s ∈ filled.strings.toList := by
        rw [hstrings]
        simp
      obtain ⟨n, hn⟩ := hfilled.sized s hmem
      rw [hencoding] at hn
      have hfits : pool.dataSize + n < UInt32.size := by
        have htotal := hfilled.dataSize_lt
        rw [hfilled.dataSize_eq, hstrings, hencoding, entriesSize_append, ← hpool.dataSize_eq,
          entriesSize, StringEntry.size_encode hn] at htotal
        omega
      have happend := append_eq_ok_iff.mpr ⟨n, hn, hpool.size_lt, hfits, rfl, rfl⟩
      refine ⟨s, _, _, hentry, happend, (ih (hpool.append happend)).mpr ?_⟩
      exact ⟨hfilled, hencoding, strings, hspelled, by simpa using hstrings⟩

/-- The strings of a table are put into a pool by `append` alone. -/
theorem built_of_appendEntriesAt {data : ByteArray} {offsets : List UInt32}
    {pool filled : StringPool} (hpool : pool.Built)
    (h : appendEntriesAt data offsets pool = .ok filled) : filled.Built := by
  induction offsets generalizing pool with
  | nil =>
    cases h
    exact hpool
  | cons offset rest ih =>
    obtain ⟨s, index, after, -, happend, hrest⟩ := appendEntriesAt_cons_eq_ok_iff.mp h
    exact ih (hpool.append happend) hrest

/-- Whatever bytes a pool is read from, it is one that `append` has filled. -/
theorem built_of_decode {chunk : ByteArray} {offset : Nat} {pool : StringPool}
    (h : decode chunk offset = .ok pool) : pool.Built := by
  obtain ⟨header, offsets, -, -, -, ⟨-, rfl⟩ | ⟨-, -, -, hentries⟩⟩ := decode_eq_ok_iff.mp h
  · exact .empty _
  · exact built_of_appendEntriesAt (.empty _) hentries

/-! What the header of a pool's chunk tells, and where it says that the string data stands. -/

theorem encodingOf_header (pool : StringPool) (total : Nat) :
    encodingOf (pool.header total) = pool.encoding := by
  rw [encodingOf, header]
  cases pool.encoding
  · exact if_pos (show PoolHeader.utf8Flag &&& PoolHeader.utf8Flag ≠ 0 by decide)
  · exact if_neg (show ¬ (0 &&& PoolHeader.utf8Flag ≠ 0) by decide)

theorem stringsEnd_header (pool : StringPool) (total size : Nat) :
    stringsEnd (pool.header total) size = size := by
  have hstyles : ¬ 0 < (pool.header total).styleCount := show ¬ (0 : UInt32) < 0 by decide
  rw [stringsEnd, if_neg fun hboth => hstyles hboth.1]

/-- The strings of a pool that has any start right behind its table. -/
theorem stringsStart_header {pool : StringPool} {total : Nat} (h : pool.chunkSize = .ok total)
    (hpool : pool.size ≠ 0) :
    (pool.header total).stringsStart.toNat = headerSize + 4 * pool.size := by
  obtain ⟨-, htotal, hsum⟩ := chunkSize_eq_ok_iff.mp h
  have hnonempty : pool.isEmpty = false := by
    simpa [isEmpty, size] using hpool
  rw [header, hnonempty, if_neg Bool.false_ne_true]
  exact UInt32.toNat_ofNat_of_lt' (by omega)

/-- The table of offsets is read back from behind the header. -/
theorem runAt_table_chunkBytes {pool : StringPool} (hpool : pool.WellFormed) (total : Nat) :
    (Reading.list .u32 pool.size).runAt (pool.chunkBytes total) headerSize
      = .ok (pool.offsets.toList.map UInt32.ofNat) := by
  have htakes := takes_list (pool.offsets.toList.map UInt32.ofNat)
    fun word _ => takes_record .u32 word
  rw [joined_map_toByteArray, List.length_map, length_offsets hpool] at htakes
  have hrun := htakes.runAt (PoolHeader.layout.encode (pool.header total)).toByteArray
    (entriesBytes pool.encoding pool.strings.toList ++ pool.padding)
  rw [List.size_toByteArray, PoolHeader.layout.length_encode, ByteArray.append_assoc] at hrun
  exact hrun

/-- The string data is what stands behind the table. -/
theorem extract_chunkBytes {pool : StringPool} {total : Nat} (hpool : pool.WellFormed)
    (h : pool.chunkSize = .ok total) :
    (pool.chunkBytes total).extract (headerSize + 4 * pool.size) total
      = entriesBytes pool.encoding pool.strings.toList ++ pool.padding := by
  have hsize := size_chunkBytes hpool h
  rw [chunkBytes, ← ByteArray.append_assoc]
  apply ByteArray.extract_append_eq_right
  · rw [ByteArray.size_append, List.size_toByteArray, PoolHeader.layout.length_encode,
      size_tableBytes, List.length_map, length_offsets hpool]
    rfl
  · rw [← ByteArray.size_append, ByteArray.append_assoc]
    exact hsize.symm

/-- **A pool is read back from its chunk**, with its offsets and first indices. -/
theorem decode_chunkBytes {pool : StringPool} {total : Nat} (hpool : pool.WellFormed)
    (h : pool.chunkSize = .ok total) (offset : Nat) :
    decode (pool.chunkBytes total) offset = .ok pool := by
  have hsize := size_chunkBytes hpool h
  obtain ⟨-, -, hsum⟩ := chunkSize_eq_ok_iff.mp h
  have hcount : (pool.header total).stringCount.toNat = pool.size :=
    UInt32.toNat_ofNat_of_lt' hpool.size_lt
  refine decode_eq_ok_iff.mpr ⟨pool.header total, pool.offsets.toList.map UInt32.ofNat,
    (takes_record _ _).runAt_zero _, Nat.le_refl 28, ?_, ?_⟩
  · rw [hcount]
    exact runAt_table_chunkBytes hpool total
  rw [hcount, encodingOf_header]
  by_cases hempty : pool.size = 0
  · -- an empty pool has nothing but its encoding
    have hstrings : pool.strings = #[] := Array.eq_empty_of_size_eq_zero hempty
    exact .inl ⟨hempty, hpool.eq_of_strings_eq (wellFormed_empty _) rfl hstrings⟩
  · obtain ⟨filled, hfilled, hwell, hsame, hstrings⟩ := appendEntriesAt_entries
      pool.strings.toList (wellFormed_empty pool.encoding) hpool.sized
      (by
        show 0 + entriesSize pool.encoding pool.strings.toList < UInt32.size
        rw [Nat.zero_add, ← hpool.dataSize_eq]
        exact hpool.dataSize_lt) pool.padding
    -- a well-formed pool is told by its strings
    have hequal : filled = pool :=
      hwell.eq_of_strings_eq hpool hsame (Array.toList_inj.mp (by simpa using hstrings))
    rw [hsize, stringsStart_header h hempty, stringsEnd_header, extract_chunkBytes hpool h]
    refine .inr ⟨hempty, by omega, Nat.le_refl _, ?_⟩
    rw [hequal] at hfilled
    rw [hpool.offsets_eq]
    exact hfilled

end BinaryXml.StringPool
