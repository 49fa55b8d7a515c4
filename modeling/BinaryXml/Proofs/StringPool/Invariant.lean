import BinaryXml.StringPool.Basic
import BinaryXml.Proofs.StringPool.Entry

/-!
# The invariant of string pools

A pool reached by `add` and `append` alone is `WellFormed`: all its strings have entries, the
offsets and the size of the data are sums of entry sizes, and the map of first indices finds the
first position of every string. The encoding and the strings determine such a pool, so two of them
are compared by their strings alone.
-/

namespace BinaryXml.StringPool

/-! ## The invariant -/

def entriesSize (encoding : StringEncoding) : List String → Nat
  | [] => 0
  | s :: rest => (StringEntry.encode encoding s).size + entriesSize encoding rest

/-- The offsets of the entries of some strings, the first of which stands at `start`. -/
def entryOffsets (encoding : StringEncoding) (start : Nat) : List String → List Nat
  | [] => []
  | s :: rest =>
    start :: entryOffsets encoding (start + (StringEntry.encode encoding s).size) rest

theorem entriesSize_append (encoding : StringEncoding) (first second : List String) :
    entriesSize encoding (first ++ second)
      = entriesSize encoding first + entriesSize encoding second := by
  induction first with
  | nil => simp [entriesSize]
  | cons s rest ih => rw [List.cons_append, entriesSize, ih, entriesSize, Nat.add_assoc]

/-- Behind the entries of one list those of another begin where the first ones end. -/
theorem entryOffsets_append (encoding : StringEncoding) (start : Nat)
    (first second : List String) :
    entryOffsets encoding start (first ++ second)
      = entryOffsets encoding start first
        ++ entryOffsets encoding (start + entriesSize encoding first) second := by
  induction first generalizing start with
  | nil => simp [entryOffsets, entriesSize]
  | cons s rest ih =>
    rw [List.cons_append, entryOffsets, ih, entryOffsets, entriesSize, List.cons_append,
      Nat.add_assoc]

theorem length_entryOffsets (encoding : StringEncoding) (start : Nat) (strings : List String) :
    (entryOffsets encoding start strings).length = strings.length := by
  induction strings generalizing start with
  | nil => rfl
  | cons s rest ih => rw [entryOffsets, List.length_cons, ih, List.length_cons]

/-- What holds of every pool that only `add` and `append` have filled. -/
structure WellFormed (pool : StringPool) : Prop where
  /-- Every string has an entry. -/
  sized : ∀ s ∈ pool.strings.toList, ∃ n, StringEntry.size pool.encoding s = .ok n
  /-- The entries stand one directly after the other. -/
  offsets_eq : pool.offsets.toList = entryOffsets pool.encoding 0 pool.strings.toList
  /-- The data ends with the last entry. -/
  dataSize_eq : pool.dataSize = entriesSize pool.encoding pool.strings.toList
  dataSize_lt : pool.dataSize < UInt32.size
  /-- The map finds the first index of every string. -/
  firstIndex_eq : ∀ s, pool.firstIndex[s]? = (pool.strings.toList.idxOf? s).map UInt32.ofNat

/-- A pool that `add` and `append` have filled, starting from an empty one. -/
inductive Built : StringPool → Prop where
  | empty (encoding : StringEncoding) : Built { encoding }
  | add {pool after : StringPool} {s : String} {index : UInt32} (built : Built pool)
      (h : pool.add s = .ok (index, after)) : Built after
  | append {pool after : StringPool} {s : String} {index : UInt32} (built : Built pool)
      (h : pool.append s = .ok (index, after)) : Built after

/-! ## What a successful call does -/

/-- An entry is appended exactly when index, entry and data fit. -/
theorem appendEntry_eq_ok_iff {pool after : StringPool} {s : String} {index : UInt32} :
    pool.appendEntry s = .ok (index, after) ↔
      ∃ n, StringEntry.size pool.encoding s = .ok n ∧ pool.strings.size < UInt32.size ∧
        pool.dataSize + n < UInt32.size ∧ index = UInt32.ofNat pool.strings.size ∧
        after = { pool with
          strings := pool.strings.push s
          offsets := pool.offsets.push pool.dataSize
          dataSize := pool.dataSize + n } := by
  constructor
  · intro h
    -- three checks stand before the success: room for an index, a size, room for the data
    unfold appendEntry at h
    split at h
    · split at h
      · cases h
      · rename_i hcount _ n hsize
        split at h
        · cases h
          exact ⟨n, hsize, hcount, ‹_›, rfl, rfl⟩
        · cases h
    · cases h
  · rintro ⟨n, hsize, hcount, hdata, rfl, rfl⟩
    rw [appendEntry, if_pos hcount, hsize]
    exact if_pos hdata

/-- A string is appended exactly when its entry is; it then is the first of its kind unless one is
known. -/
theorem append_eq_ok_iff {pool after : StringPool} {s : String} {index : UInt32} :
    pool.append s = .ok (index, after) ↔
      ∃ n, StringEntry.size pool.encoding s = .ok n ∧ pool.strings.size < UInt32.size ∧
        pool.dataSize + n < UInt32.size ∧ index = UInt32.ofNat pool.strings.size ∧
        after = { pool with
          strings := pool.strings.push s
          offsets := pool.offsets.push pool.dataSize
          firstIndex := pool.firstIndex.insertIfNew s index
          dataSize := pool.dataSize + n } := by
  unfold append
  constructor
  · intro h
    split at h
    · cases h
    · rename_i hentry
      cases h
      obtain ⟨n, hsize, hcount, hdata, hindex, rfl⟩ := appendEntry_eq_ok_iff.mp hentry
      exact ⟨n, hsize, hcount, hdata, hindex, rfl⟩
  · rintro ⟨n, hsize, hcount, hdata, hindex, rfl⟩
    rw [appendEntry_eq_ok_iff.mpr ⟨n, hsize, hcount, hdata, hindex, rfl⟩]

/-- Why `append` fails: there is no entry for the string, or no room for one. -/
theorem error_of_append {pool : StringPool} {s : String} {error : Error}
    (h : pool.append s = .error error) :
    StringEntry.size pool.encoding s = .error error ∨ error = .chunkTooLarge := by
  unfold append at h
  split at h
  · rename_i hentry
    cases h
    -- of the three checks one tells of the string, the other two of the pool
    unfold appendEntry at hentry
    split at hentry
    · split at hentry
      · rename_i hsize
        cases hentry
        exact .inl hsize
      · split at hentry
        · cases hentry
        · cases hentry
          exact .inr rfl
    · cases hentry
      exact .inr rfl
  · cases h

/-- A string that is there already is found and nothing changes. -/
theorem add_of_firstIndex_eq_some {pool : StringPool} {s : String} {index : UInt32}
    (h : pool.firstIndex[s]? = some index) : pool.add s = .ok (index, pool) := by
  rw [add, h]

/-- A string that is not there yet is appended. -/
theorem add_of_firstIndex_eq_none {pool : StringPool} {s : String}
    (h : pool.firstIndex[s]? = none) : pool.add s = pool.append s := by
  rw [add, h, append]
  cases hentry : pool.appendEntry s with
  | error error => rfl
  | ok result =>
    obtain ⟨index, after⟩ := result
    obtain ⟨n, -, -, -, -, rfl⟩ := appendEntry_eq_ok_iff.mp hentry
    -- for a new string it makes no difference which of the two inserts is used
    have hinsert : pool.firstIndex.insert s index = pool.firstIndex.insertIfNew s index := by
      apply Std.ExtHashMap.ext_getElem?
      intro t
      have habsent : s ∉ pool.firstIndex := by
        rw [Std.ExtHashMap.mem_iff_isSome_getElem?, h]
        exact Bool.false_ne_true
      rw [Std.ExtHashMap.getElem?_insert, Std.ExtHashMap.getElem?_insertIfNew]
      simp [habsent]
    simp only [hinsert]

/-- **What `add` does**: it finds the string and changes nothing, or it appends it. -/
theorem add_eq_ok_iff {pool after : StringPool} {s : String} {index : UInt32} :
    pool.add s = .ok (index, after) ↔
      pool.firstIndex[s]? = some index ∧ after = pool ∨
        pool.firstIndex[s]? = none ∧ pool.append s = .ok (index, after) := by
  cases hfound : pool.firstIndex[s]? with
  | some found =>
    -- a string that is known is found, and nothing else is tried
    rw [add_of_firstIndex_eq_some hfound]
    constructor
    · intro h
      cases h
      exact .inl ⟨rfl, rfl⟩
    · rintro (⟨hindex, rfl⟩ | ⟨hnone, -⟩)
      · cases hindex
        rfl
      · cases hnone
  | none =>
    rw [add_of_firstIndex_eq_none hfound]
    constructor
    · intro h
      exact .inr ⟨rfl, h⟩
    · rintro (⟨hindex, -⟩ | ⟨-, h⟩)
      · cases hindex
      · exact h

/-! ## Preservation -/

/-- A string at the end of a list is found there only if it has not been found before. -/
theorem idxOf?_append_singleton (l : List String) (s t : String) :
    (l ++ [s]).idxOf? t = (l.idxOf? t).or (if s = t then some l.length else none) := by
  have hsingleton : [s].findIdx? (· == t) = if s = t then some 0 else none := by
    rw [List.findIdx?_singleton]
    by_cases hst : s = t <;> simp [hst]
  simp only [List.idxOf?, List.findIdx?_append, hsingleton]
  split <;> simp

/-- Nothing has been put into an empty pool, so nothing is out of step. -/
theorem wellFormed_empty (encoding : StringEncoding) :
    WellFormed ({ encoding } : StringPool) where
  sized := by simp
  offsets_eq := rfl
  dataSize_eq := rfl
  dataSize_lt := Nat.two_pow_pos 32
  firstIndex_eq := by simp

/-- A string that is appended keeps the pool in step: its entry comes behind the data, and its
offset is where the data has ended. -/
theorem WellFormed.append {pool after : StringPool} {s : String} {index : UInt32}
    (hpool : pool.WellFormed) (h : pool.append s = .ok (index, after)) : after.WellFormed := by
  obtain ⟨n, hsize, hcount, hdata, rfl, rfl⟩ := append_eq_ok_iff.mp h
  have hentry := StringEntry.size_encode hsize
  refine ⟨?_, ?_, ?_, hdata, ?_⟩
  · intro t ht
    rw [Array.toList_push, List.mem_append, List.mem_singleton] at ht
    rcases ht with ht | rfl
    · exact hpool.sized t ht
    · exact ⟨n, hsize⟩
  · -- the new entry begins where the data has ended
    rw [Array.toList_push, Array.toList_push, entryOffsets_append, hpool.offsets_eq,
      hpool.dataSize_eq, Nat.zero_add]
    rfl
  · show pool.dataSize + n = entriesSize pool.encoding (pool.strings.push s).toList
    rw [Array.toList_push, entriesSize_append, ← hpool.dataSize_eq, entriesSize, entriesSize,
      hentry, Nat.add_zero]
  · -- the new string is found at the end, unless it was there before
    intro t
    have hnew : (s ∈ pool.firstIndex) ↔ (pool.strings.toList.idxOf? s).isSome = true := by
      rw [Std.ExtHashMap.mem_iff_isSome_getElem?, hpool.firstIndex_eq, Option.isSome_map]
    show (pool.firstIndex.insertIfNew s (UInt32.ofNat pool.strings.size))[t]?
      = ((pool.strings.push s).toList.idxOf? t).map UInt32.ofNat
    rw [Std.ExtHashMap.getElem?_insertIfNew, Array.toList_push, idxOf?_append_singleton,
      hpool.firstIndex_eq]
    by_cases hst : s = t
    · subst hst
      cases hfound : pool.strings.toList.idxOf? s <;> simp [hnew, hfound]
    · simp [hst]

/-- A string that is added keeps the pool in step, since it is found or appended. -/
theorem WellFormed.add {pool after : StringPool} {s : String} {index : UInt32}
    (hpool : pool.WellFormed) (h : pool.add s = .ok (index, after)) : after.WellFormed := by
  rcases add_eq_ok_iff.mp h with ⟨-, rfl⟩ | ⟨-, happend⟩
  · exact hpool
  · exact hpool.append happend

/-- Every pool that `add` and `append` have filled is well-formed. -/
theorem Built.wellFormed {pool : StringPool} (h : Built pool) : pool.WellFormed := by
  induction h with
  | empty encoding => exact wellFormed_empty encoding
  | add _ hadd ih => exact ih.add hadd
  | append _ happend ih => exact ih.append happend

/-! ## What the invariant gives -/

/-- The encoding and the strings determine a well-formed pool. -/
theorem WellFormed.eq_of_strings_eq {pool other : StringPool} (hpool : pool.WellFormed)
    (hother : other.WellFormed) (hencoding : pool.encoding = other.encoding)
    (hstrings : pool.strings = other.strings) : pool = other := by
  have hoffsets : pool.offsets = other.offsets := by
    apply Array.toList_inj.mp
    rw [hpool.offsets_eq, hother.offsets_eq, hencoding, hstrings]
  have hsize : pool.dataSize = other.dataSize := by
    rw [hpool.dataSize_eq, hother.dataSize_eq, hencoding, hstrings]
  -- the map is told by what it finds
  have hindex : pool.firstIndex = other.firstIndex := by
    apply Std.ExtHashMap.ext_getElem?
    intro s
    rw [hpool.firstIndex_eq, hother.firstIndex_eq, hstrings]
  cases pool
  cases other
  simp_all

/-- Every entry takes a byte at least. -/
theorem length_le_entriesSize {encoding : StringEncoding} {strings : List String}
    (h : ∀ s ∈ strings, ∃ n, StringEntry.size encoding s = .ok n) :
    strings.length ≤ entriesSize encoding strings := by
  induction strings with
  | nil => exact Nat.le_refl 0
  | cons s rest ih =>
    obtain ⟨n, hn⟩ := h s List.mem_cons_self
    have hpos := StringEntry.size_pos hn
    have hrest := ih fun t ht => h t (List.mem_cons_of_mem _ ht)
    rw [List.length_cons, entriesSize, StringEntry.size_encode hn]
    omega

/-- A well-formed pool holds fewer strings than there are indices. -/
theorem WellFormed.size_lt {pool : StringPool} (h : pool.WellFormed) :
    pool.strings.size < UInt32.size := by
  have hlength := length_le_entriesSize h.sized
  rw [← h.dataSize_eq, Array.length_toList] at hlength
  exact Nat.lt_of_le_of_lt hlength h.dataSize_lt

/-- A found string stands at the index where it is found. -/
theorem WellFormed.get?_of_indexOf? {pool : StringPool} (h : pool.WellFormed) {s : String}
    {index : UInt32} (hindex : pool.indexOf? s = some index) : pool.get? index = some s := by
  rw [indexOf?, h.firstIndex_eq] at hindex
  obtain ⟨i, hi, rfl⟩ := Option.map_eq_some_iff.mp hindex
  obtain ⟨hlt, hget, -⟩ := List.idxOf?_eq_some_iff.mp hi
  have hbound : i < UInt32.size := Nat.lt_trans (by simpa using hlt) h.size_lt
  rw [get?, UInt32.toNat_ofNat_of_lt' hbound]
  simp only [List.getElem_eq_iff, Array.getElem?_toList] at hget
  exact hget

/-- A string of the pool is found, and nowhere behind a place where it stands. -/
theorem WellFormed.exists_indexOf?_of_get? {pool : StringPool} (h : pool.WellFormed) {s : String}
    {index : UInt32} (hget : pool.get? index = some s) :
    ∃ first, pool.indexOf? s = some first ∧ first ≤ index := by
  have hget' : pool.strings.toList[index.toNat]? = some s := by rwa [Array.getElem?_toList]
  obtain ⟨hlt, hs⟩ := List.getElem?_eq_some_iff.mp hget'
  cases hfound : pool.strings.toList.idxOf? s with
  | none => exact absurd (List.mem_of_getElem? hget') (List.idxOf?_eq_none_iff.mp hfound)
  | some i =>
    obtain ⟨hi, -, hbefore⟩ := List.idxOf?_eq_some_iff.mp hfound
    have hle : i ≤ index.toNat := Nat.not_lt.mp fun hless => hbefore _ hless hs
    have hbound : i < UInt32.size := Nat.lt_trans (by simpa using hi) h.size_lt
    refine ⟨UInt32.ofNat i, by rw [indexOf?, h.firstIndex_eq, hfound, Option.map_some], ?_⟩
    rwa [UInt32.le_iff_toNat_le, UInt32.toNat_ofNat_of_lt' hbound]

/-- **A string is found at the least index where it stands.** -/
theorem WellFormed.indexOf?_eq_some_iff {pool : StringPool} (h : pool.WellFormed) {s : String}
    {index : UInt32} :
    pool.indexOf? s = some index ↔
      pool.get? index = some s ∧ ∀ i, pool.get? i = some s → index ≤ i := by
  constructor
  · intro hindex
    refine ⟨h.get?_of_indexOf? hindex, fun i hi => ?_⟩
    obtain ⟨first, hfirst, hle⟩ := h.exists_indexOf?_of_get? hi
    rw [hindex] at hfirst
    cases hfirst
    exact hle
  · rintro ⟨hget, hleast⟩
    obtain ⟨first, hfirst, hle⟩ := h.exists_indexOf?_of_get? hget
    have hge := hleast first (h.get?_of_indexOf? hfirst)
    rw [hfirst, UInt32.le_antisymm hle hge]

end BinaryXml.StringPool
