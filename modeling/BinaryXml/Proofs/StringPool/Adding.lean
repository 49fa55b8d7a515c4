import BinaryXml.Proofs.Repeats
import BinaryXml.Proofs.StringPool.Invariant

/-!
# Adding strings in order

What `add` does to the indices of a pool: the added string is found from then on, and a string that
was found is found where it was. So after `addAll` every string of the list has one index, whenever
it was added, and the pool lists the strings in the order in which they first came.
-/

namespace BinaryXml.StringPool

/-! ## One string -/

/-- A string that has been added is found where the call says. -/
theorem indexOf?_of_add {pool after : StringPool} {s : String} {index : UInt32}
    (h : pool.add s = .ok (index, after)) : after.indexOf? s = some index := by
  rcases add_eq_ok_iff.mp h with ⟨hfound, rfl⟩ | ⟨hnew, happend⟩
  · exact hfound
  · -- a new string has no first index yet, so it gets this one
    have habsent : s ∉ pool.firstIndex := by
      rw [Std.ExtHashMap.mem_iff_isSome_getElem?, hnew]
      exact Bool.false_ne_true
    obtain ⟨n, -, -, -, -, rfl⟩ := append_eq_ok_iff.mp happend
    show (pool.firstIndex.insertIfNew s index)[s]? = some index
    rw [Std.ExtHashMap.getElem?_insertIfNew]
    simp [habsent]

/-- A string that the pool holds stays where it is, whatever is appended. -/
theorem indexOf?_of_append_of_eq_some {pool after : StringPool} {s t : String} {index i : UInt32}
    (h : pool.append s = .ok (index, after)) (ht : pool.indexOf? t = some i) :
    after.indexOf? t = some i := by
  obtain ⟨n, -, -, -, -, rfl⟩ := append_eq_ok_iff.mp h
  show (pool.firstIndex.insertIfNew s index)[t]? = some i
  rw [Std.ExtHashMap.getElem?_insertIfNew, if_neg]
  · exact ht
  · -- an index is noted only for a string that has none
    rintro ⟨hsame, hnew⟩
    rw [Std.ExtHashMap.mem_iff_isSome_getElem?, beq_iff_eq.mp hsame] at hnew
    rw [indexOf?] at ht
    exact hnew (by rw [ht, Option.isSome_some])

theorem indexOf?_of_add_of_eq_some {pool after : StringPool} {s t : String} {index i : UInt32}
    (h : pool.add s = .ok (index, after)) (ht : pool.indexOf? t = some i) :
    after.indexOf? t = some i := by
  rcases add_eq_ok_iff.mp h with ⟨-, rfl⟩ | ⟨-, happend⟩
  · exact ht
  · exact indexOf?_of_append_of_eq_some happend ht

theorem encoding_of_add {pool after : StringPool} {s : String} {index : UInt32}
    (h : pool.add s = .ok (index, after)) : after.encoding = pool.encoding := by
  rcases add_eq_ok_iff.mp h with ⟨-, rfl⟩ | ⟨-, happend⟩
  · rfl
  · obtain ⟨n, -, -, -, -, rfl⟩ := append_eq_ok_iff.mp happend
    rfl

theorem WellFormed.indexOf?_eq_none_iff {pool : StringPool} (h : pool.WellFormed) {s : String} :
    pool.indexOf? s = none ↔ s ∉ pool.strings.toList := by
  rw [indexOf?, h.firstIndex_eq, Option.map_eq_none_iff, List.idxOf?_eq_none_iff]

/-- A new string comes last, and one that is there already comes to nothing. -/
theorem strings_of_add {pool after : StringPool} {s : String} {index : UInt32}
    (hpool : pool.WellFormed) (h : pool.add s = .ok (index, after)) :
    after.strings.toList
      = if s ∈ pool.strings.toList then pool.strings.toList else pool.strings.toList ++ [s] := by
  rcases add_eq_ok_iff.mp h with ⟨hfound, rfl⟩ | ⟨hnew, happend⟩
  · have hmem : s ∈ after.strings.toList := by
      refine Decidable.not_not.mp fun hnot => ?_
      have hnone := hpool.indexOf?_eq_none_iff.mpr hnot
      rw [indexOf?, hfound] at hnone
      cases hnone
    rw [if_pos hmem]
  · have hnot := hpool.indexOf?_eq_none_iff.mp hnew
    obtain ⟨n, -, -, -, -, rfl⟩ := append_eq_ok_iff.mp happend
    rw [if_neg hnot, Array.toList_push]

/-! ## A list of strings -/

/-- Two lists are added one after the other, and a failure in the first is the end. -/
theorem addAll_append (first second : List String) (pool : StringPool) :
    addAll (first ++ second) pool = (addAll first pool).bind (addAll second) := by
  induction first generalizing pool with
  | nil => rfl
  | cons s rest ih =>
    rw [List.cons_append, addAll, addAll]
    cases pool.add s with
    | error error => rfl
    | ok result => exact ih result.2

/-- What holds of a pool and is kept by `add` holds after adding all of some strings. -/
theorem addAll_induction {motive : List String → StringPool → Prop} {start : StringPool}
    (hstart : motive [] start)
    (hadd : ∀ done s pool index after, motive done pool → pool.add s = .ok (index, after) →
      motive (done ++ [s]) after)
    {strings : List String} {after : StringPool} (h : addAll strings start = .ok after) :
    motive strings after := by
  -- the strings added so far, and those still to be added
  suffices hgeneral : ∀ done pool, motive done pool → addAll strings pool = .ok after →
      motive (done ++ strings) after from hgeneral [] start hstart h
  clear h
  induction strings with
  | nil =>
    intro done pool hdone h
    cases h
    rwa [List.append_nil]
  | cons s rest ih =>
    intro done pool hdone h
    rw [addAll] at h
    cases hs : pool.add s with
    | error error =>
      rw [hs] at h
      cases h
    | ok result =>
      obtain ⟨index, next⟩ := result
      rw [hs] at h
      have hnext := ih (done ++ [s]) next (hadd done s pool index next hdone hs) h
      rwa [List.append_assoc, List.singleton_append] at hnext

/-- Adding a list moves no string that was found before. -/
theorem indexOf?_of_addAll_of_eq_some {pool after : StringPool} {strings : List String}
    {t : String} {i : UInt32} (h : addAll strings pool = .ok after)
    (ht : pool.indexOf? t = some i) : after.indexOf? t = some i := by
  refine addAll_induction (motive := fun _ pool => pool.indexOf? t = some i) ht ?_ h
  intro _ s pool index next hpool hadd
  exact indexOf?_of_add_of_eq_some hadd hpool

/-- Strings that are found are not added again. -/
theorem addAll_eq_self {pool : StringPool} {strings : List String}
    (h : ∀ s ∈ strings, ∃ i, pool.indexOf? s = some i) : addAll strings pool = .ok pool := by
  induction strings with
  | nil => rfl
  | cons s rest ih =>
    obtain ⟨i, hi⟩ := h s List.mem_cons_self
    have hadd : pool.add s = .ok (i, pool) := add_eq_ok_iff.mpr (.inl ⟨hi, rfl⟩)
    rw [addAll, hadd]
    exact ih fun t ht => h t (List.mem_cons_of_mem _ ht)

/-- All the strings that were added are found. -/
theorem exists_indexOf?_of_addAll {pool after : StringPool} {strings : List String}
    (h : addAll strings pool = .ok after) :
    ∀ s ∈ strings, ∃ i, after.indexOf? s = some i := by
  refine addAll_induction (motive := fun done pool => ∀ s ∈ done, ∃ i, pool.indexOf? s = some i)
    (fun s hs => absurd hs List.not_mem_nil) ?_ h
  intro done s pool index next hdone hadd t ht
  rcases List.mem_append.mp ht with ht | ht
  · obtain ⟨i, hi⟩ := hdone t ht
    exact ⟨i, indexOf?_of_add_of_eq_some hadd hi⟩
  · obtain rfl := List.mem_singleton.mp ht
    exact ⟨index, indexOf?_of_add hadd⟩

theorem Built.addAll {pool after : StringPool} {strings : List String} (hpool : pool.Built)
    (h : addAll strings pool = .ok after) : after.Built := by
  refine addAll_induction (motive := fun _ pool => pool.Built) hpool ?_ h
  intro _ s pool index next hbuilt hadd
  exact hbuilt.add hadd

/-- **A pool that `addAll` has filled lists the strings without their repeats**, in the order in
which they first came. -/
theorem strings_of_addAll {encoding : StringEncoding} {strings : List String} {pool : StringPool}
    (h : addAll strings { encoding } = .ok pool) : pool.strings.toList = strings.eraseDups := by
  refine And.right (addAll_induction
    (motive := fun done pool => pool.WellFormed ∧ pool.strings.toList = done.eraseDups)
    ⟨wellFormed_empty encoding, rfl⟩ ?_ h)
  rintro done s pool index next ⟨hpool, hdone⟩ hadd
  refine ⟨hpool.add hadd, ?_⟩
  rw [strings_of_add hpool hadd, hdone, eraseDups_append_singleton]
  simp only [List.mem_eraseDups]

theorem encoding_of_addAll {pool after : StringPool} {strings : List String}
    (h : addAll strings pool = .ok after) : after.encoding = pool.encoding := by
  refine addAll_induction (motive := fun _ next => next.encoding = pool.encoding) rfl ?_ h
  intro _ s next index after hnext hadd
  rw [encoding_of_add hadd, hnext]

/-- A string is added if it has an entry and if there is room, which only a new string needs. -/
theorem exists_add {pool : StringPool} {s : String} {n : Nat} (hpool : pool.WellFormed)
    (hsize : StringEntry.size pool.encoding s = .ok n)
    (hfits : s ∉ pool.strings.toList → pool.dataSize + n < UInt32.size) :
    ∃ index after, pool.add s = .ok (index, after) := by
  cases hfound : pool.firstIndex[s]? with
  | some found => exact ⟨found, pool, add_eq_ok_iff.mpr (.inl ⟨hfound, rfl⟩)⟩
  | none =>
    have hdata := hfits (hpool.indexOf?_eq_none_iff.mp hfound)
    have happend := append_eq_ok_iff.mpr ⟨n, hsize, hpool.size_lt, hdata, rfl, rfl⟩
    exact ⟨_, _, add_eq_ok_iff.mpr (.inr ⟨hfound, happend⟩)⟩

/-- **Strings can all be added when they have entries and the distinct ones fit together**, and not
otherwise. -/
theorem exists_addAll_iff {encoding : StringEncoding} {strings : List String} :
    (∃ pool, addAll strings { encoding } = .ok pool) ↔
      (∀ s ∈ strings, ∃ n, StringEntry.size encoding s = .ok n) ∧
        entriesSize encoding strings.eraseDups < UInt32.size := by
  constructor
  · rintro ⟨pool, h⟩
    have hpool := ((Built.empty encoding).addAll h).wellFormed
    have hencoding : pool.encoding = encoding := encoding_of_addAll h
    have hstrings := strings_of_addAll h
    have hsized := hpool.sized
    have hdata := hpool.dataSize_lt
    rw [hpool.dataSize_eq, hstrings, hencoding] at hdata
    rw [hstrings, hencoding] at hsized
    exact ⟨fun s hs => hsized s (List.mem_eraseDups.mpr hs), hdata⟩
  · rintro ⟨hsized, hfits⟩
    -- the last string is new, and counted at the end, or there already
    induction strings using List.reverseRecOn with
    | nil => exact ⟨_, rfl⟩
    | append_singleton strings s ih =>
      rw [eraseDups_append_singleton] at hfits
      have hless : entriesSize encoding strings.eraseDups < UInt32.size := by
        split at hfits
        · exact hfits
        · rw [entriesSize_append] at hfits
          omega
      obtain ⟨pool, h⟩ := ih (fun t ht => hsized t (List.mem_append_left _ ht)) hless
      have hpool := ((Built.empty encoding).addAll h).wellFormed
      have hencoding : pool.encoding = encoding := encoding_of_addAll h
      obtain ⟨n, hn⟩ := hsized s (List.mem_append_right _ List.mem_cons_self)
      rw [← hencoding] at hn
      obtain ⟨index, after, hadd⟩ := exists_add hpool hn (by
        intro hnot
        rw [strings_of_addAll h, List.mem_eraseDups] at hnot
        rw [if_neg hnot, entriesSize_append, entriesSize, entriesSize, ← hencoding,
          ← strings_of_addAll h, ← hpool.dataSize_eq, StringEntry.size_encode hn] at hfits
        omega)
      refine ⟨after, ?_⟩
      rw [addAll_append, h]
      show addAll [s] pool = .ok after
      rw [addAll, hadd]
      rfl

/-- **The first string without an entry stops the adding**, when the strings with one fit together.
-/
theorem addAll_eq_stringTooLong {encoding : StringEncoding} {strings : List String}
    (hlong : ∃ s ∈ strings, StringEntry.TooLong encoding s)
    (hfits : entriesSize encoding
      (strings.eraseDups.filter (¬ StringEntry.TooLong encoding ·)) < UInt32.size) :
    ∃ length, addAll strings { encoding } = .error (.stringTooLong length) := by
  obtain ⟨s, before, after, hs, hbefore, rfl⟩ : ∃ s before after, StringEntry.TooLong encoding s ∧
      (∀ t ∈ before, ¬ StringEntry.TooLong encoding t) ∧ strings = before ++ s :: after := by
    cases hfind : strings.find? (StringEntry.TooLong encoding ·) with
    | none =>
      obtain ⟨s, hmem, hs⟩ := hlong
      exact absurd (decide_eq_true hs) (List.find?_eq_none.mp hfind s hmem)
    | some s =>
      obtain ⟨hs, before, after, hstrings, hbefore⟩ := List.find?_eq_some_iff_append.mp hfind
      refine ⟨s, before, after, of_decide_eq_true hs, fun t ht => ?_, hstrings⟩
      simpa using hbefore t ht
  -- the strings before it are among those that fit, so they are in the pool when it comes
  have hkept : before.eraseDups.filter (¬ StringEntry.TooLong encoding ·) = before.eraseDups :=
    List.filter_eq_self.mpr fun t ht => decide_eq_true (hbefore t (List.mem_eraseDups.mp ht))
  rw [List.eraseDups_append, List.filter_append, hkept, entriesSize_append] at hfits
  obtain ⟨pool, hpool⟩ := exists_addAll_iff.mpr
    ⟨fun t ht => StringEntry.not_tooLong_iff.mp (hbefore t ht), by omega⟩
  have hwellFormed := ((Built.empty encoding).addAll hpool).wellFormed
  have hnew : s ∉ pool.strings.toList := by
    rw [strings_of_addAll hpool, List.mem_eraseDups]
    exact fun hmem => hbefore s hmem hs
  cases hsize : StringEntry.size encoding s with
  | ok n => exact absurd hs (StringEntry.not_tooLong_iff.mpr ⟨n, hsize⟩)
  | error error =>
    obtain ⟨length, rfl⟩ := StringEntry.eq_stringTooLong_of_size_eq_error hsize
    refine ⟨length, ?_⟩
    rw [addAll_append, hpool]
    show addAll (s :: after) pool = _
    rw [addAll, add_of_firstIndex_eq_none (hwellFormed.indexOf?_eq_none_iff.mpr hnew), append,
      appendEntry, if_pos hwellFormed.size_lt, encoding_of_addAll hpool, hsize]

end BinaryXml.StringPool
