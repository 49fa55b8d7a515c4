import BinaryXml.Proofs.StringPool.Adding
import Mathlib.Algebra.GroupWithZero.Nat

/-!
# Runs of calls on a pool

A pool is filled by calls of two kinds, and any of them may fail. Here a call changes the pool in
place, one part after the other, so that one which fails half-way would leave behind what it has
changed by then. None does (`perform_eq`): a call comes to what `add` or `append` gives, or to
nothing. So the parts of a pool are in step after every run of calls, whichever of them fail
(`filledBy_fill`).
-/

namespace BinaryXml.StringPool

/-! ## Calls that change a pool in place -/

/-- A call on a pool. When it fails, the pool is left as it is at that moment. -/
abbrev Updating := EStateM Error StringPool

def appendEntryInPlace (s : String) : Updating UInt32 := do
  let pool ← get
  if UInt32.size ≤ pool.strings.size then
    throw .chunkTooLarge
  let size ← ofExcept (StringEntry.size pool.encoding s)
  let offset := pool.dataSize
  if UInt32.size ≤ offset + size then
    throw .chunkTooLarge
  -- from here on nothing fails, so no part is left behind the others
  modify fun pool => { pool with dataSize := offset + size }
  modify fun pool => { pool with offsets := pool.offsets.push offset }
  modify fun pool => { pool with strings := pool.strings.push s }
  return UInt32.ofNat pool.strings.size

/-- A call that fills a pool. -/
inductive Call where
  | add (s : String)
  | append (s : String)
  deriving DecidableEq, Repr

namespace Call

def string : Call → String
  | add s => s
  | append s => s

def isAdd : Call → Bool
  | add _ => true
  | append _ => false

/-- Make the call in place. -/
def perform : Call → Updating UInt32
  | add s => do
    match (← get).firstIndex[s]? with
    | some index => return index
    | none =>
      let index ← appendEntryInPlace s
      modify fun pool => { pool with firstIndex := pool.firstIndex.insert s index }
      return index
  | append s => do
    let index ← appendEntryInPlace s
    modify fun pool => { pool with firstIndex := pool.firstIndex.insertIfNew s index }
    return index

/-- The pool that the call leaves, whether it fails or not. -/
def leave (pool : StringPool) (call : Call) : StringPool :=
  match call.perform pool with
  | .ok _ after => after
  | .error _ after => after

/-- What the call gives, told at once. -/
def result (pool : StringPool) : Call → Except Error (UInt32 × StringPool)
  | add s => pool.add s
  | append s => pool.append s

end Call

/-- The pool after some calls in order, whichever of them fail. -/
def fill (pool : StringPool) (calls : List Call) : StringPool :=
  calls.foldl Call.leave pool

/-! ## A call comes to everything or nothing -/

/-- How a call on a pool ends: with the new pool, or with an error and the old one. -/
def outcome (pool : StringPool) :
    Except Error (UInt32 × StringPool) → EStateM.Result Error StringPool UInt32
  | .ok (index, after) => .ok index after
  | .error error => .error error pool

/-- All checks are made before the first change, so the entry is appended as a whole or not at
all. -/
theorem appendEntryInPlace_eq (s : String) (pool : StringPool) :
    appendEntryInPlace s pool = pool.outcome (pool.appendEntry s) := by
  unfold appendEntry
  -- the checks are those of `appendEntry` the other way round
  show (if UInt32.size ≤ pool.strings.size then _ else _ : Updating UInt32) pool = _
  by_cases hcount : pool.strings.size < UInt32.size
  · rw [if_neg (Nat.not_le.mpr hcount), if_pos hcount]
    cases hsize : StringEntry.size pool.encoding s with
    | error error => rfl
    | ok size =>
      show (if UInt32.size ≤ pool.dataSize + size then _ else _ : Updating UInt32) pool = _
      dsimp only
      by_cases hdata : pool.dataSize + size < UInt32.size
      · rw [if_neg (Nat.not_le.mpr hdata), if_pos hdata]
        rfl
      · rw [if_pos (Nat.not_lt.mp hdata), if_neg hdata]
        rfl
  · rw [if_pos (Nat.not_lt.mp hcount), if_neg hcount]
    rfl

/-- **A call comes to everything or nothing**, and what it comes to is told by `add` and `append`.
-/
theorem Call.perform_eq (call : Call) (pool : StringPool) :
    call.perform pool = pool.outcome (call.result pool) := by
  cases call with
  | add s =>
    show (match pool.firstIndex[s]? with | some index => _ | none => _ : Updating UInt32) pool = _
    rw [result, StringPool.add]
    cases pool.firstIndex[s]? with
    | some index => rfl
    | none =>
      show EStateM.bind (appendEntryInPlace s) _ pool = _
      rw [EStateM.bind, appendEntryInPlace_eq]
      cases pool.appendEntry s <;> rfl
  | append s =>
    show EStateM.bind (appendEntryInPlace s) _ pool = _
    rw [result, StringPool.append, EStateM.bind, appendEntryInPlace_eq]
    cases pool.appendEntry s <;> rfl

namespace Call

variable {call : Call} {pool after : StringPool} {index : UInt32} {error : Error}

/-- A call in place succeeds as the call told at once does. -/
theorem perform_eq_ok_iff :
    call.perform pool = .ok index after ↔ call.result pool = .ok (index, after) := by
  rw [perform_eq]
  cases call.result pool with
  | error error => exact ⟨(nomatch ·), (nomatch ·)⟩
  | ok made =>
    constructor
    · rintro ⟨⟩
      rfl
    · rintro ⟨⟩
      rfl

/-- A call that fails has changed nothing. -/
theorem eq_of_perform_eq_error (h : call.perform pool = .error error after) : after = pool := by
  rw [perform_eq] at h
  cases hresult : call.result pool with
  | error _ =>
    rw [hresult] at h
    cases h
    rfl
  | ok made =>
    rw [hresult] at h
    cases h

/-- A string that is added is found at its first index if it is there; in every other case a call
appends. -/
theorem result_eq_ok_iff :
    call.result pool = .ok (index, after) ↔
      (call.isAdd = true ∧ pool.indexOf? call.string = some index ∧ after = pool) ∨
        (call.isAdd = true → pool.indexOf? call.string = none) ∧
          pool.append call.string = .ok (index, after) := by
  cases call with
  | add s =>
    rw [result, add_eq_ok_iff]
    simp only [isAdd, string, indexOf?, true_and, forall_const]
  | append s => simp only [result, isAdd, string, Bool.false_eq_true, false_and, false_or,
      false_implies, true_and]

/-- A call succeeds when there is nothing to be appended, or when there is room for it. -/
theorem exists_result_iff (hpool : pool.WellFormed) :
    (∃ index after, call.result pool = .ok (index, after)) ↔
      (call.isAdd = true ∧ ∃ index, pool.indexOf? call.string = some index) ∨
        ∃ n, StringEntry.size pool.encoding call.string = .ok n ∧
          pool.dataSize + n < UInt32.size := by
  simp only [result_eq_ok_iff, append_eq_ok_iff]
  constructor
  · rintro ⟨index, after, ⟨hadd, hfound, -⟩ | ⟨-, n, hsize, -, hdata, -⟩⟩
    · exact .inl ⟨hadd, index, hfound⟩
    · exact .inr ⟨n, hsize, hdata⟩
  · rintro (⟨hadd, index, hfound⟩ | ⟨n, hsize, hdata⟩)
    · exact ⟨index, pool, .inl ⟨hadd, hfound, rfl⟩⟩
    · -- an entry that fits is appended, unless its string is there
      by_cases hadd : call.isAdd = true ∧ ∃ index, pool.indexOf? call.string = some index
      · obtain ⟨hadd, index, hfound⟩ := hadd
        exact ⟨index, pool, .inl ⟨hadd, hfound, rfl⟩⟩
      · refine ⟨_, _, .inr ⟨fun hisAdd => ?_, n, hsize, hpool.size_lt, hdata, rfl, rfl⟩⟩
        exact Option.eq_none_iff_forall_ne_some.mpr fun index hfound => hadd ⟨hisAdd, index, hfound⟩

/-- The pool that a call leaves is that of its result, or the old one. -/
theorem leave_eq (call : Call) (pool : StringPool) :
    call.leave pool = match call.result pool with
      | .ok (_, after) => after
      | .error _ => pool := by
  rw [leave, perform_eq]
  cases call.result pool <;> rfl

end Call

/-! ## What a call keeps -/

/-- Every entry of a pool, its offset and its first index are the same in another pool. -/
structure KeptIn (pool after : StringPool) : Prop where
  get?_eq : ∀ {i s}, pool.get? i = some s → after.get? i = some s
  offset?_eq : ∀ {i n}, pool.offset? i = some n → after.offset? i = some n
  indexOf?_eq : ∀ {s i}, pool.indexOf? s = some i → after.indexOf? s = some i

/-- An entry comes behind all the others, so nothing that was there is moved. -/
theorem keptIn_of_append {pool after : StringPool} {s : String} {index : UInt32}
    (h : pool.append s = .ok (index, after)) : pool.KeptIn after where
  get?_eq {i t} ht := by
    obtain ⟨n, -, -, -, -, rfl⟩ := append_eq_ok_iff.mp h
    have hlt := (Array.getElem?_eq_some_iff.mp ht).1
    -- the entry is behind the last one, so every index in range keeps its string
    show (pool.strings.push s)[i.toNat]? = some t
    rwa [Array.getElem?_push, if_neg (Nat.ne_of_lt hlt)]
  offset?_eq {i m} hm := by
    obtain ⟨n, -, -, -, -, rfl⟩ := append_eq_ok_iff.mp h
    have hlt := (Array.getElem?_eq_some_iff.mp hm).1
    show (pool.offsets.push pool.dataSize)[i.toNat]? = some m
    rwa [Array.getElem?_push, if_neg (Nat.ne_of_lt hlt)]
  indexOf?_eq := indexOf?_of_append_of_eq_some h

theorem get?_of_append {pool after : StringPool} {s : String} {index : UInt32}
    (h : pool.append s = .ok (index, after)) : after.get? index = some s := by
  obtain ⟨n, -, hcount, -, rfl, rfl⟩ := append_eq_ok_iff.mp h
  show (pool.strings.push s)[(UInt32.ofNat pool.strings.size).toNat]? = some s
  rw [UInt32.toNat_ofNat_of_lt' hcount, Array.getElem?_push_size]

theorem Built.result {pool after : StringPool} {call : Call} {index : UInt32} (hpool : pool.Built)
    (h : call.result pool = .ok (index, after)) : after.Built := by
  cases call with
  | add s => exact hpool.add h
  | append s => exact hpool.append h

/-- What a call makes of a pool: everything it is to do, or nothing. -/
structure Call.KeepsStep (call : Call) (pool : StringPool) : Prop where
  /-- A call that fails leaves the pool exactly as it was. -/
  eq_of_error : ∀ error after, call.perform pool = .error error after → after = pool
  /-- A call that succeeds changes nothing that was there, and its string is where it says: it is
  found there, or it comes behind all the others. -/
  keptIn_of_ok : ∀ index after, call.perform pool = .ok index after →
    pool.KeptIn after ∧ after.get? index = some call.string ∧
      (call.isAdd = true ∧ after = pool ∨ after.strings = pool.strings.push call.string)
  /-- A call succeeds when its string has been added already, or its entry fits. -/
  exists_ok_iff : (∃ index after, call.perform pool = .ok index after) ↔
    (call.isAdd = true ∧ ∃ index, pool.indexOf? call.string = some index) ∨
      ∃ n, StringEntry.size pool.encoding call.string = .ok n ∧ pool.dataSize + n < UInt32.size

/-- Any call on a well-formed pool does everything or nothing. -/
theorem WellFormed.keepsStep {pool : StringPool} (hpool : pool.WellFormed) (call : Call) :
    call.KeepsStep pool where
  eq_of_error _ _ := Call.eq_of_perform_eq_error
  keptIn_of_ok index after h := by
    rcases Call.result_eq_ok_iff.mp (Call.perform_eq_ok_iff.mp h) with
      ⟨hadd, hfound, rfl⟩ | ⟨-, happend⟩
    · exact ⟨⟨id, id, id⟩, hpool.get?_of_indexOf? hfound, .inl ⟨hadd, rfl⟩⟩
    · refine ⟨keptIn_of_append happend, get?_of_append happend, .inr ?_⟩
      obtain ⟨n, -, -, -, -, rfl⟩ := append_eq_ok_iff.mp happend
      rfl
  exists_ok_iff := by
    simp only [Call.perform_eq_ok_iff]
    exact Call.exists_result_iff hpool

/-! ## The parts of a pool -/

/-- The parts of a pool are in step with each other. -/
structure InStep (pool : StringPool) : Prop where
  size_offsets : pool.offsets.size = pool.strings.size
  /-- An offset is the sum of the sizes of the entries before it, and the data as large as all. -/
  exists_sizes : ∃ sizes,
    List.Forall₂ (fun s n => StringEntry.size pool.encoding s = .ok n) pool.strings.toList sizes ∧
      (∀ i : UInt32, i.toNat < pool.size → pool.offset? i = some (sizes.take i.toNat).sum) ∧
      pool.dataSize = sizes.sum
  /-- A string is found at the least index where it stands. -/
  indexOf?_eq_some_iff : ∀ s i, pool.indexOf? s = some i ↔
    pool.get? i = some s ∧ ∀ j, pool.get? j = some s → i ≤ j

theorem entriesSize_eq_sum {encoding : StringEncoding} {strings : List String} {sizes : List Nat}
    (h : List.Forall₂ (fun s n => StringEntry.size encoding s = .ok n) strings sizes) :
    entriesSize encoding strings = sizes.sum := by
  induction h with
  | nil => rfl
  | cons hsize _ ih => rw [entriesSize, StringEntry.size_encode hsize, ih, List.sum_cons]

/-- The offset of an entry is where the entries begin, and the sizes of those before it. -/
theorem getElem?_entryOffsets {encoding : StringEncoding} {strings : List String}
    {sizes : List Nat}
    (h : List.Forall₂ (fun s n => StringEntry.size encoding s = .ok n) strings sizes)
    {start i : Nat} (hi : i < strings.length) :
    (entryOffsets encoding start strings)[i]? = some (start + (sizes.take i).sum) := by
  induction h generalizing start i with
  | nil => cases hi
  | cons hsize _ ih =>
    cases i with
    | zero => rfl
    | succ i =>
      rw [entryOffsets, List.getElem?_cons_succ, ih (Nat.lt_of_succ_lt_succ hi),
        StringEntry.size_encode hsize, List.take_succ_cons, List.sum_cons, Nat.add_assoc]

/-- The invariant of a pool, told without the functions that compute offsets. -/
theorem WellFormed.inStep {pool : StringPool} (h : pool.WellFormed) : pool.InStep where
  size_offsets := by
    rw [← Array.length_toList, h.offsets_eq, length_entryOffsets, Array.length_toList]
  exists_sizes := by
    obtain ⟨sizes, hsizes⟩ := exists_forall₂_of_forall h.sized
    refine ⟨sizes, hsizes, fun i hi => ?_, ?_⟩
    · rw [offset?, ← Array.getElem?_toList, h.offsets_eq, getElem?_entryOffsets hsizes hi,
        Nat.zero_add]
    · rw [h.dataSize_eq, entriesSize_eq_sum hsizes]
  indexOf?_eq_some_iff _ _ := h.indexOf?_eq_some_iff

/-! ## Runs -/

/-- What every successful call keeps holds after a run of calls. -/
theorem fill_induction {motive : StringPool → Prop} {start : StringPool} {calls : List Call}
    (hstart : motive start)
    (hcall : ∀ call ∈ calls, ∀ pool index after, motive pool →
      call.result pool = .ok (index, after) → motive after) :
    motive (start.fill calls) := by
  induction calls generalizing start with
  | nil => exact hstart
  | cons call rest ih =>
    refine ih ?_ fun c hc => hcall c (List.mem_cons_of_mem _ hc)
    rw [Call.leave_eq]
    cases hresult : call.result start with
    | error error => exact hstart -- the pool is the one it was
    | ok made => exact hcall call List.mem_cons_self start made.1 made.2 hstart hresult

/-- Whichever calls fail, the pool is one that has been built. -/
theorem built_fill (encoding : StringEncoding) (calls : List Call) :
    (fill { encoding } calls).Built :=
  fill_induction (.empty encoding) fun _ _ _ _ _ hpool h => hpool.result h

/-- No call changes the encoding. -/
theorem encoding_fill (encoding : StringEncoding) (calls : List Call) :
    (fill { encoding } calls).encoding = encoding := by
  refine fill_induction (motive := fun pool => pool.encoding = encoding) rfl ?_
  intro call _ pool index after hpool h
  rcases Call.result_eq_ok_iff.mp h with ⟨-, -, rfl⟩ | ⟨-, happend⟩
  · exact hpool
  · obtain ⟨n, -, -, -, -, rfl⟩ := append_eq_ok_iff.mp happend
    exact hpool

/-- Strings that are only added, never appended, are distinct. -/
theorem nodup_strings_fill (encoding : StringEncoding) {calls : List Call}
    (h : ∀ call ∈ calls, call.isAdd = true) :
    (fill { encoding } calls).strings.toList.Nodup := by
  -- `strings_of_add` is about well-formed pools, so that goes along
  refine And.right (fill_induction
    (motive := fun pool => pool.WellFormed ∧ pool.strings.toList.Nodup)
    ⟨wellFormed_empty encoding, List.nodup_nil⟩ ?_)
  rintro call hcall pool index after ⟨hpool, hnodup⟩ hresult
  cases call with
  | append s => cases h _ hcall
  | add s =>
    refine ⟨hpool.add hresult, ?_⟩
    rw [strings_of_add hpool hresult]
    split
    · exact hnodup
    · rename_i hnew
      refine List.nodup_append.mpr ⟨hnodup, List.pairwise_singleton _ s, fun t ht u hu heq => ?_⟩
      rw [heq, List.mem_singleton.mp hu] at ht
      exact hnew ht

theorem eq_of_get?_of_nodup {pool : StringPool} {s : String} {i j : UInt32}
    (hnodup : pool.strings.toList.Nodup) (hi : pool.get? i = some s) (hj : pool.get? j = some s) :
    i = j := by
  rw [get?, ← Array.getElem?_toList] at hi hj
  have hlt := (List.getElem?_eq_some_iff.mp hi).1
  exact UInt32.toNat_inj.mp ((List.getElem?_inj hlt hnodup).mp (hi.trans hj.symm))

/-- What holds of a pool that calls have filled, whichever of them failed. -/
structure FilledBy (encoding : StringEncoding) (calls : List Call) (pool : StringPool) : Prop where
  encoding_eq : pool.encoding = encoding
  inStep : pool.InStep
  keepsStep : ∀ call : Call, call.KeepsStep pool
  /-- Adding a string that is there gives its first index and changes nothing. -/
  add_of_get? : ∀ s i, pool.get? i = some s → ∃ first, pool.indexOf? s = some first ∧
    (Call.add s).perform pool = .ok first pool
  /-- Strings that were only added are distinct, and finding them undoes getting them. -/
  distinct : (∀ call ∈ calls, call.isAdd = true) → pool.strings.toList.Nodup ∧
    ∀ s i, pool.indexOf? s = some i ↔ pool.get? i = some s

/-- **The parts of a pool stay in step over every run of calls**, whichever of them fail. -/
theorem filledBy_fill (encoding : StringEncoding) (calls : List Call) :
    FilledBy encoding calls (fill { encoding } calls) := by
  have hpool := (built_fill encoding calls).wellFormed
  refine ⟨encoding_fill encoding calls, hpool.inStep, hpool.keepsStep, fun s i hget => ?_,
    fun hadds => ?_⟩
  · obtain ⟨first, hfirst, -⟩ := hpool.exists_indexOf?_of_get? hget
    refine ⟨first, hfirst, Call.perform_eq_ok_iff.mpr ?_⟩
    exact Call.result_eq_ok_iff.mpr (.inl ⟨rfl, hfirst, rfl⟩)
  · have hnodup := nodup_strings_fill encoding hadds
    refine ⟨hnodup, fun s i => ⟨hpool.get?_of_indexOf?, fun hget => ?_⟩⟩
    obtain ⟨first, hfirst, -⟩ := hpool.exists_indexOf?_of_get? hget
    rw [hfirst, eq_of_get?_of_nodup hnodup (hpool.get?_of_indexOf? hfirst) hget]

end BinaryXml.StringPool
