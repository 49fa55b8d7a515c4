import BinaryXml.Bytes.Sink

/-!
# Writes as replays

A write that does not look at its sink is known by what it writes when nothing limits it: the bytes
and the failure at their end. `Writing.replay` is the write with a given outcome of that kind, and
every write of this library is one. Replays compose, so the outcome of a long write is put together
from those of its parts, and none of the lemmas further up reasons about sinks.
-/

namespace BinaryXml

/-! ## Joined pieces -/

/-- Pieces of bytes one after the other. -/
def joined : List ByteArray → ByteArray
  | [] => .empty
  | piece :: rest => piece ++ joined rest

@[simp] theorem joined_nil : joined [] = .empty := rfl

@[simp] theorem joined_cons (piece : ByteArray) (rest : List ByteArray) :
    joined (piece :: rest) = piece ++ joined rest := rfl

/-- Pieces in two rows are joined row by row. -/
theorem joined_append (first second : List ByteArray) :
    joined (first ++ second) = joined first ++ joined second := by
  induction first with
  | nil => simp
  | cons piece rest ih =>
    rw [List.cons_append, joined_cons, joined_cons, ih, ByteArray.append_assoc]

/-- Pieces that come from lists of bytes, joined in one go. -/
theorem joined_map_toByteArray {α : Type} (bytes : α → List UInt8) (l : List α) :
    joined (l.map fun a => (bytes a).toByteArray) = (l.flatMap bytes).toByteArray := by
  induction l with
  | nil => simp
  | cons a rest ih =>
    rw [List.map_cons, joined_cons, ih, List.flatMap_cons, List.toByteArray_append]

/-! ## Outcomes of unlimited writes -/

namespace Written

/-- What is written when one write follows another. A failure of the first is the end. -/
def andThen (first second : Written) : Written :=
  match first.failure with
  | some _ => first
  | none => ⟨first.stored ++ second.stored, second.failure⟩

def inTurn : List Written → Written
  | [] => ⟨.empty, none⟩
  | written :: rest => written.andThen (inTurn rest)

/-- All the bytes at once, or none of them and a failure. -/
def ofExcept : Except Error ByteArray → Written
  | .ok bytes => ⟨bytes, none⟩
  | .error error => ⟨.empty, some error⟩

theorem andThen_of_failure_eq_none {first : Written} (second : Written)
    (h : first.failure = none) :
    first.andThen second = ⟨first.stored ++ second.stored, second.failure⟩ := by
  rw [andThen, h]

end Written

namespace Writing

/-- A write goes on from where the one before it has ended. -/
theorem bind_eq_of_eq_ok {α β : Type} {write : Writing α} {next : α → Writing β}
    {sink after : Sink} {a : α} (h : write sink = .ok a after) :
    (write >>= next) sink = next a after := by
  show EStateM.bind write next sink = _
  rw [EStateM.bind, h]

/-- A write that fails leaves the sink to no other. -/
theorem bind_eq_of_eq_error {α β : Type} {write : Writing α} {next : α → Writing β}
    {sink after : Sink} {error : Error} (h : write sink = .error error after) :
    (write >>= next) sink = .error error after := by
  show EStateM.bind write next sink = _
  rw [EStateM.bind, h]

/-! ## Replays -/

/-- The write that ends as given when nothing limits it; `full` is its error when the sink runs out
of room. -/
def replay (full : Error) (written : Written) : Writing Unit := do
  put full written.stored
  match written.failure with
  | none => pure ()
  | some error => throw error

theorem put_empty (full : Error) : put full .empty = pure () := by
  funext ⟨stored, room⟩
  cases room <;> simp [put, pure, EStateM.pure]

/-- Two pieces in a row are one piece: a piece that does not fit is kept as far as it fits, whether
or not it is cut into two. -/
theorem put_bind_put (full : Error) (first second : ByteArray) :
    (do put full first; put full second) = put full (first ++ second) := by
  funext ⟨stored, room⟩
  cases room with
  | none => simp [put, bind, EStateM.bind, ByteArray.append_assoc]
  | some room =>
    by_cases hfirst : first.size ≤ room
    · by_cases hboth : first.size + second.size ≤ room
      · have hsecond : second.size ≤ room - first.size := by omega
        simp only [put, bind, EStateM.bind, hfirst, hsecond, hboth, ByteArray.size_append, if_true,
          ByteArray.append_assoc]
        rw [show room - first.size - second.size = room - (first.size + second.size) from by omega]
      · have hsecond : ¬ second.size ≤ room - first.size := by omega
        -- the first piece fits whole, and what is kept of both ends inside the second
        have hcut : first.extract 0 room = first := by
          have hmax := ByteArray.extract_zero_max_size (a := first) (i := room)
          rwa [Nat.max_eq_left hfirst] at hmax
        simp [put, bind, EStateM.bind, hfirst, hsecond, hboth, ByteArray.extract_append, hcut,
          ByteArray.append_assoc]
    · have hboth : ¬ first.size + second.size ≤ room := by omega
      have hnone : second.extract 0 (room - first.size) = .empty := by
        rw [show room - first.size = 0 from by omega, ByteArray.extract_same]
      simp [put, bind, EStateM.bind, hfirst, hboth, ByteArray.extract_append, hnone]

theorem put_eq_replay (full : Error) (piece : ByteArray) :
    put full piece = replay full ⟨piece, none⟩ := by
  simp [replay]

theorem pure_eq_replay (full : Error) : (pure () : Writing Unit) = replay full ⟨.empty, none⟩ := by
  rw [← put_eq_replay, put_empty]

theorem throw_eq_replay (full error : Error) :
    (throw error : Writing Unit) = replay full ⟨.empty, some error⟩ := by
  simp [replay, put_empty]

/-- Replays compose as their outcomes do, in limited room too. -/
theorem replay_bind_replay (full : Error) (first second : Written) :
    (do replay full first; replay full second) = replay full (first.andThen second) := by
  obtain ⟨stored, failure⟩ := first
  cases failure with
  | none =>
    -- two pieces in a row, and the end of the second write
    rw [Written.andThen_of_failure_eq_none _ rfl, ← put_eq_replay]
    simp only [replay]
    rw [← bind_assoc, put_bind_put]
  | some error =>
    -- the first write has failed: nothing of the second is seen
    have hthrow : (do (throw error : Writing Unit); replay full second) = throw error := by
      funext sink
      rfl
    simp only [Written.andThen, replay, bind_assoc] at hthrow ⊢
    rw [hthrow]

/-- A list of writes that are replays is the replay of their outcomes in turn. -/
theorem each_eq_replay {α : Type} (full : Error) {write : α → Writing Unit} {outcome : α → Written}
    {l : List α} (h : ∀ a ∈ l, write a = replay full (outcome a)) :
    each write l = replay full (.inTurn (l.map outcome)) := by
  induction l with
  | nil => exact pure_eq_replay full
  | cons a rest ih =>
    rw [each, h a List.mem_cons_self, ih fun b hb => h b (List.mem_cons_of_mem _ hb),
      replay_bind_replay]
    rfl

/-- A list of pieces of bytes is written like the pieces joined. -/
theorem each_eq_bytes {α : Type} {write : α → Writing Unit} {piece : α → ByteArray} {l : List α}
    (h : ∀ a ∈ l, write a = bytes (piece a)) :
    each write l = bytes (joined (l.map piece)) := by
  induction l with
  | nil => exact (put_empty _).symm
  | cons a rest ih =>
    rw [each, h a List.mem_cons_self, ih fun b hb => h b (List.mem_cons_of_mem _ hb)]
    exact put_bind_put _ _ _

theorem each_record {α : Type} (layout : Layout α) (l : List α) :
    each (record layout) l = bytes (l.flatMap layout.encode).toByteArray := by
  rw [← joined_map_toByteArray]
  exact each_eq_bytes fun _ _ => rfl

theorem bytes_bind_bytes (first second : ByteArray) :
    (do bytes first; bytes second) = bytes (first ++ second) :=
  put_bind_put _ _ _

/-- The bytes of an unlimited replay. -/
theorem toBytes_replay (full : Error) (written : Written) :
    (replay full written).toBytes = match written.failure with
      | none => .ok written.stored
      | some error => .error error := by
  obtain ⟨stored, failure⟩ := written
  cases failure with
  | none =>
    show Except.ok (ByteArray.empty ++ stored) = .ok stored
    rw [ByteArray.empty_append]
  | some error => rfl

/-- Bytes are given only by a write that does not fail, and then all of its bytes are given. -/
theorem toBytes_replay_eq_ok_iff (full : Error) (written : Written) (b : ByteArray) :
    (replay full written).toBytes = .ok b ↔ written.failure = none ∧ written.stored = b := by
  rw [toBytes_replay]
  cases written.failure <;> simp

end Writing

end BinaryXml
