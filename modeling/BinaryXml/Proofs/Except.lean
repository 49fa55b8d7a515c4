import Mathlib.Data.List.Forall2

/-!
# Programs that may fail

What it takes for a program in `Except` to give a value, one lemma for each way of putting programs
together, and how a change of the errors goes through a program.
-/

namespace BinaryXml

variable {α β ε : Type}

theorem throw_bind (error : ε) (f : α → Except ε β) :
    ((throw error : Except ε α) >>= f) = throw error :=
  rfl

/-! ## Success -/

/-- Two programs in a row give a value exactly when the first gives one from which the second goes
on to it. -/
theorem bind_eq_ok_iff {x : Except ε α} {f : α → Except ε β} {b : β} :
    (x >>= f) = .ok b ↔ ∃ a, x = .ok a ∧ f a = .ok b := by
  cases x with
  | error error => exact ⟨fun h => (by cases h), fun ⟨_, h, _⟩ => (by cases h)⟩
  | ok a => exact ⟨fun h => ⟨a, rfl, h⟩, fun ⟨_, ha, h⟩ => (by cases ha; exact h)⟩

/-- A changed value is the value of the program before the change. -/
theorem map_eq_ok_iff {x : Except ε α} {f : α → β} {b : β} :
    f <$> x = .ok b ↔ ∃ a, x = .ok a ∧ b = f a := by
  cases x with
  | error error => exact ⟨fun h => (by cases h), fun ⟨_, h, _⟩ => (by cases h)⟩
  | ok a =>
    exact ⟨fun h => ⟨a, rfl, (by cases h; rfl)⟩, fun ⟨_, ha, h⟩ => (by cases ha; rw [h]; rfl)⟩

theorem pure_eq_ok_iff {a b : α} : (pure a : Except ε α) = .ok b ↔ b = a :=
  ⟨fun h => (by cases h; rfl), fun h => (by rw [h]; rfl)⟩

/-- A guard lets a program go on when its condition does not hold. -/
theorem guard_eq_ok_iff {c : Prop} [Decidable c] {error : ε} {x : Except ε α} {a : α} :
    (if c then throw error else x) = .ok a ↔ ¬ c ∧ x = .ok a := by
  by_cases hc : c
  · rw [if_pos hc]
    exact ⟨fun h => (by cases h), fun h => absurd hc h.1⟩
  · rw [if_neg hc]
    exact ⟨fun h => ⟨hc, h⟩, fun h => h.2⟩

/-- A program that is taken only under a condition. -/
theorem ite_eq_ok_iff {c : Prop} [Decidable c] {error : ε} {x : Except ε α} {a : α} :
    (if c then x else .error error) = .ok a ↔ c ∧ x = .ok a := by
  by_cases hc : c
  · rw [if_pos hc]
    exact ⟨fun h => ⟨hc, h⟩, fun h => h.2⟩
  · rw [if_neg hc]
    exact ⟨fun h => (by cases h), fun h => absurd h.1 hc⟩

/-- A list is made exactly member by member: each of its members gives the one at the same place. -/
theorem mapM_eq_ok_iff {f : α → Except ε β} {l : List α} {made : List β} :
    l.mapM f = .ok made ↔ List.Forall₂ (fun a b => f a = .ok b) l made := by
  induction l generalizing made with
  | nil =>
    rw [List.forall₂_nil_left_iff, List.mapM_nil]
    exact pure_eq_ok_iff
  | cons a rest ih =>
    rw [List.mapM_cons, List.forall₂_cons_left_iff]
    simp only [bind_eq_ok_iff, pure_eq_ok_iff, ih]
    -- the same facts on both sides, in the order in which they are named
    constructor
    · rintro ⟨b, ha, bs, hrest, hmade⟩
      exact ⟨b, bs, ha, hrest, hmade⟩
    · rintro ⟨b, bs, ha, hrest, hmade⟩
      exact ⟨b, ha, bs, hrest, hmade⟩

/-- What can be made of each member can be made of a whole list. -/
theorem exists_forall₂_of_forall {R : α → β → Prop} {l : List α}
    (h : ∀ a ∈ l, ∃ b, R a b) : ∃ made, List.Forall₂ R l made := by
  induction l with
  | nil => exact ⟨[], .nil⟩
  | cons a rest ih =>
    obtain ⟨b, hb⟩ := h a List.mem_cons_self
    obtain ⟨made, hmade⟩ := ih fun c hc => h c (List.mem_cons_of_mem _ hc)
    exact ⟨b :: made, .cons hb hmade⟩

/-- Every member of what was made was made of something. -/
theorem exists_mem_left_of_forall₂ {R : α → β → Prop} {l : List α} {made : List β}
    (h : List.Forall₂ R l made) : ∀ b ∈ made, ∃ a ∈ l, R a b := by
  induction h with
  | nil => exact List.forall_mem_nil _
  | cons hab _ ih =>
    refine List.forall_mem_cons.mpr ⟨⟨_, List.mem_cons_self, hab⟩, fun b hb => ?_⟩
    obtain ⟨a, ha, hab⟩ := ih b hb
    exact ⟨a, List.mem_cons_of_mem _ ha, hab⟩

theorem exists_mem_right_of_forall₂ {R : α → β → Prop} {l : List α} {made : List β}
    (h : List.Forall₂ R l made) : ∀ a ∈ l, ∃ b ∈ made, R a b :=
  exists_mem_left_of_forall₂ h.flip

/-- Where a relation between two lists comes down to a property of the first, it holds when all the
members have the property. -/
theorem forall₂_iff_forall {R S : α → β → Prop} {p : α → Prop} {l : List α} {made : List β}
    (h : List.Forall₂ R l made) (hiff : ∀ a b, R a b → (S a b ↔ p a)) :
    List.Forall₂ S l made ↔ ∀ a ∈ l, p a := by
  induction h with
  | nil => exact ⟨fun _ => List.forall_mem_nil _, fun _ => .nil⟩
  | cons hab _ ih => rw [List.forall₂_cons, List.forall_mem_cons, hiff _ _ hab, ih]

/-! ## Failure -/

/-- The error of a program, if it fails. -/
def failure? : Except ε α → Option ε
  | .ok _ => none
  | .error error => some error

theorem failure?_eq_some_iff {x : Except ε α} {error : ε} :
    failure? x = some error ↔ x = .error error := by
  cases x with
  | ok a => exact ⟨(nomatch ·), (nomatch ·)⟩
  | error _ => rw [failure?, Option.some.injEq, Except.error.injEq]

theorem failure?_eq_none_iff {x : Except ε α} : failure? x = none ↔ ∃ a, x = .ok a := by
  cases x with
  | ok a => exact ⟨fun _ => ⟨a, rfl⟩, fun _ => rfl⟩
  | error _ => exact ⟨(nomatch ·), fun ⟨_, h⟩ => nomatch h⟩

theorem failure?_map (f : α → β) (x : Except ε α) : failure? (f <$> x) = failure? x := by
  cases x <;> rfl

/-- A program fails as its first part does, when nothing after that fails. -/
theorem failure?_bind {x : Except ε α} {f : α → Except ε β} (h : ∀ a, failure? (f a) = none) :
    failure? (x >>= f) = failure? x := by
  cases x with
  | ok a => exact h a
  | error _ => rfl

/-- A row of programs fails as the first of them that fails. -/
theorem failure?_mapM {f : α → Except ε β} {g : α → Option ε} {l : List α}
    (h : ∀ a ∈ l, failure? (f a) = g a) : failure? (l.mapM f) = l.findSome? g := by
  induction l with
  | nil => rfl
  | cons a rest ih =>
    have hrest := ih fun b hb => h b (List.mem_cons_of_mem _ hb)
    rw [List.mapM_cons, List.findSome?_cons, ← h a List.mem_cons_self]
    cases f a with
    | error _ => rfl
    | ok b =>
      show failure? (rest.mapM f >>= fun made => pure (b :: made)) = rest.findSome? g
      rw [failure?_bind fun _ => rfl, hrest]

/-- The failure on a list is the failure on one of its members. -/
theorem exists_mem_of_mapM_eq_error {f : α → Except ε β} {l : List α} {error : ε}
    (h : l.mapM f = .error error) : ∃ a ∈ l, f a = .error error := by
  have hfail : failure? (l.mapM f) = some error := failure?_eq_some_iff.mpr h
  rw [failure?_mapM fun _ _ => rfl, List.findSome?_eq_some_iff] at hfail
  obtain ⟨before, a, after, rfl, ha, -⟩ := hfail
  exact ⟨a, List.mem_append_right _ List.mem_cons_self, failure?_eq_some_iff.mp ha⟩

/-- Every error of the program is of a kind. -/
def FailsOnly (P : ε → Prop) (x : Except ε α) : Prop :=
  ∀ error, x = .error error → P error

section

variable {P Q : ε → Prop} {x : Except ε α}

theorem failsOnly_ok (a : α) : FailsOnly P (.ok a : Except ε α) :=
  nofun

theorem failsOnly_error {error : ε} (h : P error) : FailsOnly P (.error error : Except ε α) := by
  rintro _ ⟨⟩
  exact h

theorem FailsOnly.mono (h : FailsOnly P x) (hPQ : ∀ error, P error → Q error) : FailsOnly Q x :=
  fun error herror => hPQ error (h error herror)

/-- Two programs in a row fail only as each of them does; of the second one only the runs count that
the first one leads to. -/
theorem FailsOnly.bind {f : α → Except ε β} (h : FailsOnly P x)
    (hnext : ∀ a, x = .ok a → FailsOnly P (f a)) : FailsOnly P (x >>= f) := by
  intro error herror
  cases x with
  | error _ =>
    cases herror
    exact h _ rfl
  | ok a => exact hnext a rfl error herror

theorem FailsOnly.map (f : α → β) (h : FailsOnly P x) : FailsOnly P (f <$> x) := by
  intro error herror
  cases x with
  | error _ =>
    cases herror
    exact h _ rfl
  | ok a => cases herror

/-- A program run on every member of a list fails only as it does on one. -/
theorem failsOnly_mapM {f : α → Except ε β} (h : ∀ a, FailsOnly P (f a)) (l : List α) :
    FailsOnly P (l.mapM f) := by
  intro error herror
  obtain ⟨a, -, ha⟩ := exists_mem_of_mapM_eq_error herror
  exact h a error ha

theorem failsOnly_ite {c : Prop} [Decidable c] {y : Except ε α} (hx : c → FailsOnly P x)
    (hy : ¬ c → FailsOnly P y) : FailsOnly P (if c then x else y) := by
  by_cases hc : c
  · rw [if_pos hc]
    exact hx hc
  · rw [if_neg hc]
    exact hy hc

end

/-! ## Errors told in another way -/

/-- Errors that are told in another way at the end may be told so in each part. -/
theorem mapError_bind (f : ε → ε) (x : Except ε α) (g : α → Except ε β) :
    (x >>= g).mapError f = (x.mapError f >>= fun a => (g a).mapError f) := by
  cases x <;> rfl

theorem mapError_map (f : ε → ε) (g : α → β) (x : Except ε α) :
    (g <$> x).mapError f = g <$> x.mapError f := by
  cases x <;> rfl

/-- A guard fails with the changed error, under the same condition. -/
theorem mapError_guard (f : ε → ε) {c : Prop} [Decidable c] (error : ε) (x : Except ε α) :
    (if c then throw error else x).mapError f
      = if c then throw (f error) else x.mapError f := by
  by_cases hc : c
  · rw [if_pos hc, if_pos hc]
    rfl
  · rw [if_neg hc, if_neg hc]

/-- A change of the errors leaves the values as they are. -/
theorem mapError_eq_ok_iff {f : ε → ε} {x : Except ε α} {a : α} :
    x.mapError f = .ok a ↔ x = .ok a := by
  cases x with
  | ok b => rfl
  | error error => exact ⟨(nomatch ·), (nomatch ·)⟩

end BinaryXml
