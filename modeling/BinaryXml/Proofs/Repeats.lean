import Mathlib.Data.List.Induction

/-!
# Lists without their repeats

`List.eraseDups` keeps the first of equal members. What is found first in a list is therefore found
first without the repeats, and a map that keeps members apart keeps repeats what they are.
-/

namespace BinaryXml

variable {α β : Type} [BEq α] [LawfulBEq α] [BEq β] [LawfulBEq β]

theorem eraseDups_append_singleton [DecidableEq α] (l : List α) (a : α) :
    (l ++ [a]).eraseDups = if a ∈ l then l.eraseDups else l.eraseDups ++ [a] := by
  rw [List.eraseDups_append]
  by_cases ha : a ∈ l
  · simp [List.removeAll, ha]
  · simp [List.removeAll, ha, List.eraseDups_cons]

/-- What has come already may be left out. -/
theorem eraseDups_append_append_of_subset {front middle : List α} (h : middle ⊆ front)
    (back : List α) : (front ++ (middle ++ back)).eraseDups = (front ++ back).eraseDups := by
  have hnone : middle.removeAll front = [] := by
    refine List.filter_eq_nil_iff.mpr fun a ha => ?_
    simp [h ha]
  have happend : (middle ++ back).removeAll front
      = middle.removeAll front ++ back.removeAll front := List.filter_append ..
  rw [List.eraseDups_append, List.eraseDups_append, happend, hnone, List.nil_append]

/-- Nothing is left twice. The repeats are found from the front, so the induction is on the end. -/
theorem nodup_eraseDups (l : List α) : l.eraseDups.Nodup := by
  classical
  induction l using List.reverseRecOn with
  | nil => exact List.nodup_nil
  | append_singleton l a ih =>
    rw [eraseDups_append_singleton]
    by_cases ha : a ∈ l
    · rwa [if_pos ha]
    · have hnew : a ∉ l.eraseDups := fun h => ha (List.mem_eraseDups.mp h)
      rw [if_neg ha, List.nodup_append]
      refine ⟨ih, List.pairwise_singleton _ a, ?_⟩
      rintro b hb c hc rfl
      rw [List.mem_singleton.mp hc] at hb
      exact hnew hb

/-- What is found first does not depend on repeats. -/
theorem find?_eraseDups (l : List α) (p : α → Bool) : l.eraseDups.find? p = l.find? p := by
  classical
  induction l using List.reverseRecOn with
  | nil => rfl
  | append_singleton l a ih =>
    rw [eraseDups_append_singleton]
    by_cases ha : a ∈ l
    · rw [if_pos ha, ih, List.find?_append]
      cases hfind : l.find? p with
      | some found => rfl
      | none =>
        -- the repeat is not what is looked for, since it was not found before
        have hp := List.find?_eq_none.mp hfind a ha
        simp [hp]
    · rw [if_neg ha, List.find?_append, List.find?_append, ih]

/-- A map that keeps the members of a list apart leaves the same repeats out. -/
theorem eraseDups_map {l : List α} {f : α → β} (hf : ∀ a ∈ l, ∀ b ∈ l, f a = f b → a = b) :
    (l.map f).eraseDups = l.eraseDups.map f := by
  classical
  induction l using List.reverseRecOn with
  | nil => rfl
  | append_singleton l a ih =>
    have hl : ∀ b ∈ l, ∀ c ∈ l, f b = f c → b = c := fun b hb c hc =>
      hf b (List.mem_append_left _ hb) c (List.mem_append_left _ hc)
    have hmem : f a ∈ l.map f ↔ a ∈ l := by
      refine ⟨fun h => ?_, List.mem_map_of_mem⟩
      obtain ⟨b, hb, hab⟩ := List.mem_map.mp h
      rwa [← hf b (List.mem_append_left _ hb) a (List.mem_append_right _ List.mem_cons_self) hab]
    rw [List.map_append, List.map_singleton, eraseDups_append_singleton, ih hl,
      eraseDups_append_singleton]
    by_cases ha : a ∈ l
    · rw [if_pos ha, if_pos (hmem.mpr ha)]
    · rw [if_neg ha, if_neg (fun h => ha (hmem.mp h)), List.map_append, List.map_singleton]

end BinaryXml
