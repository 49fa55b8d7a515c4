import BinaryXml.Document.Basic
import Mathlib.Data.List.TakeDrop

/-!
# Names of attributes

Which names are read as a prefix and a local name, and which declare a prefix. A name has the prefix
in front of its first colon, unless that is empty or `xmlns`.
-/

namespace BinaryXml

/-- The name of the attribute that declares a prefix. -/
def declaredKey (name : String) : String :=
  if name.isEmpty then "xmlns" else "xmlns:" ++ name

namespace AttributeRole

/-! ## The first colon -/

theorem span_append_colon {front behind : List Char} (h : ':' ∉ front) :
    (front ++ ':' :: behind).span (· ≠ ':') = (front, ':' :: behind) := by
  have hfront : ∀ c ∈ front, decide (c ≠ ':') = true := fun c hc =>
    decide_eq_true fun hcolon => h (hcolon ▸ hc)
  rw [List.span_eq_takeWhile_dropWhile, List.takeWhile_append_of_pos hfront,
    List.dropWhile_append_of_pos hfront]
  simp

/-- A text is cut at its first colon, with none in front of it. -/
theorem eq_append_colon_of_span {text front behind : List Char} {c : Char}
    (h : text.span (· ≠ ':') = (front, c :: behind)) :
    text = front ++ ':' :: behind ∧ ':' ∉ front := by
  rw [List.span_eq_takeWhile_dropWhile, Prod.mk.injEq] at h
  obtain ⟨rfl, hbehind⟩ := h
  have hcolon : c = ':' := by
    have hhead := List.head?_dropWhile_not (fun c => decide (c ≠ ':')) text
    rw [hbehind] at hhead
    simpa using hhead
  subst hcolon
  refine ⟨?_, fun hmem => ?_⟩
  · rw [← hbehind, List.takeWhile_append_dropWhile]
  · have hall := List.all_eq_true.mp (List.all_takeWhile (l := text)) _ hmem
    simp at hall

/-! ## Ordinary attributes -/

theorem toList_append_colon (name localName : String) :
    (name ++ ":" ++ localName).toList = name.toList ++ ':' :: localName.toList := by
  simp

/-- An attribute with a prefix is written as the prefix, a colon and the name. The prefix is neither
empty nor that of declarations, and it holds no colon. -/
theorem of_classify_eq_ordinary_some {written value qualifier localName value' : String}
    (h : classify written value = .ordinary (some qualifier) localName value') :
    written = qualifier ++ ":" ++ localName ∧ value' = value ∧ qualifier ≠ "" ∧
      qualifier ≠ "xmlns" ∧ ':' ∉ qualifier.toList := by
  unfold classify at h
  split at h
  · cases h
  rename_i hnot
  split at h
  · cases h
  split at h <;> cases h
  rename_i first others c rest hspan
  -- the name is cut at its first colon, and something stands in front of it
  obtain ⟨htext, hcolon⟩ := eq_append_colon_of_span hspan
  refine ⟨?_, rfl, ?_, ?_, ?_⟩
  · rw [← String.toList_inj, toList_append_colon, String.toList_ofList, String.toList_ofList, htext]
  · intro hempty
    have hlist := congrArg String.toList hempty
    rw [String.toList_ofList] at hlist
    cases hlist
  · intro hxmlns
    have hlist := congrArg String.toList hxmlns
    rw [String.toList_ofList] at hlist
    -- such a name would have been a declaration
    have hdeclares : written.toList = "xmlns:".toList ++ rest := by
      rw [htext, hlist]
      rfl
    rw [Text.dropFront?_eq_some_iff.mpr hdeclares] at hnot
    cases hnot
  · rwa [String.toList_ofList]

/-- A name that is written so has that prefix, whatever its other part is. -/
theorem classify_qualified {qualifier localName : String} (value : String) (hempty : qualifier ≠ "")
    (hxmlns : qualifier ≠ "xmlns") (hcolon : ':' ∉ qualifier.toList) :
    classify (qualifier ++ ":" ++ localName) value
      = .ordinary (some qualifier) localName value := by
  have hlist := toList_append_colon qualifier localName
  have hspan : (qualifier.toList ++ ':' :: localName.toList).span (· ≠ ':')
      = (qualifier.toList, ':' :: localName.toList) := span_append_colon hcolon
  have hnot : Text.dropFront? "xmlns:".toList (qualifier ++ ":" ++ localName).toList = none := by
    rw [Option.eq_none_iff_forall_ne_some]
    intro rest hrest
    have hdeclares : "xmlns:".toList ++ rest = "xmlns".toList ++ ':' :: rest := rfl
    -- the text in front of the first colon is the same either way
    rw [Text.dropFront?_eq_some_iff, hlist, hdeclares] at hrest
    rw [hrest, span_append_colon (by decide), Prod.mk.injEq] at hspan
    exact hxmlns (String.toList_inj.mp hspan.1.symm)
  have hcolonless : qualifier ++ ":" ++ localName ≠ "xmlns" := by
    intro hequal
    have hmem : ':' ∈ "xmlns".toList := by
      rw [← hequal, hlist]
      exact List.mem_append_right _ List.mem_cons_self
    revert hmem
    decide
  unfold classify
  rw [hnot]
  dsimp only
  rw [if_neg hcolonless, hlist, hspan]
  cases hchars : qualifier.toList with
  | nil => exact absurd (String.toList_inj.mp hchars) hempty
  | cons first others =>
    dsimp only
    rw [← hchars, String.ofList_toList, String.ofList_toList]

/-- **What stands in front of the first colon is the prefix**, unless it is empty or declares one.
-/
theorem classify_eq_ordinary_some_iff {written value qualifier localName value' : String} :
    classify written value = .ordinary (some qualifier) localName value' ↔
      written = qualifier ++ ":" ++ localName ∧ value' = value ∧ qualifier ≠ "" ∧
        qualifier ≠ "xmlns" ∧ ':' ∉ qualifier.toList := by
  constructor
  · exact of_classify_eq_ordinary_some
  · rintro ⟨rfl, rfl, hempty, hxmlns, hcolon⟩
    exact classify_qualified _ hempty hxmlns hcolon

/-- A name without a prefix is read as it is. -/
theorem eq_of_classify_eq_ordinary_none {written value localName value' : String}
    (h : classify written value = .ordinary none localName value') :
    localName = written ∧ value' = value := by
  unfold classify at h
  split at h
  · cases h
  · split at h
    · cases h
    · split at h <;> cases h
      exact ⟨rfl, rfl⟩

/-! ## Declarations -/

/-- The attribute that is named for declaring a prefix does declare it. -/
theorem classify_declaredKey (name uri : String) :
    classify (declaredKey name) uri = .declaration name uri := by
  unfold declaredKey
  split
  · rename_i hempty
    rw [String.isEmpty_iff.mp hempty]
    rfl
  · have hfront : Text.dropFront? "xmlns:".toList ("xmlns:" ++ name).toList = some name.toList := by
      rw [Text.dropFront?_eq_some_iff, String.toList_append]
    rw [classify, hfront]
    dsimp only
    rw [String.ofList_toList]

/-- No two prefixes are declared by attributes of one name. -/
theorem declaredKey_injective {name other : String} (h : declaredKey name = declaredKey other) :
    name = other := by
  have hrole := classify_declaredKey name ""
  rw [h, classify_declaredKey] at hrole
  exact (AttributeRole.declaration.inj hrole).1.symm

end AttributeRole

end BinaryXml
