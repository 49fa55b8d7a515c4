/-!
# Parts of a text

Taking a text apart at its front and at the first occurrence of a pattern, and the number of bytes
that a text takes in UTF-8.
-/

namespace BinaryXml.Text

/-- The number of bytes of a text in UTF-8. -/
def byteLength (text : List Char) : Nat :=
  text.foldl (fun n c => n + c.utf8Size) 0

/-- What is left of a text behind the given front, if it has that front. -/
def dropFront? : List Char → List Char → Option (List Char)
  | [], text => some text
  | _ :: _, [] => none
  | p :: front, c :: text => if p = c then dropFront? front text else none

/-- The front is dropped when the text begins with it. -/
theorem dropFront?_eq_some_iff {front text behind : List Char} :
    dropFront? front text = some behind ↔ text = front ++ behind := by
  induction front generalizing text with
  | nil => simp [dropFront?]
  | cons p front ih =>
    cases text with
    | nil => simp [dropFront?]
    | cons c text =>
      by_cases hpc : p = c
      · simp [dropFront?, hpc, ih]
      · simp [dropFront?, hpc, Ne.symm hpc]

/-- What stands before the first occurrence of a pattern and what stands behind it; `done` is what
has been passed over already, the latest first. -/
def splitOnto (pattern done : List Char) : List Char → Option (List Char × List Char)
  | [] => none
  | c :: rest =>
    match dropFront? pattern (c :: rest) with
    | some behind => some (done.reverse, behind)
    | none => splitOnto pattern (c :: done) rest

/-- What stands before the first occurrence of a pattern in a text and what stands behind it. The
pattern is not empty. -/
def split? (pattern text : List Char) : Option (List Char × List Char) :=
  splitOnto pattern [] text

/-- What stands behind the pattern is a part of the text. -/
theorem length_le_of_splitOnto {pattern done text front behind : List Char}
    (h : splitOnto pattern done text = some (front, behind)) : behind.length ≤ text.length := by
  induction text generalizing done with
  | nil => simp [splitOnto] at h
  | cons c rest ih =>
    rw [splitOnto] at h
    split at h
    · rename_i tail htail
      cases h
      rw [dropFront?_eq_some_iff.1 htail]
      simp
    · have := ih h
      simp
      omega

theorem length_le_of_split? {pattern text front behind : List Char}
    (h : split? pattern text = some (front, behind)) : behind.length ≤ text.length :=
  length_le_of_splitOnto h

theorem length_dropWhile_le (p : Char → Bool) (text : List Char) :
    (text.dropWhile p).length ≤ text.length :=
  (List.dropWhile_sublist p).length_le

end BinaryXml.Text
