import BinaryXml.Markup.Token

/-!
# The tokens of a text

`lex` splits a whole text into tokens, up to its end or up to the first markup that is wrong. Every
token takes at least one character, which `length_lt_of_scan` shows, so the splitting comes to an
end.
-/

namespace BinaryXml

namespace Markup

/-! ### Ends of markup

What stands behind the end of a piece of markup is shorter than what the search for it began with.
Each search passes over one character at a time, so the induction is on the text.
-/

/-- A tag takes its closing bracket at least. -/
theorem length_lt_of_splitTag {quote : Option Char} {done text front behind : List Char}
    (h : splitTag quote done text = some (front, behind)) : behind.length < text.length := by
  induction text generalizing quote done with
  | nil => cases h
  | cons c rest ih =>
    unfold splitTag at h
    split at h
    · exact Nat.lt_succ_of_lt (ih h)
    · split at h
      · cases h
        exact Nat.lt_succ_self _
      · exact Nat.lt_succ_of_lt (ih h)

/-- So does an instruction. -/
theorem length_lt_of_splitInstruction {previous : Char} {done text front behind : List Char}
    (h : splitInstruction previous done text = some (front, behind)) :
    behind.length < text.length := by
  induction text generalizing previous done with
  | nil => cases h
  | cons c rest ih =>
    rw [splitInstruction] at h
    split at h
    · cases h
      exact Nat.lt_succ_self _
    · exact Nat.lt_succ_of_lt (ih h)

/-- So does a declaration, whose brackets may be nested. -/
theorem length_lt_of_splitDoctype {depth : Nat} {done text front behind : List Char}
    (h : splitDoctype depth done text = some (front, behind)) : behind.length < text.length := by
  induction text generalizing depth done with
  | nil => cases h
  | cons c rest ih =>
    unfold splitDoctype at h
    split at h
    · exact Nat.lt_succ_of_lt (ih h)
    · split at h
      · split at h
        · cases h
          exact Nat.lt_succ_self _
        · exact Nat.lt_succ_of_lt (ih h)
      · exact Nat.lt_succ_of_lt (ih h)

/-- A pattern is passed over and then a second one is found: what is left is no longer than the
text. -/
theorem length_le_of_split_behind {opening closing text front behind : List Char}
    (h : (Text.dropFront? opening text).bind (Text.split? closing) = some (front, behind)) :
    behind.length ≤ text.length := by
  obtain ⟨body, hbody, hsplit⟩ := Option.bind_eq_some_iff.1 h
  have hle := Text.length_le_of_split? hsplit
  rw [Text.dropFront?_eq_some_iff.1 hbody, List.length_append]
  omega

/-! ### One token

One lemma for each kind of markup. The scanners differ in how they find the end and in what they
check of the content; what they leave is what stands behind the end that was found.
-/

section Scanners

variable {start : Nat} {text : List Char} {token : Token} {place : Place}

theorem length_le_of_scanCdata (h : scanCdata start text = .ok (token, place)) :
    place.rest.length ≤ text.length := by
  unfold scanCdata at h
  split at h
  · rename_i hsplit
    cases h
    exact length_le_of_split_behind hsplit
  · cases h

theorem length_le_of_scanComment (h : scanComment start text = .ok (token, place)) :
    place.rest.length ≤ text.length := by
  unfold scanComment at h
  split at h
  · rename_i hsplit
    cases h
    exact length_le_of_split_behind hsplit
  · cases h

/-- A declaration of the document type leaves no more than the text. -/
theorem length_le_of_scanDoctype (h : scanDoctype start text = .ok (token, place)) :
    place.rest.length ≤ text.length := by
  unfold scanDoctype at h
  split at h
  · rename_i hsplit
    dsimp only at h
    -- a declaration has to begin with its keyword and to name a type
    split at h
    · split at h
      · cases h
      · cases h
        exact Nat.le_of_lt (length_lt_of_splitDoctype hsplit)
    · cases h
  · cases h

theorem length_le_of_scanInstruction (h : scanInstruction start text = .ok (token, place)) :
    place.rest.length ≤ text.length := by
  unfold scanInstruction at h
  split at h
  · rename_i hsplit
    split at h
    · cases h
    · cases h
      exact Nat.le_of_lt (length_lt_of_splitInstruction hsplit)
  · cases h

theorem length_le_of_scanEndTag (h : scanEndTag start text = .ok (token, place)) :
    place.rest.length ≤ text.length := by
  unfold scanEndTag at h
  split at h
  · rename_i hsplit
    cases h
    exact Nat.le_of_lt (length_lt_of_splitTag hsplit)
  · cases h

/-- A start tag leaves no more than the text, whether it is empty or not. -/
theorem length_le_of_scanTag (h : scanTag start text = .ok (token, place)) :
    place.rest.length ≤ text.length := by
  unfold scanTag at h
  split at h
  · rename_i hsplit
    dsimp only at h
    -- with content or without, the tag ends at the same bracket
    split at h
    · cases h
      exact Nat.le_of_lt (length_lt_of_splitTag hsplit)
    · cases h
      exact Nat.le_of_lt (length_lt_of_splitTag hsplit)
  · cases h

/-- No markup leaves more than it was found in, whatever its first characters say that it is. -/
theorem length_le_of_scanMarkup (h : scanMarkup start text = .ok (token, place)) :
    place.rest.length ≤ text.length := by
  unfold scanMarkup at h
  split at h
  · refine Nat.le_succ_of_le ?_
    split at h
    · exact length_le_of_scanCdata h
    · exact length_le_of_scanComment h
    · exact length_le_of_scanDoctype h
    · exact length_le_of_scanDoctype h
    · cases h
  · exact Nat.le_succ_of_le (length_le_of_scanInstruction h)
  · exact Nat.le_succ_of_le (length_le_of_scanEndTag h)
  · exact length_le_of_scanTag h

end Scanners

/-- Every token takes at least one character. -/
theorem length_lt_of_scan {place behind : Place} {located : Located}
    (h : scan place = .ok (some (located, behind))) :
    behind.rest.length < place.rest.length := by
  unfold scan at h
  split at h
  · cases h
  · rename_i rest hrest
    simp only [bind, Except.bind, pure, Except.pure] at h
    split at h
    · cases h
    · rename_i found hfound
      cases h
      rw [hrest]
      exact Nat.lt_succ_of_le (length_le_of_scanMarkup hfound)
  · rename_i c rest _ hrest
    cases h
    rw [hrest]
    exact Nat.lt_succ_of_le (Text.length_dropWhile_le (· ≠ '<') rest)

theorem length_skipSpace_le (place : Place) :
    place.skipSpace.rest.length ≤ place.rest.length :=
  Text.length_dropWhile_le _ _

/-- The tokens of a text and the fault that ended it early, if one did. -/
structure Lexed where
  /-- The tokens in order. -/
  tokens : List Located
  /-- What is wrong behind them. -/
  fault : Option Fault
  deriving DecidableEq

/-- The tokens from a place on, after those already `done`, the latest first. -/
def lexOnto (done : List Located) (place : Place) : Lexed :=
  match _h : scan place.skipSpace with
  | .error fault => ⟨done.reverse, some fault⟩
  | .ok none => ⟨done.reverse, none⟩
  | .ok (some (located, behind)) => lexOnto (located :: done) behind
termination_by place.rest.length
decreasing_by
  have := length_lt_of_scan ‹_›
  have := length_skipSpace_le place
  omega

def lex (text : List Char) : Lexed :=
  lexOnto [] ⟨text, 0⟩

end Markup

end BinaryXml
