import BinaryXml.Markup.Reference
import BinaryXml.Text.Blank
import Std.Data.ExtHashMap.Lemmas

/-!
# The attributes of a tag

The content of a tag is a name, which ends at the first white space, and attributes of the form
`key = "value"` behind it. A key begins with any character that is not white space, be it `=`, and
goes on up to `=` or white space; a key may stand but once in a tag. Positions are byte offsets in
the content.
-/

namespace BinaryXml.Markup

/-- A place in the content of a tag. -/
structure Content where
  /-- What is still to be read. -/
  rest : List Char
  /-- The position of its first character. -/
  position : Nat

/-- A place in a tag's content behind the characters of a class at its front. -/
def Content.skip (p : Char → Bool) (content : Content) : Content where
  rest := content.rest.dropWhile p
  position := content.position + Text.byteLength (content.rest.takeWhile p)

theorem Content.length_skip_le (p : Char → Bool) (content : Content) :
    (content.skip p).rest.length ≤ content.rest.length :=
  Text.length_dropWhile_le p content.rest

/-- Whether a character goes on a key. -/
def isKeyCharacter (c : Char) : Bool :=
  c ≠ '=' && !Text.isMarkupSpace c

/-- Scan a key, which starts with `first` at a position, and its equals sign: the key, and what
follows the sign. -/
def scanKey (first : Char) (others : List Char) (position : Nat) :
    Except AttributeFault (String × Content) :=
  let key := String.ofList (first :: others.takeWhile isKeyCharacter)
  let behind := Content.skip isKeyCharacter ⟨others, position + first.utf8Size⟩
  let sign := behind.skip Text.isMarkupSpace
  match sign.rest with
  | '=' :: rest => .ok (key, ⟨rest, sign.position + 1⟩)
  | _ => .error (.equalsExpected sign.position)

/-- Scan a value, white space ahead of it included: what stands between its quotes, and what follows
them. -/
def scanValue (content : Content) : Except AttributeFault (List Char × Content) :=
  let start := content.skip Text.isMarkupSpace
  match start.rest with
  | [] => .error (.valueExpected start.position)
  | quote :: rest =>
    if quote = '"' ∨ quote = '\'' then
      let value : Content := ⟨rest, start.position + 1⟩
      let stop := value.skip (· ≠ quote)
      match stop.rest with
      | [] => .error (.quoteExpected stop.position quote)
      | _ :: behind => .ok (rest.takeWhile (· ≠ quote), ⟨behind, stop.position + 1⟩)
    else .error (.valueUnquoted start.position)

/-- A key is scanned off the front of the content. -/
theorem length_le_of_scanKey {first : Char} {others : List Char} {position : Nat} {key : String}
    {content : Content} (h : scanKey first others position = .ok (key, content)) :
    content.rest.length ≤ others.length := by
  unfold scanKey at h
  simp only at h
  split at h
  · rename_i rest hrest
    cases h
    have h₁ := Content.length_skip_le Text.isMarkupSpace
      (Content.skip isKeyCharacter ⟨others, position + first.utf8Size⟩)
    have h₂ := Content.length_skip_le isKeyCharacter ⟨others, position + first.utf8Size⟩
    rw [hrest] at h₁
    simp at *
    omega
  · cases h

/-- So is a value with its quotes. -/
theorem length_le_of_scanValue {content behind : Content} {value : List Char}
    (h : scanValue content = .ok (value, behind)) :
    behind.rest.length ≤ content.rest.length := by
  unfold scanValue at h
  simp only at h
  split at h
  · cases h
  · rename_i quote rest hrest
    split at h
    · split at h
      · cases h
      · rename_i last tail htail
        cases h
        have h₁ := Content.length_skip_le Text.isMarkupSpace content
        have h₂ := Content.length_skip_le (· ≠ quote)
          ⟨rest, (content.skip Text.isMarkupSpace).position + 1⟩
        rw [hrest] at h₁
        rw [htail] at h₂
        simp at *
        omega
    · cases h

/-- The attributes from a place on, their values with references replaced, after those already
`done`, the latest first; `keys` holds the positions of the keys of those. -/
def attributesOnto (keys : Std.ExtHashMap String Nat) (done : List (String × String))
    (content : Content) : Except Fault (List (String × String)) :=
  let start := content.skip Text.isMarkupSpace
  match _h : start.rest with
  | [] => .ok done.reverse
  | first :: others =>
    match _hkey : scanKey first others start.position with
    | .error fault => .error (.faultyAttribute fault)
    | .ok (key, behindKey) =>
      match keys[key]? with
      | some earlier => .error (.faultyAttribute (.duplicate start.position earlier))
      | none =>
        match _hvalue : scanValue behindKey with
        | .error fault => .error (.faultyAttribute fault)
        | .ok (raw, behind) =>
          match unescape raw with
          | .error fault => .error (.faultyReference fault)
          | .ok value =>
            attributesOnto (keys.insert key start.position) ((key, String.ofList value) :: done)
              behind
termination_by content.rest.length
decreasing_by
  have h₁ := length_le_of_scanKey _hkey
  have h₂ := length_le_of_scanValue _hvalue
  have h₃ := Content.length_skip_le Text.isMarkupSpace content
  rw [_h] at h₃
  simp at *
  omega

/-- The name of a tag: its content up to the first white space. -/
def tagName (content : List Char) : List Char :=
  content.takeWhile (!Text.isMarkupSpace ·)

/-- The attributes of a tag in order. -/
def tagAttributes (content : List Char) : Except Fault (List (String × String)) :=
  attributesOnto ∅ [] (Content.skip (!Text.isMarkupSpace ·) ⟨content, 0⟩)

end BinaryXml.Markup
