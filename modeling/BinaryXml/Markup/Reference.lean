import BinaryXml.Markup.Fault
import BinaryXml.Text.Split

/-!
# References

In texts and attribute values `&name;` stands for one of five characters and `&#number;` for the
character of that number, in decimal or, after an `x`, in hexadecimal digits. `unescape` replaces
all of them; the first that is wrong is reported with its place.
-/

namespace BinaryXml.Markup

/-- The value of a digit of some base, if the character is one. -/
def digitValue? (base : Nat) (c : Char) : Option Nat :=
  let value :=
    if '0' ≤ c ∧ c ≤ '9' then some (c.toNat - '0'.toNat)
    else if 'a' ≤ c ∧ c ≤ 'z' then some (c.toNat - 'a'.toNat + 10)
    else if 'A' ≤ c ∧ c ≤ 'Z' then some (c.toNat - 'A'.toNat + 10)
    else none
  value.filter (· < base)

/-- The number that some digits give after those already read, whose value is `value`. It has to fit
into 32 bits at every digit; a character that is no digit is reported before that. -/
def parseDigits (base value : Nat) : List Char → Except NumberFault Nat
  | [] => .ok value
  | c :: rest =>
    match digitValue? base c with
    | none => .error .invalidDigit
    | some digit =>
      if base * value + digit < UInt32.size then parseDigits base (base * value + digit) rest
      else .error .tooLarge

/-- The number that some digits of a base spell. -/
def parseNumber (base : Nat) : List Char → Except NumberFault Nat
  | [] => .error .empty
  | c :: rest => if c = '+' ∨ c = '-' then .error .signed else parseDigits base 0 (c :: rest)

/-- The character that the number of a character reference stands for. -/
def numberedCharacter (number : List Char) : Except NumberFault Char := do
  let code ← match number with
    | 'x' :: digits => parseNumber 16 digits
    | digits => parseNumber 10 digits
  if code = 0 then throw .zero
  if code.isValidChar then return Char.ofNat code else throw (.notCharacter code)

/-- The character that a name stands for. -/
def namedCharacter? (name : String) : Option Char :=
  match name with
  | "lt" => some '<'
  | "gt" => some '>'
  | "amp" => some '&'
  | "apos" => some '\''
  | "quot" => some '"'
  | _ => none

/-- The character that stands for the reference of a name, which begins at the byte `start`. -/
def resolveReference (start : Nat) (name : List Char) : Except ReferenceFault Char :=
  match name with
  | '#' :: number =>
    match numberedCharacter number with
    | .ok c => .ok c
    | .error fault => .error (.invalidNumber fault)
  | _ =>
    match namedCharacter? (String.ofList name) with
    | some c => .ok c
    | none => .error (.unknownEntity start (start + Text.byteLength name) (String.ofList name))

/-- Whether a character may stand between the ampersand and the semicolon of a reference. -/
def isNameCharacter (c : Char) : Bool :=
  c ≠ '&' && c ≠ ';'

/-- Replace the references in a text, which begins at the byte `offset` of the whole of `size`
bytes, behind what is `done` already, the latest first. -/
def unescapeOnto (size : Nat) (done : List Char) (offset : Nat) :
    List Char → Except ReferenceFault (List Char)
  | [] => .ok done.reverse
  | c :: rest =>
    if c = '&' then
      let name := rest.takeWhile isNameCharacter
      match _h : rest.dropWhile isNameCharacter with
      | ';' :: behind =>
        match resolveReference (offset + 1) name with
        | .error fault => .error fault
        | .ok replaced =>
          unescapeOnto size (replaced :: done) (offset + 2 + Text.byteLength name) behind
      | _ => .error (.semicolonMissing offset size)
    else unescapeOnto size (c :: done) (offset + c.utf8Size) rest
termination_by text => text.length
decreasing_by
  · have hle := Text.length_dropWhile_le isNameCharacter rest
    rw [_h] at hle
    simp at *
    omega
  · simp

/-- A text with its references replaced. -/
def unescape (text : List Char) : Except ReferenceFault (List Char) :=
  unescapeOnto (Text.byteLength text) [] 0 text

end BinaryXml.Markup
