/-!
# UTF-8 text

Bytes are turned into text, or into the place where they stop being UTF-8. A `Fault` names the
first byte that is not part of a complete character and says whether the text is wrong there
(and over how many bytes) or merely ends too early.
-/

namespace BinaryXml.Utf8

/-- Where and how bytes fail to be UTF-8. -/
structure Fault where
  /-- The number of bytes before the fault, all of them well-formed. -/
  validUpTo : Nat
  /-- The length of the ill-formed sequence, or nothing when the input ends inside a sequence
  that is well-formed so far. -/
  invalidLength : Option Nat
  deriving DecidableEq, Repr

def Fault.message (fault : Fault) : String :=
  match fault.invalidLength with
  | some length =>
    s!"invalid utf-8 sequence of {length} bytes from index {fault.validUpTo}"
  | none => s!"incomplete utf-8 byte sequence from index {fault.validUpTo}"

/-- The ranges in which the bytes after a first byte have to lie, or nothing when no character
starts with that byte. Overlong forms, surrogates and values past U+10FFFF are shut out by the
range of the second byte. -/
def continuations (first : UInt8) : Option (List (UInt8 × UInt8)) :=
  let anyTail : UInt8 × UInt8 := (0x80, 0xBF)
  if first < 0x80 then some []
  else if first < 0xC2 then none
  else if first < 0xE0 then some [anyTail]
  else if first = 0xE0 then some [(0xA0, 0xBF), anyTail]
  else if first = 0xED then some [(0x80, 0x9F), anyTail]
  else if first < 0xF0 then some [anyTail, anyTail]
  else if first = 0xF0 then some [(0x90, 0xBF), anyTail, anyTail]
  else if first < 0xF4 then some [anyTail, anyTail, anyTail]
  else if first = 0xF4 then some [(0x80, 0x8F), anyTail, anyTail]
  else none

/-- Scan on from a character that starts at `start`, of which `seen` bytes are read and whose
other bytes have to lie in the `pending` ranges. -/
def scanFault (start seen : Nat) (pending : List (UInt8 × UInt8)) :
    List UInt8 → Option Fault
  | [] => if pending.isEmpty then none else some ⟨start, none⟩
  | byte :: bytes =>
    match pending with
    | [] =>
      match continuations byte with
      | none => some ⟨start, some 1⟩
      | some [] => scanFault (start + 1) 0 [] bytes
      | some ranges => scanFault start 1 ranges bytes
    | (low, high) :: ranges =>
      if low ≤ byte ∧ byte ≤ high then
        match ranges with
        | [] => scanFault (start + seen + 1) 0 [] bytes
        | _ => scanFault start (seen + 1) ranges bytes
      else some ⟨start, some seen⟩

/-- The first fault of some bytes, if there is one. -/
def fault? (bytes : List UInt8) : Option Fault :=
  scanFault 0 0 [] bytes

/-- The text that some bytes spell, or where they fail to spell one. -/
def decode (bytes : ByteArray) : Except Fault String :=
  match String.fromUTF8? bytes with
  | some text => .ok text
  | none => .error ((fault? bytes.data.toList).getD ⟨bytes.size, none⟩)

end BinaryXml.Utf8
