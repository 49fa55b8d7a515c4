import BinaryXml.Error
import BinaryXml.Text.Utf16

/-!
# Entries of a string pool

A pool stores each string as one entry: length fields, the text in the pool's encoding, and a
terminator. In UTF-8 two lengths stand in front, that in UTF-16 units and that in bytes, each of
one byte or, above 127, of two; in UTF-16 the length in units is one word or, above 32767, two.
The high bit of the first byte or word tells the long form.
-/

namespace BinaryXml

/-- The encoding of the strings of a pool. -/
inductive StringEncoding where
  | utf8
  | utf16
  deriving DecidableEq, Repr

namespace StringEntry

/-- The greatest length in units or bytes that a UTF-8 entry can state. -/
def greatestUtf8Length : Nat := 0x7FFF

/-- The greatest length in units that a UTF-16 entry can state. -/
def greatestUtf16Length : Nat := 0x7FFFFFFF

def shortLength (n : Nat) : List UInt8 :=
  if n ≤ 0x7F then [UInt8.ofNat n]
  else [UInt8.ofNat (0x80 + n / 0x100 % 0x80), UInt8.ofNat n]

def wordLength (n : Nat) : List UInt16 :=
  if n ≤ 0x7FFF then [UInt16.ofNat n]
  else [UInt16.ofNat (0x8000 + n / 0x10000 % 0x8000), UInt16.ofNat n]

/-- The number of bytes of a string's entry, or the error when its lengths cannot be stated. -/
def size (encoding : StringEncoding) (s : String) : Except Error Nat :=
  let units := Utf16.length s
  match encoding with
  | .utf8 =>
    let bytes := s.utf8ByteSize
    if units ≤ greatestUtf8Length ∧ bytes ≤ greatestUtf8Length then
      .ok ((shortLength units).length + (shortLength bytes).length + bytes + 1)
    else .error (.stringTooLong (max units bytes))
  | .utf16 =>
    let size := 2 * (wordLength units).length + 2 * units + 2
    if units ≤ greatestUtf16Length ∧ size < UInt32.size then .ok size
    else .error (.stringTooLong units)

def encode (encoding : StringEncoding) (s : String) : ByteArray :=
  match encoding with
  | .utf8 =>
    (shortLength (Utf16.length s) ++ shortLength s.utf8ByteSize).toByteArray
      ++ s.toUTF8 ++ [0].toByteArray
  | .utf16 =>
    let units := Utf16.encode s.toList
    ((wordLength units.length ++ units ++ [0]).flatMap Layout.u16.encode).toByteArray

def readShortLength : Reading Nat := do
  let first ← Reading.u8
  if first < 0x80 then return first.toNat
  else
    let second ← Reading.u8
    return (first.toNat - 0x80) * 0x100 + second.toNat

def readWordLength : Reading Nat := do
  let first ← Reading.u16
  if first < 0x8000 then return first.toNat
  else
    let second ← Reading.u16
    return (first.toNat - 0x8000) * 0x10000 + second.toNat

/-- Read an entry; it gives nothing when its UTF-16 units are no text. In UTF-8 the length in
units is passed over and the terminator is not looked at. -/
def read (encoding : StringEncoding) : Reading (Option String) :=
  match encoding with
  | .utf8 => do
    let _ ← readShortLength
    let bytes ← readShortLength
    return some (← Reading.text bytes)
  | .utf16 => do
    let length ← readWordLength
    let units ← Reading.units length
    return (Utf16.decode units).map String.ofList

/-- The string whose entry stands at an offset of the string data, if there is one. -/
def decode (encoding : StringEncoding) (data : ByteArray) (offset : Nat) : Option String :=
  match read encoding ⟨data, offset⟩ with
  | .ok entry _ => entry
  | .error _ _ => none

end StringEntry

end BinaryXml
