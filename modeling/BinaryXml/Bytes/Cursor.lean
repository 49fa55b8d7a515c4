import BinaryXml.Bytes.Layout
import BinaryXml.Text.Utf8

/-!
# Reading at a position

A `Cursor` is a position in some bytes. Every read first compares the bytes it asks for with
the bytes that are left, so a count that was read from hostile input ends in a `ReadFault` and
never reaches past the data. A failed read leaves the cursor where it was, with one exception:
text that is not UTF-8 has been read, so `text` stands behind it when it fails.
-/

namespace BinaryXml

/-- Why a read failed. -/
inductive ReadFault where
  /-- Fewer bytes are left than the read asks for. -/
  | unexpectedEnd (position needed available : Nat)
  /-- The bytes read are not UTF-8. -/
  | notUtf8 (fault : Utf8.Fault)
  deriving DecidableEq, Repr

def ReadFault.message : ReadFault → String
  | unexpectedEnd position needed available =>
    s!"unexpected end of buffer at {position}: needed {needed} bytes "
      ++ s!"but only {available} available"
  | notUtf8 fault => "UTF-8 error: " ++ fault.message

/-- A position in some bytes. The position may lie past their end; then nothing can be read,
not even no bytes. -/
structure Cursor where
  /-- All the bytes, those before the position included. -/
  data : ByteArray
  /-- The offset of the next byte to read. -/
  position : Nat := 0

namespace Cursor

def remaining (c : Cursor) : Nat :=
  c.data.size - c.position

def isAtEnd (c : Cursor) : Bool :=
  c.data.size ≤ c.position

/-- The bytes from the position to the end. -/
def rest (c : Cursor) : ByteArray :=
  c.data.extract (min c.position c.data.size) c.data.size

/-- The fault of a read that asks for more bytes than are left. -/
def endFault (c : Cursor) (needed : Nat) : ReadFault :=
  .unexpectedEnd c.position needed c.remaining

/-- The next `count` bytes. -/
def peek (count : Nat) (c : Cursor) : Except ReadFault ByteArray :=
  if c.position + count ≤ c.data.size then
    .ok (c.data.extract c.position (c.position + count))
  else .error (c.endFault count)

end Cursor

/-- A read: it moves a cursor and gives a value or a fault. -/
abbrev Reading := EStateM ReadFault Cursor

namespace Reading

/-- The next `count` bytes, moving behind them. -/
def bytes (count : Nat) : Reading ByteArray := fun c =>
  match c.peek count with
  | .ok slice => .ok slice { c with position := c.position + count }
  | .error fault => .error fault c

/-- The next record of a format. -/
def record {α : Type} (layout : Layout α) : Reading α := do
  let slice ← bytes layout.width
  return layout.decode slice.data.toList

/-- The values of `count` more reads in a row, after those already `done`, the latest first. -/
def listOnto {α : Type} (read : Reading α) (done : List α) : Nat → Reading (List α)
  | 0 => return done.reverse
  | count + 1 => do
    let value ← read
    listOnto read (value :: done) count

/-- The values of `count` reads in a row. -/
def list {α : Type} (read : Reading α) (count : Nat) : Reading (List α) :=
  listOnto read [] count

def u8 : Reading UInt8 := record .u8

def u16 : Reading UInt16 := record .u16

def u32 : Reading UInt32 := record .u32

/-- The text of the next `count` bytes. -/
def text (count : Nat) : Reading String := do
  let slice ← bytes count
  match Utf8.decode slice with
  | .ok text => return text
  | .error fault => throw (.notUtf8 fault)

/-- Counts of bytes are 64-bit words; this is the greatest. -/
def greatestCount : Nat := UInt64.size - 1

/-- The 16-bit words of some bytes, after those already `done`, the latest first. -/
def wordsOnto (done : List UInt16) : List UInt8 → List UInt16
  | low :: high :: rest => wordsOnto (Layout.u16.decode [low, high] :: done) rest
  | _ => done.reverse

/-- The 16-bit words that some bytes hold, an odd byte at the end left out. -/
def words (bytes : List UInt8) : List UInt16 :=
  wordsOnto [] bytes

/-- The next `count` 16-bit words. When their number of bytes is no count of bytes, the fault
names the greatest count there is. -/
def units (count : Nat) : Reading (List UInt16) := do
  if 2 * count ≤ greatestCount then
    let slice ← bytes (2 * count)
    return words slice.data.toList
  else
    throw ((← get).endFault greatestCount)

end Reading

end BinaryXml
