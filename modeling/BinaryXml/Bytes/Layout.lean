/-!
# Fixed-width records

A binary document is built from records of a fixed width whose fields are little-endian
words. A `Layout` is one such record format: how a value is written, how it is read back, and
the two laws that make the pair a format. Larger records are put together from smaller ones by
`Layout.pair` and `Layout.convert`, which carry the laws along, so every record format of this
library is correct by construction.
-/

namespace BinaryXml

/-- A record format of a fixed width: writing a value and reading it back. -/
structure Layout (α : Type) where
  /-- The number of bytes of every record. -/
  width : Nat
  /-- The bytes of a value. -/
  encode : α → List UInt8
  /-- The value at the front of some bytes. What it gives on fewer than `width` bytes does not
  matter: records are only read from slices of their width. -/
  decode : List UInt8 → α
  /-- Every value is written in exactly `width` bytes. -/
  length_encode : ∀ a, (encode a).length = width
  /-- A written value is read back, whatever follows it. -/
  decode_encode : ∀ a rest, decode (encode a ++ rest) = a

namespace Layout

variable {α β : Type}

/-- The byte at a position, zero past the end. -/
private def byteAt (bytes : List UInt8) (i : Nat) : Nat :=
  (bytes[i]?.getD 0).toNat

def u8 : Layout UInt8 where
  width := 1
  encode n := [n]
  decode bytes := bytes[0]?.getD 0
  length_encode _ := rfl
  decode_encode _ _ := rfl

/-- A 16-bit word, low byte first. -/
def u16 : Layout UInt16 where
  width := 2
  encode n := [UInt8.ofNat n.toNat, UInt8.ofNat (n.toNat / 256)]
  decode bytes := UInt16.ofNat (byteAt bytes 0 + 256 * byteAt bytes 1)
  length_encode _ := rfl
  decode_encode n rest := by
    apply UInt16.toNat_inj.mp
    have := n.toNat_lt
    simp [byteAt]
    omega

/-- A 32-bit word, low byte first. -/
def u32 : Layout UInt32 where
  width := 4
  encode n := [UInt8.ofNat n.toNat, UInt8.ofNat (n.toNat / 256),
    UInt8.ofNat (n.toNat / 65536), UInt8.ofNat (n.toNat / 16777216)]
  decode bytes := UInt32.ofNat (byteAt bytes 0 + 256 * byteAt bytes 1
    + 65536 * byteAt bytes 2 + 16777216 * byteAt bytes 3)
  length_encode _ := rfl
  decode_encode n rest := by
    apply UInt32.toNat_inj.mp
    have := n.toNat_lt
    simp [byteAt]
    omega

/-- One record directly after another. -/
def pair (first : Layout α) (second : Layout β) : Layout (α × β) where
  width := first.width + second.width
  encode v := first.encode v.1 ++ second.encode v.2
  decode bytes := (first.decode bytes, second.decode (bytes.drop first.width))
  length_encode v := by simp [first.length_encode, second.length_encode]
  decode_encode v rest := by
    have hdrop : (first.encode v.1 ++ (second.encode v.2 ++ rest)).drop first.width
        = second.encode v.2 ++ rest := by
      rw [← first.length_encode v.1, List.drop_left]
    rw [List.append_assoc, first.decode_encode, hdrop, second.decode_encode]

/-- The same record seen as another type: `make` builds the value from what is stored, and
`parts` takes it apart again. -/
def convert (stored : Layout α) (make : α → β) (parts : β → α)
    (make_parts : ∀ b, make (parts b) = b) : Layout β where
  width := stored.width
  encode b := stored.encode (parts b)
  decode bytes := make (stored.decode bytes)
  length_encode b := stored.length_encode (parts b)
  decode_encode b rest := by rw [stored.decode_encode, make_parts]


end Layout

end BinaryXml
