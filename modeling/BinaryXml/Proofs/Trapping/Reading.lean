import BinaryXml.StringPool.Entry
import BinaryXml.Proofs.Bytes.Reading

/-!
# Reads that may trap

On a machine, a slice out of range and a size past the greatest word end a program on the spot.
`slice`, `word` and the reads made of them have that end as an outcome of its own, `none`, which no
error can stand for. A read of `Reading` is *safe* when the read that makes the same steps and may
trap never does, and gives what it gives (`Follows`); the steps are those of a machine, with every
sum formed and every slice cut where a machine has to.
-/

namespace BinaryXml.Trapping

/-- The part of some bytes from `start` up to `stop`, when that is a part of them. -/
def slice (data : ByteArray) (start stop : Nat) : Option ByteArray :=
  if start ≤ stop ∧ stop ≤ data.size then some (data.extract start stop) else none

/-- A size, when it fits a 64-bit word. -/
def word (n : Nat) : Option Nat :=
  if n < UInt64.size then some n else none

theorem slice_eq_some {data : ByteArray} {start stop : Nat} (hstart : start ≤ stop)
    (hstop : stop ≤ data.size) : slice data start stop = some (data.extract start stop) :=
  if_pos ⟨hstart, hstop⟩

theorem word_eq_some {n : Nat} (h : n < UInt64.size) : word n = some n :=
  if_pos h

/-- A read that may trap. -/
abbrev Read := StateT Cursor (ExceptT ReadFault Option)

namespace Read

variable {α β : Type}

def trap : Read α := fun _ => none

def fail (fault : Cursor → ReadFault) : Read α := fun c => some (.error (fault c))

/-- The next `count` bytes. -/
def bytes (count : Nat) : Read ByteArray := fun c =>
  if c.data.size < c.position ∨ c.data.size - c.position < count then
    some (.error (c.endFault count))
  else
    (word (c.position + count)).bind fun stop =>
      (slice c.data c.position stop).bind fun piece =>
        some (.ok (piece, { c with position := stop }))

/-- The next record of a format, which takes a slice of the width of the format and no other. -/
def record (layout : Layout α) : Read α := do
  let piece ← bytes layout.width
  if piece.size = layout.width then return layout.decode piece.data.toList else trap

def listOnto (read : Read α) (done : List α) : Nat → Read (List α)
  | 0 => return done.reverse
  | count + 1 => do
    let value ← read
    listOnto read (value :: done) count

def list (read : Read α) (count : Nat) : Read (List α) :=
  listOnto read [] count

def text (count : Nat) : Read String := do
  let piece ← bytes count
  match Utf8.decode piece with
  | .ok text => return text
  | .error fault => fail fun _ => .notUtf8 fault

/-- The next `count` 16-bit words; the number of their bytes is formed with a check of its own. -/
def units (count : Nat) : Read (List UInt16) := do
  if 2 * count ≤ Reading.greatestCount then
    let piece ← bytes (2 * count)
    return Reading.words piece.data.toList
  else
    fail fun c => c.endFault Reading.greatestCount

end Read

/-! ## Safe reads -/

/-- The outcome of a read without the place where it ends up when it fails. -/
def outcome {α : Type} : EStateM.Result ReadFault Cursor α → Except ReadFault (α × Cursor)
  | .ok a c => .ok (a, c)
  | .error fault _ => .error fault

/-- The bytes are no more than a word can count. -/
def Sized (data : ByteArray) : Prop :=
  data.size < UInt64.size

/-- A part of bytes that can be counted can be counted too. -/
theorem Sized.extract {data : ByteArray} (h : Sized data) (start stop : Nat) :
    Sized (data.extract start stop) := by
  have hdata : data.size < UInt64.size := h
  rw [Sized, ByteArray.size_extract]
  omega

/-- The read never traps on bytes that can be counted, it does what the other one does, and it goes
on with the same bytes. -/
def Read.Follows {α : Type} (read : Read α) (reading : Reading α) : Prop :=
  ∀ c : Cursor, Sized c.data → read c = some (outcome (reading c)) ∧
    ∀ a after, reading c = .ok a after → after.data = c.data

namespace Read

variable {α β : Type}

/-- A value that is at hand traps nowhere. -/
theorem follows_pure (a : α) : (pure a : Read α).Follows (pure a) := by
  intro c _
  refine ⟨rfl, fun a after h => ?_⟩
  cases h
  rfl

/-- Reads that follow each other are safe together. The second one need be safe only for the values
that the first can give. -/
theorem Follows.bind {read : Read α} {reading : Reading α} {next : α → Read β}
    {nextReading : α → Reading β} (h : read.Follows reading)
    (hnext : ∀ a, (∃ c after, reading c = .ok a after) → (next a).Follows (nextReading a)) :
    (read >>= next).Follows (reading >>= nextReading) := by
  intro c hc
  obtain ⟨hread, hdata⟩ := h c hc
  cases hresult : reading c with
  | error fault after =>
    -- the first read fails, and the second one does not come to run
    have hboth : (reading >>= nextReading) c = .error fault after := by
      simp only [Bind.bind, EStateM.bind, hresult]
    rw [hboth]
    refine ⟨?_, fun b later hlater => nomatch hlater⟩
    rw [hresult] at hread
    simp only [Bind.bind, StateT.bind, ExceptT.bind, ExceptT.mk, hread]
    rfl
  | ok a after =>
    have hboth : (reading >>= nextReading) c = nextReading a after := by
      simp only [Bind.bind, EStateM.bind, hresult]
    -- the second read has the same bytes, so they can be counted for it too
    have hsame := hdata a after hresult
    obtain ⟨hnextRead, hnextData⟩ := hnext a ⟨c, after, hresult⟩ after (hsame ▸ hc)
    rw [hboth]
    refine ⟨?_, fun b later hlater => (hnextData b later hlater).trans hsame⟩
    rw [hresult] at hread
    rw [← hnextRead]
    simp only [Bind.bind, StateT.bind, ExceptT.bind, ExceptT.mk, hread]
    rfl

/-- Where the other read fails for sure, so does this one. -/
theorem follows_fail {fault : Cursor → ReadFault} {reading : Reading α}
    (h : ∀ c, reading c = .error (fault c) c) : (fail fault).Follows reading := by
  intro c _
  rw [h c]
  exact ⟨rfl, fun a after hafter => nomatch hafter⟩

/-- A read of bytes gives as many as it was asked for, and leaves them where they are. -/
theorem size_of_bytes {count : Nat} {c after : Cursor} {piece : ByteArray}
    (h : Reading.bytes count c = .ok piece after) : piece.size = count ∧ after.data = c.data := by
  obtain ⟨data, position⟩ := c
  by_cases hrange : position + count ≤ data.size
  · rw [Reading.bytes_eq_ok hrange] at h
    cases h
    refine ⟨?_, rfl⟩
    rw [ByteArray.size_extract]
    omega
  · rw [Reading.bytes_eq_error hrange] at h
    cases h

/-- The check in front makes sure of the sum and of the slice. -/
theorem follows_bytes (count : Nat) : (bytes count).Follows (Reading.bytes count) := by
  intro ⟨data, position⟩ hdata
  refine ⟨?_, fun piece after h => (size_of_bytes h).2⟩
  have hcount : data.size < UInt64.size := hdata
  rw [bytes]
  dsimp only
  by_cases hrange : position + count ≤ data.size
  · rw [Reading.bytes_eq_ok hrange, if_neg (by omega), word_eq_some (by omega), Option.bind_some,
      slice_eq_some (by omega) hrange]
    rfl
  · rw [Reading.bytes_eq_error hrange, if_pos (by omega)]
    rfl

/-- A record is taken out of a slice of its own width, so it finds its width. -/
theorem follows_record (layout : Layout α) : (record layout).Follows (Reading.record layout) := by
  refine (follows_bytes layout.width).bind fun piece hpiece => ?_
  obtain ⟨c, after, hpiece⟩ := hpiece
  rw [if_pos (size_of_bytes hpiece).1]
  exact follows_pure _

/-- A row of reads is safe when one of them is, for the values that are done already as well. -/
theorem Follows.listOnto {read : Read α} {reading : Reading α} (h : read.Follows reading)
    (done : List α) (count : Nat) :
    (listOnto read done count).Follows (Reading.listOnto reading done count) := by
  induction count generalizing done with
  | zero => exact follows_pure _
  | succ count ih => exact h.bind fun a _ => ih (a :: done)

theorem Follows.list {read : Read α} {reading : Reading α} (h : read.Follows reading)
    (count : Nat) : (list read count).Follows (Reading.list reading count) :=
  h.listOnto [] count

/-- A text is safe to read: bytes that spell none are an error and no trap. -/
theorem follows_text (count : Nat) : (text count).Follows (Reading.text count) := by
  refine (follows_bytes count).bind fun piece _ => ?_
  cases Utf8.decode piece with
  | ok text => exact follows_pure text
  | error fault => exact follows_fail fun _ => rfl

/-- Words are safe to read: their number is held against the greatest count before it is doubled. -/
theorem follows_units (count : Nat) : (units count).Follows (Reading.units count) := by
  unfold units Reading.units
  split
  · exact (follows_bytes _).bind fun piece _ => follows_pure _
  · exact follows_fail fun _ => rfl

end Read

/-! ## Entries of a string pool -/

def readShortLength : Read Nat := do
  let first ← Read.record .u8
  if first < 0x80 then return first.toNat
  else
    let second ← Read.record .u8
    return (first.toNat - 0x80) * 0x100 + second.toNat

def readWordLength : Read Nat := do
  let first ← Read.record .u16
  if first < 0x8000 then return first.toNat
  else
    let second ← Read.record .u16
    return (first.toNat - 0x8000) * 0x10000 + second.toNat

def readEntry (encoding : StringEncoding) : Read (Option String) :=
  match encoding with
  | .utf8 => do
    let _ ← readShortLength
    let bytes ← readShortLength
    return some (← Read.text bytes)
  | .utf16 => do
    let length ← readWordLength
    let units ← Read.units length
    return (Utf16.decode units).map String.ofList

theorem follows_readShortLength : readShortLength.Follows StringEntry.readShortLength := by
  refine (Read.follows_record .u8).bind fun first _ => ?_
  split
  · exact Read.follows_pure _
  · exact (Read.follows_record .u8).bind fun second _ => Read.follows_pure _

/-- The length of a UTF-16 entry is safe to read in both forms. -/
theorem follows_readWordLength : readWordLength.Follows StringEntry.readWordLength := by
  refine (Read.follows_record .u16).bind fun first _ => ?_
  split
  · exact Read.follows_pure _
  · exact (Read.follows_record .u16).bind fun second _ => Read.follows_pure _

/-- An entry is safe to read in either encoding, whatever length it states. -/
theorem follows_readEntry (encoding : StringEncoding) :
    (readEntry encoding).Follows (StringEntry.read encoding) := by
  cases encoding with
  | utf8 =>
    refine follows_readShortLength.bind fun _ _ => follows_readShortLength.bind fun bytes _ => ?_
    exact (Read.follows_text bytes).bind fun text _ => Read.follows_pure _
  | utf16 =>
    refine follows_readWordLength.bind fun length _ => ?_
    exact (Read.follows_units length).bind fun units _ => Read.follows_pure _

end BinaryXml.Trapping
