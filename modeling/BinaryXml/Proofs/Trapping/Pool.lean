import BinaryXml.Proofs.StringPool.Entry
import BinaryXml.Proofs.Trapping.Decoding
import BinaryXml.StringPool.Format

/-!
# Decoding string pools with reads that may trap

The table of offsets, the string data between its two ends and the entries in it are all found by
words that a string pool's chunk states of itself. The ends are compared with each other and with
the chunk before the string data is cut out; an entry is read at any offset, since no sum is formed
there before the offset is known to lie within the data.
-/

namespace BinaryXml.Trapping

/-! ## Entries -/

/-- The string whose entry stands at an offset of the string data, if there is one. -/
def decodeEntry (encoding : StringEncoding) (data : ByteArray) (offset : Nat) :
    Option (Option String) :=
  (readEntry encoding ⟨data, offset⟩).run.map fun
    | .ok (entry, _) => entry
    | .error _ => none

/-- An entry is decoded without a trap at any offset, inside the data or behind it. -/
theorem decodeEntry_eq_some (encoding : StringEncoding) {data : ByteArray} (hdata : Sized data)
    (offset : Nat) :
    decodeEntry encoding data offset = some (StringEntry.decode encoding data offset) := by
  have hread : (readEntry encoding ⟨data, offset⟩).run
      = some (outcome (StringEntry.read encoding ⟨data, offset⟩)) :=
    (follows_readEntry encoding ⟨data, offset⟩ hdata).1
  rw [decodeEntry, hread, Option.map_some, StringEntry.decode]
  cases StringEntry.read encoding ⟨data, offset⟩ <;> rfl

/-- The number of bytes of a string's entry. In UTF-8 it is a plain sum; in UTF-16 the product and
the sum are formed with checks of their own. -/
def entrySize (encoding : StringEncoding) (s : String) : Decoding Nat := do
  let units := Utf16.length s
  match encoding with
  | .utf8 =>
    let bytes := s.utf8ByteSize
    if StringEntry.greatestUtf8Length < units ∨ StringEntry.greatestUtf8Length < bytes then
      throw (.stringTooLong (max units bytes))
    word ((StringEntry.shortLength units).length + (StringEntry.shortLength bytes).length
      + bytes + 1)
  | .utf16 =>
    let size := 2 * (StringEntry.wordLength units).length + 2 * units + 2
    if StringEntry.greatestUtf16Length < units ∨ UInt32.size ≤ size then
      throw (.stringTooLong units)
    return size

/-- Append a string to a pool; the index and the end of the string data are 32-bit words, formed
with checks of their own. -/
def append (s : String) (pool : StringPool) : Decoding StringPool := do
  if UInt32.size ≤ pool.strings.size then
    throw .chunkTooLarge
  let size ← entrySize pool.encoding s
  if UInt32.size ≤ pool.dataSize + size then
    throw .chunkTooLarge
  return { pool with
    strings := pool.strings.push s
    offsets := pool.offsets.push pool.dataSize
    firstIndex := pool.firstIndex.insertIfNew s (UInt32.ofNat pool.strings.size)
    dataSize := pool.dataSize + size }

/-- The size of an entry is formed without a trap, since a string that is too long is refused
first. -/
theorem agrees_entrySize (encoding : StringEncoding) (s : String) :
    Agrees (entrySize encoding s) (StringEntry.size encoding s) := by
  cases encoding with
  | utf8 =>
    refine agrees_guard_of_iff_not (by omega) _ fun hshort => ?_
    -- the sum is that of a short text and of at most four bytes of lengths
    have hunits := StringEntry.length_shortLength_le (Utf16.length s)
    have hbytes := StringEntry.length_shortLength_le s.utf8ByteSize
    have hgreatest : StringEntry.greatestUtf8Length = 0x7FFF := rfl
    have h64 : UInt64.size = 2 ^ 64 := rfl
    rw [word_eq_some (by omega)]
    exact agrees_pure _
  | utf16 => exact agrees_guard_of_iff_not (by omega) _ fun _ => agrees_pure _

/-- A string is appended without a trap. The index and the end of the data are checked before they
are formed. -/
theorem agrees_append (s : String) (pool : StringPool) :
    Agrees (append s pool) (Prod.snd <$> pool.append s) := by
  have happend : Prod.snd <$> pool.append s =
      if pool.strings.size < UInt32.size then
        StringEntry.size pool.encoding s >>= fun size =>
          if pool.dataSize + size < UInt32.size then
            .ok { pool with
              strings := pool.strings.push s
              offsets := pool.offsets.push pool.dataSize
              firstIndex := pool.firstIndex.insertIfNew s (UInt32.ofNat pool.strings.size)
              dataSize := pool.dataSize + size }
          else .error .chunkTooLarge
      else .error .chunkTooLarge := by
    rw [StringPool.append, StringPool.appendEntry]
    by_cases hcount : pool.strings.size < UInt32.size
    · rw [if_pos hcount, if_pos hcount]
      cases StringEntry.size pool.encoding s with
      | error error => rfl
      | ok size =>
        dsimp only [Bind.bind, Except.bind]
        by_cases hfits : pool.dataSize + size < UInt32.size
        · rw [if_pos hfits, if_pos hfits]
          rfl
        · rw [if_neg hfits, if_neg hfits]
          rfl
    · rw [if_neg hcount, if_neg hcount]
      rfl
  rw [happend]
  refine agrees_guard_of_iff_not (by omega) _ fun _ => (agrees_entrySize _ s).bind fun size _ => ?_
  exact agrees_guard_of_iff_not (by omega) _ fun _ => agrees_pure _

/-! ## The whole pool -/

def appendEntriesAt (data : ByteArray) : List UInt32 → StringPool → Decoding StringPool
  | [], pool => return pool
  | offset :: rest, pool => do
    match ← decodeEntry pool.encoding data offset.toNat with
    | none => throw (.malformedString pool.size)
    | some s =>
      let pool ← append s pool
      appendEntriesAt data rest pool

/-- Read the pool from its chunk, which stands at `offset`. -/
def decodePool (chunk : ByteArray) (offset : Nat) : Decoding StringPool := do
  let header ← (Read.record PoolHeader.layout).runAt chunk 0
  let headerSize := header.chunk.headerSize.toNat
  if headerSize < StringPool.headerSize then
    throw (.malformedChunk offset .shortPoolHeader)
  let encoding :=
    if header.flags &&& PoolHeader.utf8Flag ≠ 0 then StringEncoding.utf8 else .utf16
  let count := header.stringCount.toNat
  let offsets ← (Read.list (Read.record .u32) count).runAt chunk headerSize
  let pool : StringPool := { encoding }
  if count = 0 then
    return pool
  let start := header.stringsStart.toNat
  let stop := StringPool.stringsEnd header chunk.size
  if stop < start ∨ chunk.size < stop then
    throw (.malformedChunk offset .stringsOutside)
  let data ← slice chunk start stop
  appendEntriesAt data offsets pool

/-- The entries of a table are appended one after the other, whatever offsets it has. -/
theorem agrees_appendEntriesAt {data : ByteArray} (hdata : Sized data) (offsets : List UInt32)
    (pool : StringPool) :
    Agrees (appendEntriesAt data offsets pool) (StringPool.appendEntriesAt data offsets pool) := by
  induction offsets generalizing pool with
  | nil => exact agrees_pure pool
  | cons offset rest ih =>
    rw [appendEntriesAt]
    refine agrees_lift (decodeEntry_eq_some pool.encoding hdata offset.toNat) ?_
    cases hentry : StringEntry.decode pool.encoding data offset.toNat with
    | none =>
      rw [StringPool.appendEntriesAt, hentry]
      exact agrees_throw _
    | some s =>
      have hone : StringPool.appendEntriesAt data (offset :: rest) pool
          = (Prod.snd <$> pool.append s) >>= StringPool.appendEntriesAt data rest := by
        rw [StringPool.appendEntriesAt, hentry]
        dsimp only
        cases pool.append s <;> rfl
      rw [hone]
      exact (agrees_append s pool).bind fun filled _ => ih filled

/-- A string pool is decoded without a trap. Its string data is cut out only when both of its ends
are in range. -/
theorem agrees_decodePool {chunk : ByteArray} (hchunk : Sized chunk) (offset : Nat) :
    Agrees (decodePool chunk offset) (StringPool.decode chunk offset) := by
  unfold decodePool StringPool.decode
  dsimp only
  refine (agrees_record _ hchunk 0).bind fun header _ => agrees_guard _ fun _ => ?_
  have htable := (Read.follows_record .u32).list header.stringCount.toNat
  refine (htable.runAt hchunk _).bind fun offsets _ => ?_
  by_cases hcount : header.stringCount.toNat = 0
  · rw [if_pos hcount, if_pos hcount]
    exact agrees_pure _
  · rw [if_neg hcount, if_neg hcount]
    refine agrees_guard _ fun hrange => ?_
    -- the guard has compared the ends with each other and with the chunk
    refine agrees_lift (slice_eq_some (by omega) (by omega)) (agrees_appendEntriesAt ?_ offsets _)
    exact hchunk.extract _ _

end BinaryXml.Trapping
