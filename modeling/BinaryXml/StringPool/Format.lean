import BinaryXml.Bytes.Sink
import BinaryXml.Format.Record
import BinaryXml.StringPool.Basic

/-!
# String pools as chunks

A pool's chunk is its header, a table with the offset of every entry, the entries themselves, and
zeros up to a multiple of four. Reading trusts the table alone: entries may stand in any order,
overlap, or be used twice, and everything between them is passed over, style spans included.
-/

namespace BinaryXml.StringPool

def headerSize : Nat := 28

/-- The size of the string data with its padding to a multiple of four. -/
def paddedSize (pool : StringPool) : Except Error Nat :=
  if pool.dataSize + 3 < UInt32.size then .ok ((pool.dataSize + 3) / 4 * 4)
  else .error .chunkTooLarge

def chunkSize (pool : StringPool) : Except Error Nat := do
  let padded ← pool.paddedSize
  let total := headerSize + 4 * pool.size + padded
  if total < UInt32.size then return total else throw .chunkTooLarge

/-- The header of the pool's chunk, which is `total` bytes long. The string data starts behind the
table of offsets, or nowhere when there is no string. -/
def header (pool : StringPool) (total : Nat) : PoolHeader where
  chunk := ⟨ChunkType.stringPool, UInt16.ofNat headerSize, UInt32.ofNat total⟩
  stringCount := UInt32.ofNat pool.size
  styleCount := 0
  flags := match pool.encoding with
    | .utf8 => PoolHeader.utf8Flag
    | .utf16 => 0
  stringsStart := if pool.isEmpty then 0 else UInt32.ofNat (headerSize + 4 * pool.size)
  stylesStart := 0

def write (pool : StringPool) : Writing Unit := do
  let total ← ofExcept pool.chunkSize
  Writing.record PoolHeader.layout (pool.header total)
  Writing.each (fun offset => Writing.record .u32 (UInt32.ofNat offset)) pool.offsets.toList
  Writing.each (fun s => Writing.bytes (StringEntry.encode pool.encoding s))
    pool.strings.toList
  let padded ← ofExcept pool.paddedSize
  Writing.bytes (List.replicate (padded - pool.dataSize) 0).toByteArray

/-- Where the string data ends: at the style spans, when there are any and they stand behind the
strings, and else at the end of the chunk. -/
def stringsEnd (header : PoolHeader) (chunkSize : Nat) : Nat :=
  if 0 < header.styleCount ∧ header.stringsStart < header.stylesStart then
    header.stylesStart.toNat
  else chunkSize

/-- Append the strings whose entries stand at some offsets of the string data. -/
def appendEntriesAt (data : ByteArray) : List UInt32 → StringPool → Except Error StringPool
  | [], pool => .ok pool
  | offset :: rest, pool =>
    match StringEntry.decode pool.encoding data offset.toNat with
    | none => .error (.malformedString pool.size)
    | some s =>
      match pool.append s with
      | .error error => .error error
      | .ok (_, pool) => appendEntriesAt data rest pool

/-- Read the pool from its chunk, which stands at `offset`. -/
def decode (chunk : ByteArray) (offset : Nat) : Except Error StringPool := do
  let header ← (Reading.record PoolHeader.layout).runAt chunk 0
  let headerSize := header.chunk.headerSize.toNat
  if headerSize < StringPool.headerSize then
    throw (.malformedChunk offset .shortPoolHeader)
  let encoding :=
    if header.flags &&& PoolHeader.utf8Flag ≠ 0 then StringEncoding.utf8 else .utf16
  let count := header.stringCount.toNat
  let offsets ← (Reading.list .u32 count).runAt chunk headerSize
  let pool : StringPool := { encoding }
  if count = 0 then
    return pool
  let start := header.stringsStart.toNat
  let stop := stringsEnd header chunk.size
  if stop < start ∨ chunk.size < stop then
    throw (.malformedChunk offset .stringsOutside)
  appendEntriesAt (chunk.extract start stop) offsets pool

end BinaryXml.StringPool
