import BinaryXml.StringPool.Entry
import Std.Data.ExtHashMap.Lemmas

/-!
# String pools

A pool holds the strings of a document in the order in which they came, each with the offset of
its entry in the encoded string data, and finds the first index of a string. `add` keeps the
strings distinct; `append` keeps repeats, as a pool read from a document must, so that indices go
on meaning what they meant there.
-/

namespace BinaryXml

/-! Strings are the keys of the first indices. -/

instance equivBEqString : EquivBEq String := inferInstance

instance lawfulHashableString : LawfulHashable String := inferInstance

/-- An ordered table of strings. -/
structure StringPool where
  encoding : StringEncoding
  strings : Array String := #[]
  /-- For each string the offset of its entry in the string data. -/
  offsets : Array Nat := #[]
  /-- The first index of every string. -/
  firstIndex : Std.ExtHashMap String UInt32 := ∅
  /-- The size of the string data, before any padding. -/
  dataSize : Nat := 0
  deriving DecidableEq

namespace StringPool

/-- Append the entry of a string, without a change to the first indices. Indices, offsets and the
size of the data have to fit into 32 bits. -/
def appendEntry (s : String) (pool : StringPool) : Except Error (UInt32 × StringPool) :=
  if pool.strings.size < UInt32.size then
    match StringEntry.size pool.encoding s with
    | .error error => .error error
    | .ok size =>
      if pool.dataSize + size < UInt32.size then
        .ok (UInt32.ofNat pool.strings.size, { pool with
          strings := pool.strings.push s
          offsets := pool.offsets.push pool.dataSize
          dataSize := pool.dataSize + size })
      else .error .chunkTooLarge
  else .error .chunkTooLarge

/-- The index of a string, which is appended if the pool does not hold it yet. -/
def add (s : String) (pool : StringPool) : Except Error (UInt32 × StringPool) :=
  match pool.firstIndex[s]? with
  | some index => .ok (index, pool)
  | none =>
    match pool.appendEntry s with
    | .error error => .error error
    | .ok (index, pool) =>
      .ok (index, { pool with firstIndex := pool.firstIndex.insert s index })

/-- Append a string whether the pool holds it already or not. -/
def append (s : String) (pool : StringPool) : Except Error (UInt32 × StringPool) :=
  match pool.appendEntry s with
  | .error error => .error error
  | .ok (index, pool) =>
    .ok (index, { pool with firstIndex := pool.firstIndex.insertIfNew s index })

/-- Add strings in order, dropping their indices. -/
def addAll : List String → StringPool → Except Error StringPool
  | [], pool => .ok pool
  | s :: rest, pool =>
    match pool.add s with
    | .error error => .error error
    | .ok (_, pool) => addAll rest pool

/-- The first index of a string, if the pool holds it. -/
def indexOf? (s : String) (pool : StringPool) : Option UInt32 :=
  pool.firstIndex[s]?

def get? (index : UInt32) (pool : StringPool) : Option String :=
  pool.strings[index.toNat]?

/-- The offset of the entry at an index. -/
def offset? (index : UInt32) (pool : StringPool) : Option Nat :=
  pool.offsets[index.toNat]?

def size (pool : StringPool) : Nat :=
  pool.strings.size

def isEmpty (pool : StringPool) : Bool :=
  pool.strings.isEmpty

/-- The strings in order, each with the offset of its entry. -/
def entries (pool : StringPool) : List (Nat × String) :=
  pool.offsets.toList.zip pool.strings.toList

end StringPool

end BinaryXml
