import BinaryXml.Bytes.Cursor
import BinaryXml.Markup.Fault
import BinaryXml.Text.Numeral

/-!
# Errors

Every way in which compiling, writing, reading or rendering a document can fail, with what was
known at that place, and the one function that words them.
-/

namespace BinaryXml

/-- How the contents of a chunk contradict its header. -/
inductive Malformation where
  /-- The chunk of a tree node ends before the node header does. -/
  | shortNode
  /-- The header of a tree node is declared shorter than it is. -/
  | shortNodeHeader
  /-- The chunk of a tree node ends before the node's record does. -/
  | shortNodeRecord
  /-- The attribute records are declared shorter than they are. -/
  | shortAttribute
  /-- An attribute record does not lie within the chunk. -/
  | attributeOutside
  /-- The header of a string pool is declared shorter than it is. -/
  | shortPoolHeader
  /-- The string data does not lie within the chunk. -/
  | stringsOutside
  deriving DecidableEq, Repr

def Malformation.message : Malformation → String
  | shortNode => "chunk is shorter than a tree node header"
  | shortNodeHeader => "tree node header is shorter than 16 bytes"
  | shortNodeRecord => "chunk is too short for its node record"
  | shortAttribute => "attribute records are shorter than 20 bytes"
  | attributeOutside => "attribute record runs past the end of the chunk"
  | shortPoolHeader => "string pool header is shorter than 28 bytes"
  | stringsOutside => "string data lies outside the string pool chunk"

inductive Error where
  /-- The bytes did not fit where they were written. -/
  | outOfRoom
  /-- A record could not be read. -/
  | read (fault : ReadFault)
  /-- An attribute's prefix is declared nowhere in the document. -/
  | unboundPrefix (name element : String)
  /-- The target cannot hold the document. -/
  | bufferTooSmall (needed available : Nat)
  /-- A chunk declares more bytes than are left. -/
  | truncatedChunk (offset declared available : Nat)
  /-- A chunk of another type stands where one certain type has to. -/
  | unexpectedChunkType (offset : Nat) (expected actual : UInt16)
  /-- A chunk header contradicts itself. -/
  | invalidChunkHeader (offset : Nat) (headerSize : UInt16) (size : UInt32)
  /-- A chunk's contents contradict its header. -/
  | malformedChunk (offset : Nat) (reason : Malformation)
  /-- A string reference past the end of the string pool. -/
  | stringIndexOutOfRange (index : UInt32) (count : Nat)
  /-- An entry of a string pool does not spell a string. -/
  | malformedString (index : Nat)
  /-- A string is too long for the length fields of a pool entry. -/
  | stringTooLong (length : Nat)
  /-- An element has more attributes than a start tag can count. -/
  | tooManyAttributes (element : String) (count : Nat)
  /-- A chunk or document is too large for its 32-bit size field. -/
  | chunkTooLarge
  /-- A string is looked up in a pool that was to hold it. -/
  | uncollectedString (s : String)
  /-- The input is not UTF-8. -/
  | notUtf8 (fault : Utf8.Fault)
  /-- The XML text read is faulty, or that written did not fit. -/
  | xml (fault : Markup.Fault)
  deriving DecidableEq, Repr

open Numeral in
def Error.message : Error → String
  | outOfRoom => "I/O error: failed to write whole buffer"
  | read fault => fault.message
  | unboundPrefix name element =>
    s!"namespace prefix '{name}' used on <{element}> is not declared"
  | bufferTooSmall needed available =>
    s!"buffer too small: need {needed} bytes, have {available}"
  | truncatedChunk offset declared available =>
    s!"chunk at 0x{hex offset} declares {declared} bytes but only {available} remain"
  | unexpectedChunkType offset expected actual =>
    s!"expected chunk type {typeTag expected} at 0x{hex offset}, got {typeTag actual}"
  | invalidChunkHeader offset headerSize size =>
    s!"invalid chunk header at 0x{hex offset}: header size {headerSize}, total size {size}"
  | malformedChunk offset reason =>
    s!"malformed chunk at 0x{hex offset}: {reason.message}"
  | stringIndexOutOfRange index count =>
    s!"string index {index} out of range (string pool size: {count})"
  | malformedString index => s!"malformed string pool entry {index}"
  | stringTooLong length =>
    s!"string of {length} code units exceeds the string pool length limit"
  | tooManyAttributes element count =>
    s!"<{element}> has {count} attributes, at most 65535 are supported"
  | chunkTooLarge => "chunk exceeds the 4 GiB size limit"
  | uncollectedString s => s!"string '{s}' was not collected before the build pass"
  | notUtf8 fault => "UTF-8 error: " ++ fault.message
  | xml fault => "XML error: " ++ fault.message

/-- The value that a read gives at a position of some bytes. -/
def Reading.runAt {α : Type} (reading : Reading α) (data : ByteArray) (position : Nat) :
    Except Error α :=
  match reading ⟨data, position⟩ with
  | .ok value _ => .ok value
  | .error fault _ => .error (.read fault)

end BinaryXml
