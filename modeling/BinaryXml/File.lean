import BinaryXml.Chunk.Write
import BinaryXml.Chunk.Read

/-!
# Documents as chunks

A `ChunkFile` is a whole binary document: a header of eight bytes and a list of chunks. It is
written in one pass, since its size is known beforehand, into a sink, into bytes of its own or into
a part of given bytes.
-/

namespace BinaryXml

structure ChunkFile where
  chunks : List Chunk := []

namespace ChunkFile

/-- Whether some bytes start like a binary document written by this library. -/
def looksBinary (data : ByteArray) : Bool :=
  match (Reading.record ChunkHeader.layout).runAt data 0 with
  | .ok header => header.kind = ChunkType.document && header.headerSize = 8
  | .error _ => false

def stringPool? (file : ChunkFile) : Option StringPool :=
  file.chunks.findSome? fun
    | .stringPool pool => some pool
    | _ => none

/-- The number of strings that string indices may refer to. -/
def stringCount (file : ChunkFile) : Nat :=
  match file.stringPool? with
  | some pool => pool.size
  | none => 0

/-- The string at an index of a pool, or the error when there is none. -/
def lookUp (pool : Option StringPool) (index : UInt32) : Except Error String :=
  match pool with
  | some pool =>
    match pool.get? index with
    | some s => .ok s
    | none => .error (.stringIndexOutOfRange index pool.size)
  | none => .error (.stringIndexOutOfRange index 0)

def string (file : ChunkFile) (index : UInt32) : Except Error String :=
  lookUp file.stringPool? index

/-- The starts of namespace scopes in order. -/
def namespaces (file : ChunkFile) : List NamespaceScope :=
  file.chunks.filterMap fun
    | .startNamespace scope => some scope
    | _ => none

def startTags (file : ChunkFile) : List StartTag :=
  file.chunks.filterMap fun
    | .startTag tag => some tag
    | _ => none

/-- Add the sizes of chunks to a size; the sum has to fit into 32 bits at every step. -/
def addSizes : List Chunk → Nat → Except Error Nat
  | [], total => .ok total
  | chunk :: rest, total =>
    match chunk.size with
    | .error error => .error error
    | .ok size =>
      if total + size < UInt32.size then addSizes rest (total + size) else .error .chunkTooLarge

/-- The size of a document: its header and its chunks. -/
def size (file : ChunkFile) : Except Error Nat :=
  addSizes file.chunks 8

/-- Check that the strings which some chunks refer to are among the first `count`. -/
def validateChunks (count : Nat) : List Chunk → Except Error Unit
  | [] => .ok ()
  | chunk :: rest =>
    match chunk.stringRefs.find? fun index => count ≤ index.toNat with
    | some index => .error (.stringIndexOutOfRange index count)
    | none => validateChunks count rest

/-- Check that every string index refers to a string of the pool. -/
def validate (file : ChunkFile) : Except Error Unit :=
  validateChunks file.stringCount file.chunks

def write (file : ChunkFile) : Writing Unit := do
  let size ← ofExcept file.size
  Writing.record ChunkHeader.layout ⟨ChunkType.document, 8, UInt32.ofNat size⟩
  Writing.each Chunk.write file.chunks

def toBytes (file : ChunkFile) : Except Error ByteArray :=
  file.write.toBytes

/-- Write a document to the front of some bytes, which have to be as long as the document at least.
Gives the bytes as the write leaves them, and the size of the document or why the write failed. -/
def encodeInto (file : ChunkFile) (buffer : ByteArray) : ByteArray × Except Error Nat :=
  match file.size with
  | .error error => (buffer, .error error)
  | .ok size =>
    if buffer.size < size then
      (buffer, .error (.bufferTooSmall size buffer.size))
    else
      let written := file.write.runIn (some size)
      let buffer := written.stored ++ buffer.extract written.stored.size buffer.size
      match written.failure with
      | some error => (buffer, .error error)
      | none => (buffer, .ok size)

end ChunkFile

end BinaryXml
