import BinaryXml.File

/-!
# Reading a run of chunks

A `ChunkReader` reads the chunks of some bytes one after the other. Each header tells where the next
chunk starts, so a chunk of any type can be passed over. The reader stands behind a chunk as soon as
its header is accepted; after the first error there is nothing more to read.
-/

namespace BinaryXml

/-- A place in a run of chunks. -/
structure ChunkReader where
  /-- The bytes of the run. -/
  window : ByteArray
  /-- Where the run starts in the whole input. -/
  base : Nat := 0
  /-- Where the next chunk starts in the run. -/
  position : Nat := 0
  /-- Whether an error has ended the reading. -/
  stopped : Bool := false

namespace ChunkReader

/-- The reader of some bytes that hold nothing but chunks. -/
def ofBytes (data : ByteArray) : ChunkReader where
  window := data

/-- The reader of the chunks of a document. What follows the size that the document's header
declares is not read. -/
def ofDocument (data : ByteArray) : Except Error ChunkReader := do
  let header ← ChunkHeader.read data 0 0
  if header.kind ≠ ChunkType.document then
    throw (.unexpectedChunkType 0 ChunkType.document header.kind)
  let headerSize := header.headerSize.toNat
  return { window := data.extract headerSize header.size.toNat, base := headerSize }

/-- Where the next chunk starts in the whole input. -/
def offset (reader : ChunkReader) : Nat :=
  reader.base + reader.position

/-- The next chunk or the error that ends the reading, with the reader behind it. -/
def next? (reader : ChunkReader) : Option (Except Error Chunk × ChunkReader) :=
  if reader.stopped ∨ reader.window.size ≤ reader.position then none
  else
    match ChunkHeader.read reader.window reader.position reader.offset with
    | .error error => some (.error error, { reader with stopped := true })
    | .ok header =>
      let stop := reader.position + header.size.toNat
      let chunk := reader.window.extract reader.position stop
      match Chunk.decode header chunk reader.offset with
      | .error error => some (.error error, { reader with position := stop, stopped := true })
      | .ok chunk => some (.ok chunk, { reader with position := stop })

/-- The bytes that are still to be read, or zero after an error. -/
def unread (reader : ChunkReader) : Nat :=
  if reader.stopped then 0 else reader.window.size - reader.position

theorem unread_of_stopped {reader : ChunkReader} (h : reader.stopped) : reader.unread = 0 :=
  if_pos h

/-- No more is unread than there is behind the position, whether or not the reading has ended. -/
theorem unread_le (reader : ChunkReader) :
    reader.unread ≤ reader.window.size - reader.position := by
  unfold unread
  split
  · exact Nat.zero_le _
  · exact Nat.le_refl _

/-- Every chunk and every error leaves less to be read. -/
theorem unread_lt_of_next? {reader after : ChunkReader} {item : Except Error Chunk}
    (h : reader.next? = some (item, after)) : after.unread < reader.unread := by
  unfold next? at h
  split at h
  · cases h
  · rename_i hopen
    obtain ⟨hstopped, hbefore⟩ := not_or.mp hopen
    have hunread : reader.unread = reader.window.size - reader.position := if_neg hstopped
    have hleft : 0 < reader.unread := by omega
    split at h
    · -- no header: the reading ends here
      cases h
      rw [unread_of_stopped rfl]
      exact hleft
    · rename_i header hheader
      -- the header is part of the chunk that it declares, so the reader moves on
      have hsize := ChunkHeader.eight_le_size_of_read hheader
      dsimp only at h
      split at h
      · cases h
        rw [unread_of_stopped rfl]
        exact hleft
      · cases h
        have hle := unread_le { reader with position := reader.position + header.size.toNat }
        dsimp only at hle
        omega

/-- The items from a reader on, each with the offset behind it, after those already `done`, the
latest first, and the reader that is left. -/
def drainOnto (done : List (Except Error Chunk × Nat)) (reader : ChunkReader) :
    List (Except Error Chunk × Nat) × ChunkReader :=
  match _h : reader.next? with
  | none => (done.reverse, reader)
  | some (item, after) => drainOnto ((item, after.offset) :: done) after
termination_by reader.unread
decreasing_by exact unread_lt_of_next? ‹_›

/-- The items of a reader in order, each with the offset behind it. -/
def items (reader : ChunkReader) : List (Except Error Chunk × Nat) :=
  (drainOnto [] reader).1

/-- The reader that is left when nothing more can be read. -/
def exhausted (reader : ChunkReader) : ChunkReader :=
  (drainOnto [] reader).2

/-- The chunks of a reader, or the error that ended the reading. -/
def chunks (reader : ChunkReader) : Except Error (List Chunk) :=
  reader.items.mapM (·.1)

end ChunkReader

/-- Read a document: its chunks, all of whose string indices have to refer to strings of the pool.
-/
def ChunkFile.parse (data : ByteArray) : Except Error ChunkFile := do
  let reader ← ChunkReader.ofDocument data
  let chunks ← reader.chunks
  let file : ChunkFile := { chunks }
  file.validate
  return file

end BinaryXml
