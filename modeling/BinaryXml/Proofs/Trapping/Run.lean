import BinaryXml.Proofs.File.Format
import BinaryXml.Proofs.Trapping.Pool

/-!
# Runs of chunks with reads that may trap

A reader of chunks cuts what is left out of its run, checks the header there, and takes the chunk by
a read of its own; the place behind a chunk is a sum with the place where the run starts. `finish`
calls the reader a number of times and gives the items only if it has come to an end by then, so
that what is shown of it is both that nothing traps and that the reading ends.
-/

namespace BinaryXml.Trapping

/-! ## One chunk -/

/-- Decode the chunk with the given header from its bytes, which stand at `offset`. -/
def decodeChunk (header : ChunkHeader) (chunk : ByteArray) (offset : Nat) : Decoding Chunk :=
  if header.kind = ChunkType.stringPool then
    Chunk.stringPool <$> decodePool chunk offset
  else if header.kind = ChunkType.resourceMap then do
    let ids ← slice chunk header.headerSize.toNat chunk.size
    return .resourceMap (Chunk.wordsOnto [] ids.data.toList)
  else if header.kind = ChunkType.startNamespace then
    Chunk.startNamespace <$> readNamespace chunk offset
  else if header.kind = ChunkType.endNamespace then
    Chunk.endNamespace <$> readNamespace chunk offset
  else if header.kind = ChunkType.startTag then
    Chunk.startTag <$> readStartTag chunk offset
  else if header.kind = ChunkType.endTag then
    Chunk.endTag <$> readEndTag chunk offset
  else if header.kind = ChunkType.characterData then
    Chunk.characterData <$> readCharacterData chunk offset
  else do
    let body ← slice chunk 8 chunk.size
    return .other ⟨header.kind, header.headerSize, body⟩

/-- The check of the header is what the slices of a chunk without a decoder of its own rest on. -/
theorem agrees_decodeChunk {header : ChunkHeader} {chunk : ByteArray} (hchunk : Sized chunk)
    (hheader : header.headerSize.toNat ≤ chunk.size) (hsize : 8 ≤ chunk.size) (offset : Nat) :
    Agrees (decodeChunk header chunk offset) (Chunk.decode header chunk offset) := by
  refine agrees_ite ((agrees_decodePool hchunk offset).map _) (agrees_ite ?_ ?_)
  · exact agrees_lift (slice_eq_some hheader (Nat.le_refl _)) (agrees_pure _)
  refine agrees_ite ((agrees_readNamespace hchunk offset).map _) ?_
  refine agrees_ite ((agrees_readNamespace hchunk offset).map _) ?_
  refine agrees_ite ((agrees_readStartTag hchunk offset).map _) ?_
  refine agrees_ite ((agrees_readEndTag hchunk offset).map _) ?_
  refine agrees_ite ((agrees_readCharacterData hchunk offset).map _) ?_
  exact agrees_lift (slice_eq_some hsize (Nat.le_refl _)) (agrees_pure _)

/-! ## One step of a reader -/

/-- The next chunk or the error that ends the reading, with the reader behind it. -/
def next? (reader : ChunkReader) : Option (Option (Except Error Chunk × ChunkReader)) :=
  if reader.stopped ∨ reader.window.size ≤ reader.position then some none
  else do
    let offset ← word (reader.base + reader.position)
    let rest ← slice reader.window (min reader.position reader.window.size) reader.window.size
    match ← (checkHeader rest offset).run with
    | .error error => return some (.error error, { reader with stopped := true })
    | .ok header =>
      match ← (Read.bytes header.size.toNat ⟨reader.window, reader.position⟩).run with
      | .error fault => return some (.error (.read fault), { reader with stopped := true })
      | .ok (chunk, after) =>
        match ← (decodeChunk header chunk offset).run with
        | .error error =>
          return some (.error error, { reader with position := after.position, stopped := true })
        | .ok chunk => return some (.ok chunk, { reader with position := after.position })

/-- The places of a reader are words. -/
def Placed (reader : ChunkReader) : Prop :=
  reader.base + reader.window.size < UInt64.size

theorem Placed.sized {reader : ChunkReader} (h : Placed reader) : Sized reader.window :=
  Nat.lt_of_le_of_lt (Nat.le_add_left _ _) h

/-- A step of a reader does not trap: the place of the chunk is a word, and the chunk is cut out
behind a header that was accepted. -/
theorem next?_eq_some {reader : ChunkReader} (h : Placed reader) :
    next? reader = some reader.next? := by
  unfold next? ChunkReader.next?
  by_cases hend : reader.stopped ∨ reader.window.size ≤ reader.position
  · rw [if_pos hend, if_pos hend]
  rw [if_neg hend, if_neg hend]
  have hplaced : reader.base + reader.window.size < UInt64.size := h
  have hinside : reader.position < reader.window.size := by
    by_contra hpast
    exact hend (.inr (Nat.not_lt.mp hpast))
  rw [word_eq_some (by omega), Nat.min_eq_left (Nat.le_of_lt hinside),
    slice_eq_some (Nat.le_of_lt hinside) (Nat.le_refl _)]
  have hcheck := agrees_checkHeader (h.sized.extract reader.position reader.window.size)
    reader.offset
  rw [ChunkHeader.read_extract_rest, Agrees] at hcheck
  have hoffset : reader.base + reader.position = reader.offset := rfl
  simp only [Option.bind_eq_bind, Option.bind_some, hoffset, hcheck]
  cases hheader : ChunkHeader.read reader.window reader.position reader.offset with
  | error error => rfl
  | ok header =>
    -- an accepted header's chunk is all there
    obtain ⟨-, hlong, hfits, havailable⟩ := ChunkHeader.read_eq_ok_iff.mp hheader
    have hrange : reader.position + header.size.toNat ≤ reader.window.size := by omega
    have hbytes : (Read.bytes header.size.toNat ⟨reader.window, reader.position⟩).run
        = some (outcome (Reading.bytes header.size.toNat ⟨reader.window, reader.position⟩)) :=
      (Read.follows_bytes header.size.toNat ⟨reader.window, reader.position⟩ h.sized).1
    have hsize : (reader.window.extract reader.position
        (reader.position + header.size.toNat)).size = header.size.toNat := by
      rw [ByteArray.size_extract]
      omega
    have hheaderFits : header.headerSize.toNat ≤ (reader.window.extract reader.position
        (reader.position + header.size.toNat)).size := by omega
    have hdecode := agrees_decodeChunk (h.sized.extract reader.position
      (reader.position + header.size.toNat)) hheaderFits (by omega) reader.offset
    rw [Agrees] at hdecode
    simp only [hbytes, Reading.bytes_eq_ok hrange, outcome, Option.bind_some, hdecode]
    cases Chunk.decode header (reader.window.extract reader.position
      (reader.position + header.size.toNat)) reader.offset <;> rfl

/-! ## Reading to the end -/

/-- The items of a reader, each with the offset behind it, if there is nothing more to be read after
so many calls. -/
def finish : Nat → ChunkReader → Option (List (Except Error Chunk × Nat))
  | 0, _ => none
  | calls + 1, reader => do
    match ← next? reader with
    | none => return []
    | some (item, after) =>
      let offset ← word (after.base + after.position)
      let items ← finish calls after
      return (item, offset) :: items

theorem Placed.of_next? {reader after : ChunkReader} {item : Except Error Chunk}
    (h : Placed reader) (hnext : reader.next? = some (item, after)) : Placed after := by
  obtain ⟨hbase, hwindow, -⟩ := ChunkReader.run_eq_of_next? hnext
  rw [Placed, hbase, hwindow]
  exact h

/-- A reader comes to its end within a call for each byte, and one more. -/
theorem finish_eq_some {calls : Nat} {reader : ChunkReader} (h : Placed reader)
    (hcalls : reader.unread < calls) : finish calls reader = some reader.items := by
  induction calls generalizing reader with
  | zero => exact absurd hcalls (Nat.not_lt_zero _)
  | succ calls ih =>
    rw [finish, next?_eq_some h, Option.bind_eq_bind, Option.bind_some]
    cases hnext : reader.next? with
    | none => rw [ChunkReader.items_of_next?_eq_none hnext]; rfl
    | some step =>
      obtain ⟨item, after⟩ := step
      -- each item leaves less to be read, so one call fewer is enough for the rest
      have hless := ChunkReader.unread_lt_of_next? hnext
      obtain ⟨hbase, hwindow, hposition⟩ := ChunkReader.run_eq_of_next? hnext
      have hword : after.base + after.position < UInt64.size := by
        have hplaced : reader.base + reader.window.size < UInt64.size := h
        omega
      have hrest := ih (h.of_next? hnext) (by omega)
      rw [ChunkReader.items_of_next?_eq_some hnext]
      simp only [Option.bind_eq_bind, word_eq_some hword, hrest, Option.bind_some]
      rfl

/-! ## Documents -/

/-- The reader of the chunks of a document. -/
def ofDocument (data : ByteArray) : Decoding ChunkReader := do
  let header ← checkHeader data 0
  if header.kind ≠ ChunkType.document then
    throw (.unexpectedChunkType 0 ChunkType.document header.kind)
  let headerSize := header.headerSize.toNat
  let window ← slice data headerSize header.size.toNat
  return { window, base := headerSize }

/-- Read a document. -/
def parse (data : ByteArray) : Decoding ChunkFile := do
  let reader ← ofDocument data
  let items ← finish (reader.window.size + 1) reader
  let chunks ← ExceptT.mk (some (items.mapM (·.1)))
  let file : ChunkFile := { chunks }
  ExceptT.mk (some file.validate)
  return file

/-- The run of a document is cut out by a header that was accepted, so both its ends are in
range. -/
theorem agrees_ofDocument {data : ByteArray} (hdata : Sized data) :
    Agrees (ofDocument data) (ChunkReader.ofDocument data) := by
  unfold ofDocument ChunkReader.ofDocument
  dsimp only
  refine (agrees_checkHeader hdata 0).bind fun header hheader => agrees_guard _ fun _ => ?_
  obtain ⟨-, -, hfits, havailable⟩ := ChunkHeader.read_eq_ok_iff.mp hheader
  exact agrees_lift (slice_eq_some hfits (by omega)) (agrees_pure _)

/-- The reader of a document's chunks counts from the front of the document. -/
theorem placed_of_ofDocument {data : ByteArray} (hdata : Sized data) {reader : ChunkReader}
    (h : ChunkReader.ofDocument data = .ok reader) : Placed reader := by
  obtain ⟨header, hheader, -, rfl⟩ := ChunkFile.ofDocument_eq_ok_iff.mp h
  obtain ⟨-, -, hfits, havailable⟩ := ChunkHeader.read_eq_ok_iff.mp hheader
  have hsize : data.size < UInt64.size := hdata
  show header.headerSize.toNat
    + (data.extract header.headerSize.toNat header.size.toNat).size < UInt64.size
  rw [ByteArray.size_extract]
  omega

/-- A call for each byte and one more are always enough. -/
theorem unread_lt (reader : ChunkReader) : reader.unread < reader.window.size + 1 := by
  unfold ChunkReader.unread
  split <;> omega

/-- A document is read without a trap and to the end. -/
theorem agrees_parse {data : ByteArray} (hdata : Sized data) :
    Agrees (parse data) (ChunkFile.parse data) := by
  unfold parse ChunkFile.parse
  refine (agrees_ofDocument hdata).bind fun reader hreader => ?_
  refine agrees_lift (finish_eq_some (placed_of_ofDocument hdata hreader) (unread_lt reader)) ?_
  have hchunks : Agrees (ExceptT.mk (some (reader.items.mapM (·.1)))) reader.chunks := rfl
  refine hchunks.bind fun chunks _ => ?_
  have hvalidate : Agrees (ExceptT.mk (some (ChunkFile.validate { chunks })))
      (ChunkFile.validate { chunks }) := rfl
  exact hvalidate.bind fun _ _ => agrees_pure _

end BinaryXml.Trapping
