import BinaryXml.Proofs.File.Refusing
import BinaryXml.Proofs.Trapping.Run

/-!
# Decoding is safe

On bytes that a 64-bit word can count, the decoder never cuts a slice out of range and never forms a
sum that is no word, it always comes to an end, and what it says of bytes that are no document is
one of a few errors (`decodesSafely_of_size_lt`). All the sizes, counts, offsets and strides in the
bytes are arbitrary; the guards alone see to it.
-/

namespace BinaryXml.Trapping

/-- Reading to the end is safe: a call for each byte and one more are enough, none of them traps,
and the reader stays at its end. An error tells of the bytes, and one that a read gives tells of the
string pool chunk behind the items before it, which is cut short. -/
structure ReadsSafely (reader : ChunkReader) : Prop where
  finish_eq : finish (reader.window.size + 1) reader = some reader.items
  next?_exhausted : next? reader.exhausted = some none
  ofChunks : ∀ error behind, (.error error, behind) ∈ reader.items → error.OfChunks
  cutPiece : ∀ fault behind, (.error (.read fault), behind) ∈ reader.items →
    reader.EndsInCutPiece fault behind

/-- Every way of decoding some bytes is safe: as a run of chunks, as the run of a document, and as a
document. -/
structure DecodesSafely (data : ByteArray) : Prop where
  ofBytes : ReadsSafely (.ofBytes data)
  ofDocument_eq : (ofDocument data).run = some (ChunkReader.ofDocument data)
  ofDocument_error : ∀ error, ChunkReader.ofDocument data = .error error →
    error.OfChunks ∧ ∀ fault, error ≠ .read fault
  ofDocument : ∀ reader, ChunkReader.ofDocument data = .ok reader → ReadsSafely reader
  parse_eq : (parse data).run = some (ChunkFile.parse data)
  parse_error : ∀ error, ChunkFile.parse data = .error error →
    error.OfChunks ∨ ∃ index count, error = .stringIndexOutOfRange index count
  parse_cutPiece : ∀ fault, ChunkFile.parse data = .error (.read fault) →
    ∃ reader behind, ChunkReader.ofDocument data = .ok reader ∧
      (.error (.read fault), behind) ∈ reader.items ∧ reader.EndsInCutPiece fault behind

/-- A reader whose places are words reads safely to the end. -/
theorem readsSafely_of_placed {reader : ChunkReader} (h : Placed reader) : ReadsSafely reader where
  finish_eq := finish_eq_some h (unread_lt reader)
  next?_exhausted := if_pos (ChunkReader.next?_eq_none_iff.mp reader.next?_exhausted)
  ofChunks _ _ hmem := ChunkReader.ofChunks_of_mem_items hmem
  cutPiece _ _ hmem := ChunkReader.endsInCutPiece_of_mem_items hmem

/-- The header of a document is refused with an error of chunks, and never by a read. -/
theorem ofChunks_of_ofDocument {data : ByteArray} {error : Error}
    (h : ChunkReader.ofDocument data = .error error) :
    error.OfChunks ∧ ∀ fault, error ≠ .read fault := by
  rcases ChunkFile.refused_of_ofDocument data error h with hheader | ⟨kind, rfl⟩
  · cases hheader <;> exact ⟨trivial, nofun⟩
  · exact ⟨trivial, nofun⟩

/-- **Decoding is safe on every byte string.** -/
theorem decodesSafely_of_size_lt {data : ByteArray} (h : data.size < UInt64.size) :
    DecodesSafely data where
  ofBytes := readsSafely_of_placed ((Nat.zero_add _).trans_lt h)
  ofDocument_eq := agrees_ofDocument h
  ofDocument_error _ herror := ofChunks_of_ofDocument herror
  ofDocument _ hreader := readsSafely_of_placed (placed_of_ofDocument h hreader)
  parse_eq := agrees_parse h
  parse_error error herror := by
    rcases ChunkFile.refused_of_parse data error herror with hheader | ⟨reader, -, hrest⟩
    · -- a document is refused for its header, for a chunk, or for an index
      exact .inl (ofChunks_of_ofDocument hheader).1
    · rcases hrest with ⟨behind, hmem⟩ | hindex
      · exact .inl (ChunkReader.ofChunks_of_mem_items hmem)
      · exact .inr hindex
  parse_cutPiece fault herror := by
    rcases ChunkFile.refused_of_parse data _ herror with hheader | ⟨reader, hreader, hrest⟩
    · exact absurd rfl ((ofChunks_of_ofDocument hheader).2 fault)
    · rcases hrest with ⟨behind, hmem⟩ | ⟨index, count, hindex⟩
      · exact ⟨reader, behind, hreader, hmem, ChunkReader.endsInCutPiece_of_mem_items hmem⟩
      · cases hindex

/-- A document whose only chunk is the header of a string pool. -/
def bareHeader : ByteArray :=
  [0x03, 0, 8, 0, 16, 0, 0, 0, 0x01, 0, 8, 0, 8, 0, 0, 0].toByteArray

/-- A string pool of eight bytes: the error is that of a read, 28 bytes being needed. -/
theorem decodesSafely_bareHeader :
    bareHeader.size < UInt64.size ∧
      ChunkFile.parse bareHeader = .error (.read (.unexpectedEnd 0 28 8)) ∧
      DecodesSafely bareHeader := by
  have hsize : bareHeader.size < UInt64.size := by decide
  have hsafe := decodesSafely_of_size_lt hsize
  have hparse : (parse bareHeader).run = some (.error (.read (.unexpectedEnd 0 28 8))) := by
    rfl
  rw [hsafe.parse_eq] at hparse
  exact ⟨hsize, Option.some.inj hparse, hsafe⟩

end BinaryXml.Trapping
