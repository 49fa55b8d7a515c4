import BinaryXml.Proofs.Chunk.Locality
import BinaryXml.Proofs.File.RoundTrip

/-!
# The window of a document

The size in its header says which bytes a document is made of. What is parsed depends on all of
these and on nothing else: bytes behind them change nothing, not even in an error, and where one of
them is missing the document is refused at its header (`parse_window`).
-/

namespace BinaryXml

namespace ChunkHeader

/-- All the bytes that a header declares are there. -/
theorem size_extract_of_read {data : ByteArray} {offset : Nat} {header : ChunkHeader}
    (h : ChunkHeader.read data 0 offset = .ok header) :
    (data.extract 0 header.size.toNat).size = header.size.toNat := by
  obtain ⟨-, -, -, havailable⟩ := read_eq_ok_iff.mp h
  rw [ByteArray.size_extract]
  omega

/-- Anything may stand behind the bytes that a header declares. -/
theorem read_extract_append {data : ByteArray} {header : ChunkHeader}
    (h : ChunkHeader.read data 0 0 = .ok header) (tail : ByteArray) :
    ChunkHeader.read (data.extract 0 header.size.toNat ++ tail) 0 0 = .ok header := by
  have hlength := size_extract_of_read h
  obtain ⟨-, hread⟩ := read_eq_ok_iff_extract.mp h
  rw [Nat.zero_add] at hread
  refine read_eq_ok_iff_extract.mpr ⟨?_, ?_⟩
  · rw [ByteArray.size_append]
    omega
  · rwa [Nat.zero_add, ByteArray.extract_append_eq_left hlength.symm]

end ChunkHeader

namespace ChunkFile

/-- The reader of a document does not look behind the size that the document declares. -/
theorem ofDocument_extract_append {data : ByteArray} {header : ChunkHeader}
    (h : ChunkHeader.read data 0 0 = .ok header) (tail : ByteArray) :
    ChunkReader.ofDocument (data.extract 0 header.size.toNat ++ tail)
      = ChunkReader.ofDocument data := by
  have hlength := ChunkHeader.size_extract_of_read h
  obtain ⟨-, -, hfits, -⟩ := ChunkHeader.read_eq_ok_iff.mp h
  have hwindow : (data.extract 0 header.size.toNat ++ tail).extract header.headerSize.toNat
      header.size.toNat = data.extract header.headerSize.toNat header.size.toNat := by
    rw [ByteArray.extract_append, hlength, Nat.sub_eq_zero_of_le hfits, Nat.sub_self,
      ByteArray.extract_same, ByteArray.append_empty, ByteArray.extract_extract, Nat.zero_add,
      Nat.zero_add, Nat.min_self]
  unfold ChunkReader.ofDocument
  rw [h, ChunkHeader.read_extract_append h tail]
  dsimp only [bind, Except.bind]
  rw [hwindow]

/-- **A document is what its header declares.** Bytes behind the declared size change nothing in
what is parsed, and when bytes in front of it are missing the document is refused as truncated. -/
theorem parse_window {data : ByteArray} {reader : ChunkReader} {size : UInt32}
    (h : ChunkReader.ofDocument data = .ok reader)
    (hsize : (Reading.record .u32).runAt data 4 = .ok size) :
    (∀ tail, parse (data.extract 0 size.toNat ++ tail) = parse data) ∧
      ∀ cut < size.toNat, parse (data.extract 0 cut)
        = .error (.truncatedChunk 0 (if cut < 8 then 8 else size.toNat) cut) := by
  obtain ⟨header, hread, -, -⟩ := ofDocument_eq_ok_iff.mp h
  have hfield := ChunkHeader.runAt_size (ChunkHeader.read_eq_ok_iff.mp hread).1
  rw [Nat.zero_add, hsize] at hfield
  cases hfield
  constructor
  · intro tail
    rw [parse, ofDocument_extract_append hread]
    rfl
  · intro cut hcut
    rw [parse, ChunkReader.ofDocument, ChunkHeader.read_cut hread hcut]
    rfl

/-- A document of 38 bytes with three more behind it, and cut once within its header and once behind
it. -/
theorem parse_window_strayBytes :
    parse (strayBytes.extract 0 38 ++ [7, 7, 7].toByteArray) = parse strayBytes ∧
      parse (strayBytes.extract 0 5) = .error (.truncatedChunk 0 8 5) ∧
      parse (strayBytes.extract 0 24) = .error (.truncatedChunk 0 38 24) := by
  have hreader : ChunkReader.ofDocument strayBytes
      = .ok ⟨strayBytes.extract 8 38, 8, 0, false⟩ := rfl
  have hsize : (Reading.record .u32).runAt strayBytes 4 = .ok 38 := rfl
  obtain ⟨htail, hcut⟩ := parse_window hreader hsize
  exact ⟨htail _, hcut 5 (by decide), hcut 24 (by decide)⟩

end ChunkFile

end BinaryXml
