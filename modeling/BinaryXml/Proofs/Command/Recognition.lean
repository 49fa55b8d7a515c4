import BinaryXml.Command.Listing
import BinaryXml.Proofs.File.Failing
import BinaryXml.Proofs.Render.Lookups

/-!
# Which documents the commands take

The commands look at the front of a file before they read it, and take less than the reader does: a
document is read whatever the length of its header, but a header that is longer than the one this
library writes makes the commands turn it away (`taken_iff_of_parse`).
-/

namespace BinaryXml

namespace ChunkFile

/-- A front with a readable header looks binary if it is that of a document and eight bytes long. -/
theorem looksBinary_iff_of_read {data : ByteArray} {header : ChunkHeader}
    (h : ChunkHeader.read data 0 0 = .ok header) :
    looksBinary data = true ↔ header.kind = ChunkType.document ∧ header.headerSize = 8 := by
  have hheader := (ChunkHeader.read_eq_ok_iff.mp h).1
  rw [looksBinary, hheader]
  simp

/-- What this library writes is recognised. -/
theorem looksBinary_of_toBytes {file : ChunkFile} {data : ByteArray} (h : file.toBytes = .ok data) :
    looksBinary data = true := by
  obtain ⟨total, pieces, -, -, rfl⟩ := toBytes_eq_ok_iff.mp h
  rw [looksBinary, (Reading.takes_record ChunkHeader.layout (header total)).runAt_zero]
  rfl

end ChunkFile

namespace Command

/-! ## Files that are turned away -/

/-- The failure on a file that does not start like a binary document. -/
def notBinary : Failure := { report := "Input file is not a binary XML file" }

/-- The parser comes to see what looks binary, and nothing else. -/
theorem readBinary_eq_ite (data : ByteArray) :
    readBinary (.ok data) = if ChunkFile.looksBinary data then
      orReport "Failed to parse binary XML" (ChunkFile.parse data) else .error notBinary := by
  show (if !ChunkFile.looksBinary data then _ else _) = _
  cases ChunkFile.looksBinary data <;> rfl

structure TurnedAway (data : ByteArray) : Prop where
  readBinary_eq : readBinary (.ok data) = .error notBinary
  decode_eq : ∀ inputName outputName,
    decode inputName outputName (.ok data) = { printed := "", failure := some notBinary }
  list_eq : ∀ strings inputName,
    list strings inputName (.ok data) = { printed := "", failure := some notBinary }

/-- What does not look binary is turned away by every command. -/
theorem turnedAway_of_looksBinary {data : ByteArray} (h : ChunkFile.looksBinary data = false) :
    TurnedAway data := by
  have hread : readBinary (.ok data) = .error notBinary := by
    rw [readBinary_eq_ite, h]
    rfl
  refine ⟨hread, fun inputName outputName => ?_, fun strings inputName => ?_⟩
  · have hcontent : decodeContent (.ok data) = .error notBinary := by
      unfold decodeContent
      rw [hread]
      rfl
    simp only [decode, hcontent]
  · rw [list, hread]
    rfl

/-! ## Files that are taken -/

/-- The commands work on what is read of a file. -/
structure Taken (data : ByteArray) (file : ChunkFile) : Prop where
  readBinary_eq : readBinary (.ok data) = .ok file
  /-- There is a text to decode it to. -/
  decode_failure : ∀ inputName outputName,
    (decode inputName outputName (.ok data)).failure = none
  list_failure_ne : ∀ strings inputName,
    (list strings inputName (.ok data)).failure ≠ some notBinary

/-- A size that does not fit is reported as such. -/
theorem ne_notBinary_of_orFail {size : Except Error Nat} {failure : Failure}
    (hsize : ∀ error, size = .error error → error = .chunkTooLarge)
    (h : orFail size = .error failure) : failure ≠ notBinary := by
  cases size with
  | ok n => cases h
  | error error =>
    obtain rfl := hsize error rfl
    cases h
    decide

/-- Listing fails with sizes alone, never by turning the file away. -/
theorem listOnto_failure_ne (strings : Bool) (file : ChunkFile) (printed : String)
    (chunks : List Chunk) : (listOnto strings file printed chunks).failure ≠ some notBinary := by
  induction chunks generalizing printed with
  | nil => exact nofun
  | cons chunk rest ih =>
    rw [listOnto]
    cases hsize : orFail chunk.size with
    | error failure =>
      have hne := ne_notBinary_of_orFail (fun _ => Chunk.eq_chunkTooLarge_of_size) hsize
      exact fun h => hne (Option.some.inj h)
    | ok size => exact ih _

/-- What looks binary and is read is taken. -/
theorem taken_of_looksBinary {data : ByteArray} {file : ChunkFile}
    (h : ChunkFile.looksBinary data = true) (hparse : ChunkFile.parse data = .ok file) :
    Taken data file := by
  have hread : readBinary (.ok data) = .ok file := by
    rw [readBinary_eq_ite, if_pos h, hparse]
    rfl
  refine ⟨hread, fun inputName outputName => ?_, fun strings inputName => ?_⟩
  · -- what is read is valid, so no string is missing in the text
    have hvalid := (ChunkFile.parse_eq_ok_iff.mp hparse).2
    obtain ⟨text, htext⟩ := ChunkFile.exists_toXml hvalid
    have hcontent : decodeContent (.ok data) = .ok text := by
      unfold decodeContent
      rw [hread]
      show orReport _ file.toXml = _
      rw [htext]
      rfl
    cases outputName <;> simp only [decode, hcontent]
  · -- a size that does not fit is a failure, but another one
    cases hsize : orFail file.size with
    | error failure =>
      have hlist : list strings inputName (.ok data)
          = { printed := "", failure := some failure } := by
        simp [list, hread, hsize, bind, Except.bind]
      have hne := ne_notBinary_of_orFail (fun _ => ChunkFile.eq_chunkTooLarge_of_addSizes) hsize
      rw [hlist]
      exact fun h => hne (Option.some.inj h)
    | ok size =>
      have hlist : list strings inputName (.ok data) = listOnto strings file
          s!"{inputName}: {size} bytes, {file.chunks.length} chunks\n" file.chunks := by
        simp [list, hread, hsize, bind, Except.bind, pure, Except.pure]
      rw [hlist]
      exact listOnto_failure_ne strings file _ file.chunks

/-! ## Documents that are read -/

/-- **The commands take a document exactly if its header is eight bytes long.** Everything that is
read declares a header of that length or a longer one. -/
theorem taken_iff_of_parse {data : ByteArray} {file : ChunkFile}
    (h : ChunkFile.parse data = .ok file) :
    ∃ header, ChunkHeader.read data 0 0 = .ok header ∧ 8 ≤ header.headerSize.toNat ∧
      (ChunkFile.looksBinary data = true ↔ header.headerSize = 8) ∧
      (Taken data file ↔ header.headerSize = 8) ∧
      (TurnedAway data ↔ header.headerSize ≠ 8) := by
  obtain ⟨⟨pieces, header, hheader, hkind, -⟩, -⟩ := ChunkFile.parse_eq_ok_iff.mp h
  have hlong := (ChunkHeader.read_eq_ok_iff.mp hheader).2.1
  have hlooks : ChunkFile.looksBinary data = true ↔ header.headerSize = 8 :=
    (ChunkFile.looksBinary_iff_of_read hheader).trans (and_iff_right hkind)
  have hexcl : Taken data file → ¬ TurnedAway data := by
    -- no file is both taken and turned away
    intro htaken haway
    have hboth := htaken.readBinary_eq.symm.trans haway.readBinary_eq
    cases hboth
  refine ⟨header, hheader, hlong, hlooks, ?_⟩
  by_cases height : header.headerSize = 8
  · have htaken := taken_of_looksBinary (hlooks.mpr height) h
    exact ⟨iff_of_true htaken height, iff_of_false (hexcl htaken) (not_not_intro height)⟩
  · have haway := turnedAway_of_looksBinary (Bool.eq_false_iff.mpr fun hl => height (hlooks.mp hl))
    exact ⟨iff_of_false (fun htaken => hexcl htaken haway) height, iff_of_true haway height⟩

/-- An empty document behind a header of twelve bytes. -/
def longHeader : ByteArray := ⟨#[3, 0, 12, 0, 12, 0, 0, 0, 0, 0, 0, 0]⟩

/-- The parser reads it as a document without chunks. -/
theorem parse_longHeader : ChunkFile.parse longHeader = .ok {} := by
  have hheader : ChunkHeader.read longHeader 0 0 = .ok ⟨ChunkType.document, 12, 12⟩ := by
    decide +kernel
  refine ChunkFile.parse_eq_ok_iff.mpr ⟨⟨[], _, hheader, rfl, ?_, .nil⟩, rfl⟩
  exact ByteArray.extract_same ..

/-- The header may be longer, and then the document is read and turned away. -/
theorem taken_iff_of_parse_longHeader :
    ChunkFile.parse longHeader = .ok {} ∧
      ∃ header, ChunkHeader.read longHeader 0 0 = .ok header ∧ 8 ≤ header.headerSize.toNat ∧
        (ChunkFile.looksBinary longHeader = true ↔ header.headerSize = 8) ∧
        (Taken longHeader {} ↔ header.headerSize = 8) ∧
        (TurnedAway longHeader ↔ header.headerSize ≠ 8) :=
  ⟨parse_longHeader, taken_iff_of_parse parse_longHeader⟩

/-- Not everything that is read is recognised. -/
theorem turnedAway_longHeader :
    ChunkFile.parse longHeader = .ok {} ∧ ChunkFile.looksBinary longHeader = false ∧
      TurnedAway longHeader := by
  have hlooks : ChunkFile.looksBinary longHeader = false := by decide +kernel
  exact ⟨parse_longHeader, hlooks, turnedAway_of_looksBinary hlooks⟩

end Command

end BinaryXml
