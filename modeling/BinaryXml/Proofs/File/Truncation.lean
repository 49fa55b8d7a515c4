import BinaryXml.Proofs.File.Failing
import BinaryXml.Proofs.Render.Writing

/-!
# Documents that do not fit

A sink that runs out of room holds a prefix of the document, and the error is its own. Nothing else
in a write fails that way: a binary document is refused for its sizes and counts, the text of one
for a string that is not there.
-/

namespace BinaryXml

/-- A chunk that does not fit is written up to the end of the room. -/
theorem Chunk.truncates_write (chunk : Chunk) : Writing.Truncates .outOfRoom chunk.write := by
  rw [write_eq_replay]
  refine Writing.truncates_replay fun hfull => ?_
  have herror := Written.failure_ofExcept_eq_some_iff.mp hfull
  cases eq_chunkTooLarge_of_encoded herror

namespace ChunkFile

/-- So is a document, whose header is written like everything behind it. -/
theorem truncates_write (file : ChunkFile) : Writing.Truncates .outOfRoom file.write := by
  cases hsize : file.size with
  | error error =>
    rw [write_of_size_eq_error hsize]
    refine Writing.truncates_replay fun hfull => ?_
    cases hfull
    cases eq_chunkTooLarge_of_addSizes hsize
  | ok total =>
    rw [write_of_size_eq_ok hsize]
    refine Writing.truncates_replay fun hfull => ?_
    rw [Written.andThen_of_failure_eq_none _ rfl] at hfull
    -- a failure behind the header is the failure of one chunk
    obtain ⟨written, hmem, hchunk⟩ := Written.exists_mem_of_failure_inTurn hfull
    obtain ⟨chunk, -, rfl⟩ := List.mem_map.mp hmem
    have herror := Written.failure_ofExcept_eq_some_iff.mp hchunk
    cases Chunk.eq_chunkTooLarge_of_encoded herror

theorem truncates_writeXml (file : ChunkFile) :
    Writing.Truncates (.xml .outOfRoom) file.writeXml := by
  rw [writeXml_eq_replay]
  refine Writing.truncates_replay fun hfull => ?_
  obtain ⟨index, count, herror⟩ := exists_of_failure_rendering hfull
  cases herror

/-- **What does not fit is cut off.** In whatever room, a document, each chunk on its own and the
text of a document leave as many of their bytes as fit and end as they would without a limit, or for
want of room. The text is written event by event, an event behind the look-up of its strings. -/
theorem truncates_writes (file : ChunkFile) :
    Writing.Truncates .outOfRoom file.write ∧
      (∀ chunk : Chunk, Writing.Truncates .outOfRoom chunk.write) ∧
      Writing.Truncates (.xml .outOfRoom) file.writeXml ∧
      file.writeXml = (do
        Writing.text Render.declarationText
        Render.writeChunks (lookUp file.stringPool?) {} {} file.chunks) :=
  ⟨file.truncates_write, Chunk.truncates_write, file.truncates_writeXml,
    file.writeXml_eq_writeChunks⟩

/-- The first seven bytes of an empty document. -/
example : ((({} : ChunkFile).write.runIn (some 7)).stored.data.toList = [3, 0, 8, 0, 8, 0, 0]) := by
  decide +kernel

end ChunkFile

end BinaryXml
