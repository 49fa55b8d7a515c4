import BinaryXml.Proofs.File.Format

/-!
# When a document cannot be written

Writing a document comes to nothing for two reasons: a size does not fit its field, or a start tag
has more attributes than it can count. Every such failure is `chunkTooLarge`, and without the second
reason the size alone decides (`toBytes_eq_ok_or_chunkTooLarge`).
-/

namespace BinaryXml

/-! ## Sizes that do not fit -/

/-- A pool has no size only because it is too large, with its padding or as a whole. -/
theorem StringPool.eq_chunkTooLarge_of_chunkSize {pool : StringPool} {error : Error}
    (h : pool.chunkSize = .error error) : error = .chunkTooLarge := by
  unfold chunkSize paddedSize at h
  split at h
  · simp only [bind, Except.bind] at h
    split at h
    · cases h
    · cases h
      rfl
  · cases h
    rfl

theorem Chunk.eq_chunkTooLarge_of_checkedSize {n : Nat} {error : Error}
    (h : checkedSize n = .error error) : error = .chunkTooLarge := by
  unfold checkedSize at h
  split at h <;> cases h
  rfl

/-- Chunks of any kind have a size unless they are too large; most kinds always have one. -/
theorem Chunk.eq_chunkTooLarge_of_size {chunk : Chunk} {error : Error}
    (h : chunk.size = .error error) : error = .chunkTooLarge := by
  cases chunk with
  | stringPool pool => exact StringPool.eq_chunkTooLarge_of_chunkSize h
  | resourceMap ids => exact eq_chunkTooLarge_of_checkedSize h
  | startTag tag => exact eq_chunkTooLarge_of_checkedSize h
  | other rest => exact eq_chunkTooLarge_of_checkedSize h
  | startNamespace scope | endNamespace scope | endTag tag | characterData data => cases h

/-- A chunk has no bytes for the same reason, its number of attributes included. -/
theorem Chunk.eq_chunkTooLarge_of_encoded {chunk : Chunk} {error : Error}
    (h : chunk.encoded = .error error) : error = .chunkTooLarge := by
  unfold encoded at h
  cases hsize : chunk.size with
  | error found =>
    rw [hsize] at h
    cases h
    exact eq_chunkTooLarge_of_size hsize
  | ok total =>
    rw [hsize] at h
    dsimp only at h
    split at h
    · cases h
      rfl
    · cases h

namespace ChunkFile

/-- Sizes add up only when every chunk has one. -/
theorem exists_size_of_addSizes {chunks : List Chunk} {start sum : Nat}
    (h : addSizes chunks start = .ok sum) : ∀ chunk ∈ chunks, ∃ n, chunk.size = .ok n := by
  induction chunks generalizing start with
  | nil => exact List.forall_mem_nil _
  | cons chunk rest ih =>
    rw [addSizes] at h
    cases hsize : chunk.size with
    | error error =>
      rw [hsize] at h
      cases h
    | ok n =>
      rw [hsize] at h
      dsimp only at h
      split at h
      · exact List.forall_mem_cons.mpr ⟨⟨n, hsize⟩, ih h⟩
      · cases h

/-- The chunks together have no size because one has none or because the sum is too large. -/
theorem eq_chunkTooLarge_of_addSizes {chunks : List Chunk} {start : Nat} {error : Error}
    (h : addSizes chunks start = .error error) : error = .chunkTooLarge := by
  induction chunks generalizing start with
  | nil => cases h
  | cons chunk rest ih =>
    rw [addSizes] at h
    cases hsize : chunk.size with
    | error found =>
      rw [hsize] at h
      cases h
      exact Chunk.eq_chunkTooLarge_of_size hsize
    | ok n =>
      rw [hsize] at h
      dsimp only at h
      split at h
      · exact ih h
      · cases h
        rfl

/-! ## The whole -/

/-- **A document whose start tags can count their attributes is written unless its size does not
fit.** -/
theorem toBytes_eq_ok_or_chunkTooLarge {file : ChunkFile}
    (hcounts : ∀ chunk ∈ file.chunks, chunk.attributeCount ≤ Chunk.greatestAttributeCount) :
    (∃ total data, file.size = .ok total ∧ file.toBytes = .ok data) ∨
      file.size = .error .chunkTooLarge ∧ file.toBytes = .error .chunkTooLarge := by
  cases hsize : file.size with
  | error error =>
    obtain rfl := eq_chunkTooLarge_of_addSizes hsize
    refine .inr ⟨rfl, ?_⟩
    rw [toBytes, write_of_size_eq_error hsize]
    rfl
  | ok total =>
    have hpieces : ∀ chunk ∈ file.chunks, ∃ piece, chunk.encoded = .ok piece := by
      intro chunk hchunk
      obtain ⟨n, hn⟩ := exists_size_of_addSizes hsize chunk hchunk
      exact ⟨_, Chunk.encoded_eq_ok_iff.mpr ⟨n, hn, hcounts chunk hchunk, rfl⟩⟩
    obtain ⟨pieces, hpieces⟩ := exists_forall₂_of_forall hpieces
    exact .inl ⟨total, _, rfl, toBytes_eq_ok_iff.mpr ⟨total, pieces, hsize, hpieces, rfl⟩⟩

end ChunkFile

end BinaryXml
