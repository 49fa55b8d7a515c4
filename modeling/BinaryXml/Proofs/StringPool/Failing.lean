import BinaryXml.Proofs.StringPool.Format
import BinaryXml.Proofs.StringPool.Placed

/-!
# Why a string pool chunk is refused

A chunk is refused for what its header, its table or its entries say; never because a string that
has been read would be too long to be written again. In UTF-8 a length that can be read can be
written. In UTF-16 there are lengths that can be read and not be written, but an entry that states
one does not fit into a chunk whose first word is the tag of a string pool.
-/

namespace BinaryXml.StringEntry

/-! ## Strings that are read -/

/-- A string that is read is not too long to be written, except perhaps when its entry stands at the
very front of four gigabytes and starts with the greatest word. -/
theorem not_tooLong_of_entryAt {encoding : StringEncoding} {data : ByteArray} {stop place : Nat}
    {s : String} (hstop : stop ≤ data.size) (hsize : stop < UInt32.size)
    (hfront : place ≤ 1 → Layout.u16.valueAt data place ≠ 0xFFFF)
    (h : EntryAt data stop place s encoding) : ¬ TooLong encoding s := by
  have h32 : UInt32.size = 2 ^ 32 := rfl
  cases h with
  | @utf8 units count second text _ hbytes hinside htext =>
    have hcount := hbytes.lt UInt8.toNat_lt
    have htotal : s.utf8ByteSize = count := by
      show s.toUTF8.size = count
      rw [← htext, ByteArray.size_extract]
      omega
    have hgreatest : greatestUtf8Length = 0x7FFF := rfl
    rw [TooLong]
    omega
  | @utf16 count text hlength hinside htext =>
    have htotal : Utf16.length s = count := by
      have hbytes := congrArg ByteArray.size htext
      rw [List.size_toByteArray, Reading.length_flatMap_encode, Layout.width_u16,
        ByteArray.size_extract] at hbytes
      rw [Utf16.length]
      omega
    have hwords := length_wordLength_le count
    have hgreatest : greatestUtf16Length = 0x7FFFFFFF := rfl
    rw [TooLong, size_encode_utf16, htotal]
    cases hlength with
    | short _ below => omega
    | long _ above =>
      -- an entry that is too long leaves room for one byte in front of it
      have hsecond := (Layout.u16.valueAt data (place + 2)).toNat_lt
      have hfirst : place ≤ 1 → (Layout.u16.valueAt data place).toNat < 0xFFFF := by
        intro hplace
        have hbound := (Layout.u16.valueAt data place).toNat_lt
        have hword : (Layout.u16.valueAt data place).toNat ≠ 0xFFFF := by
          intro hmax
          exact hfront hplace (UInt16.toNat_inj.mp hmax)
        omega
      have hbound := (Layout.u16.valueAt data place).toNat_lt
      rw [Layout.width_u16] at *
      omega

end BinaryXml.StringEntry

namespace BinaryXml.StringPool

open Reading StringEntry

/-! ## The front of a string pool chunk -/

/-- No entry at the front of the chunk starts with the greatest word: there stands the tag of the
chunk. -/
theorem firstWord_ne_of_tag {chunk : ByteArray} {header : ChunkHeader}
    (h : (record ChunkHeader.layout).runAt chunk 0 = .ok header)
    (hkind : header.kind = ChunkType.stringPool) {position : Nat} (hposition : position ≤ 1) :
    Layout.u16.valueAt chunk position ≠ 0xFFFF := by
  obtain ⟨hsize, rfl⟩ := runAt_record_eq_ok_iff_valueAt.mp h
  rw [ChunkHeader.valueAt_layout hsize] at hkind
  have htag : (Layout.u16.valueAt chunk 0).toNat = 1 := congrArg UInt16.toNat hkind
  rw [Nat.zero_add, ChunkHeader.width_layout] at hsize
  have hfirst := Layout.toNat_valueAt_u16 (Nat.le_trans (by decide : 0 + 2 ≤ 8) hsize)
  have hsecond := Layout.toNat_valueAt_u16 (Nat.le_trans (by decide : 1 + 2 ≤ 8) hsize)
  -- the bytes of the tag are one and zero, so neither can be the low byte of that word
  have hhigh := (Layout.u8.valueAt chunk 2).toNat_lt
  intro hmax
  have hword : (Layout.u16.valueAt chunk position).toNat = 65535 := congrArg UInt16.toNat hmax
  rcases Nat.le_one_iff_eq_zero_or_eq_one.mp hposition with rfl | rfl
  · omega
  · simp only [Nat.reduceAdd] at hfirst hsecond
    omega

/-! ## The whole chunk -/

/-- The chunk ends before the header of a string pool does, or before its table of offsets does. -/
def CutShort (chunk : ByteArray) : Prop :=
  chunk.size < headerSize ∨
    ∃ header, (record PoolHeader.layout).runAt chunk 0 = .ok header ∧
      chunk.size < header.chunk.headerSize.toNat + 4 * header.stringCount.toNat

/-- Why a string pool chunk is refused that stands at `offset`. -/
inductive Refused (chunk : ByteArray) (offset : Nat) : Error → Prop where
  | cutShort (position needed available : Nat) (h : CutShort chunk) :
    Refused chunk offset (.read (.unexpectedEnd position needed available))
  | malformedChunk (reason : Malformation) : Refused chunk offset (.malformedChunk offset reason)
  | malformedString (index : Nat) : Refused chunk offset (.malformedString index)
  | chunkTooLarge : Refused chunk offset .chunkTooLarge

/-- An entry that is not too long is refused for want of room alone. -/
theorem failsOnly_append {P : Error → Prop} {pool : StringPool} {s : String}
    (hs : ¬ TooLong pool.encoding s) (hlarge : P .chunkTooLarge) :
    FailsOnly P (pool.append s) := by
  intro error herror
  obtain ⟨size, hsize⟩ := not_tooLong_iff.mp hs
  rcases error_of_append herror with hfail | rfl
  · rw [hsize] at hfail
    cases hfail
  · exact hlarge

theorem encoding_of_append {pool filled : StringPool} {s : String} {index : UInt32}
    (h : pool.append s = .ok (index, filled)) : filled.encoding = pool.encoding := by
  obtain ⟨_, _, _, _, _, rfl⟩ := append_eq_ok_iff.mp h
  rfl

/-- Along a table of offsets an entry spells no string, or there is no room for it. The encoding
stays as it is, so every string is measured by the same bound. -/
theorem failsOnly_appendEntriesAt {P : Error → Prop} {data : ByteArray} (offsets : List UInt32)
    {pool : StringPool} (hstring : ∀ index, P (.malformedString index)) (hlarge : P .chunkTooLarge)
    (hshort : ∀ offset s, StringEntry.decode pool.encoding data offset = some s →
      ¬ TooLong pool.encoding s) :
    FailsOnly P (appendEntriesAt data offsets pool) := by
  induction offsets generalizing pool with
  | nil => exact failsOnly_ok pool
  | cons offset rest ih =>
    rw [appendEntriesAt]
    cases hentry : StringEntry.decode pool.encoding data offset.toNat with
    | none => exact failsOnly_error (hstring pool.size)
    | some s =>
      dsimp only
      have hone := failsOnly_append (hshort _ s hentry) hlarge
      cases happend : pool.append s with
      | error error => exact failsOnly_error (hone error happend)
      | ok result =>
        obtain ⟨index, filled⟩ := result
        have hencoding := encoding_of_append happend
        exact ih (by rwa [hencoding])

/-- No string of a string pool chunk is too long to be written again. -/
theorem not_tooLong_of_decode_extract {chunk : ByteArray} {header : ChunkHeader}
    (hheader : (record ChunkHeader.layout).runAt chunk 0 = .ok header)
    (hkind : header.kind = ChunkType.stringPool) (hsize : chunk.size < UInt32.size)
    {start stop : Nat} (hstart : start ≤ stop) (hstop : stop ≤ chunk.size)
    {encoding : StringEncoding} {offset : Nat} {s : String}
    (h : StringEntry.decode encoding (chunk.extract start stop) offset = some s) :
    ¬ TooLong encoding s := by
  rw [decode_extract_eq_some_iff hstart hstop] at h
  exact not_tooLong_of_entryAt hstop (by omega) (firstWord_ne_of_tag hheader hkind) h

/-- **Why a string pool chunk is refused.** It ends before its header or its table of offsets does,
its header contradicts itself, an entry spells no string, or the strings are too many or too long
together. -/
theorem refused_of_decode {chunk : ByteArray} {header : ChunkHeader}
    (hheader : (record ChunkHeader.layout).runAt chunk 0 = .ok header)
    (hkind : header.kind = ChunkType.stringPool) (hsize : chunk.size < UInt32.size) (offset : Nat) :
    FailsOnly (Refused chunk offset) (decode chunk offset) := by
  unfold decode
  dsimp only
  refine FailsOnly.bind ?_ fun found hfound => ?_
  · -- the header of a pool is longer than that of a chunk
    intro error herror
    obtain ⟨fault, after, hread, rfl⟩ := of_runAt_eq_error herror
    obtain ⟨hpast, rfl⟩ := of_record_eq_error hread
    have hshort : chunk.size < 28 := Nat.lt_of_lt_of_eq hpast (Nat.zero_add _)
    exact .cutShort _ _ _ (.inl hshort)
  refine failsOnly_ite (fun _ => failsOnly_error (.malformedChunk _)) fun _ => ?_
  refine FailsOnly.bind ?_ fun offsets _ => ?_
  · -- the table is as long as the header says that there are strings
    intro error herror
    obtain ⟨fault, after, hread, rfl⟩ := of_runAt_eq_error herror
    obtain ⟨hpast, position, available, rfl⟩ := of_listOnto_record_eq_error hread
    exact .cutShort _ _ _ (.inr ⟨found, hfound, hpast⟩)
  refine failsOnly_ite (fun _ => failsOnly_ok _) fun _ => ?_
  refine failsOnly_ite (fun _ => failsOnly_error (.malformedChunk _)) fun hrange => ?_
  -- a string that was read can be written, or the chunk would have to be larger than it is
  refine failsOnly_appendEntriesAt offsets .malformedString .chunkTooLarge fun _ _ hentry => ?_
  exact not_tooLong_of_decode_extract hheader hkind hsize (by omega) (by omega) hentry

end BinaryXml.StringPool
