import BinaryXml.StringPool.Entry
import BinaryXml.Proofs.Bytes.Reading
import BinaryXml.Proofs.Except
import BinaryXml.Proofs.Text.Utf16

/-!
# Entries of a string pool, there and back

An entry is as long as `StringEntry.size` says, and wherever it stands in some bytes its string is
decoded from there. Both hold for every string that has a size, on both sides of the bounds between
the short and the long form of the lengths.
-/

namespace BinaryXml

/-! ## Text and words -/

/-- Bytes are read as a text exactly when they are the bytes of that text. -/
theorem Utf8.decode_eq_ok_iff {bytes : ByteArray} {s : String} :
    decode bytes = .ok s ↔ bytes = s.toUTF8 := by
  rw [decode, String.fromUTF8?]
  constructor
  · intro h
    by_cases hvalid : bytes.IsValidUTF8
    · rw [dif_pos hvalid] at h
      cases h
      rfl
    · rw [dif_neg hvalid] at h
      cases h
  · rintro rfl
    rw [String.toUTF8_eq_toByteArray, dif_pos s.isValidUTF8]
    rfl

namespace Reading

theorem wordsOnto_flatMap_encode (done units : List UInt16) :
    wordsOnto done (units.flatMap Layout.u16.encode) = done.reverse ++ units :=
  onto_flatMap_encode .u16 (fun _ => rfl) (fun _ _ _ => rfl) done units

/-- The words of a text are read back, as many as a count of bytes allows. -/
theorem takes_units (words : List UInt16) (h : 2 * words.length ≤ greatestCount) :
    Takes (units words.length) (words.flatMap Layout.u16.encode).toByteArray words := by
  have hsize : (words.flatMap Layout.u16.encode).toByteArray.size = 2 * words.length := by
    rw [List.size_toByteArray, length_flatMap_encode]
    rfl
  have hbytes := (takes_bytes (words.flatMap Layout.u16.encode).toByteArray).map
    fun slice => Reading.words slice.data.toList
  rw [hsize, List.data_toByteArray, List.toList_toArray, Reading.words,
    wordsOnto_flatMap_encode] at hbytes
  simpa [units, h] using hbytes

end Reading

namespace StringEntry

open Reading

/-! ## Lengths

Both encodings state a length in one word, or in two when the first is not short. What is said about
the two forms is said once, for `readLength`. -/

/-- Read a length: one word, or two when the first is not short. -/
def readLength {α : Type} (layout : Layout α) (short : α → Bool) (value : α → Nat)
    (combine : α → α → Nat) : Reading Nat := do
  let first ← record layout
  if short first then return value first
  else
    let second ← record layout
    return combine first second

theorem readShortLength_eq : readShortLength
    = readLength .u8 (· < 0x80) UInt8.toNat
      (fun first second => (first.toNat - 0x80) * 0x100 + second.toNat) := by
  simp [readShortLength, readLength, u8]

theorem readWordLength_eq : readWordLength
    = readLength .u16 (· < 0x8000) UInt16.toNat
      (fun first second => (first.toNat - 0x8000) * 0x10000 + second.toNat) := by
  simp [readWordLength, readLength, u16]

theorem length_shortLength_le (n : Nat) : (shortLength n).length ≤ 2 := by
  unfold shortLength
  split
  · exact Nat.le_succ 1
  · exact Nat.le_refl 2

theorem length_wordLength_le (n : Nat) : (wordLength n).length ≤ 2 := by
  unfold wordLength
  split
  · exact Nat.le_succ 1
  · exact Nat.le_refl 2

section

variable {α : Type} (layout : Layout α) (short : α → Bool) (value : α → Nat)
  (combine : α → α → Nat)

/-- A first word that is short is the whole length. -/
theorem takes_readLength_of_short {first : α} (h : short first = true) :
    Takes (readLength layout short value combine) (layout.encode first).toByteArray
      (value first) := by
  rw [← ByteArray.append_empty (b := (layout.encode first).toByteArray)]
  refine (takes_record layout first).bind ?_
  rw [if_pos h]
  exact takes_pure (value first)

/-- A first word that is not short is read together with a second one. -/
theorem takes_readLength_of_long {first : α} (h : short first = false) (second : α) :
    Takes (readLength layout short value combine)
      (layout.encode first ++ layout.encode second).toByteArray (combine first second) := by
  rw [List.toByteArray_append]
  refine (takes_record layout first).bind ?_
  rw [h, if_neg Bool.false_ne_true]
  simpa using (takes_record layout second).map (combine first)

end

/-- A length up to `greatestUtf8Length` is read back from its short or its long form. -/
theorem takes_readShortLength (n : Nat) (h : n ≤ greatestUtf8Length) :
    Takes readShortLength (shortLength n).toByteArray n := by
  have hn : n ≤ 0x7FFF := h
  rw [readShortLength_eq]
  -- the sign bit of the first word tells the form
  by_cases hshort : n ≤ 0x7F
  · have hfirst : (UInt8.ofNat n).toNat = n := by
      rw [UInt8.toNat_ofNat']
      omega
    have hlow : decide (UInt8.ofNat n < 0x80) = true := by
      rw [decide_eq_true_eq, UInt8.lt_iff_toNat_lt, hfirst]
      exact Nat.lt_succ_of_le hshort
    have htakes := takes_readLength_of_short .u8 (· < 0x80) UInt8.toNat
      (fun first second => (first.toNat - 0x80) * 0x100 + second.toNat) hlow
    rw [shortLength, if_pos hshort]
    rwa [hfirst] at htakes
  · have hfirst : (UInt8.ofNat (0x80 + n / 0x100 % 0x80)).toNat = 0x80 + n / 0x100 := by
      rw [UInt8.toNat_ofNat']
      omega
    have hhigh : decide (UInt8.ofNat (0x80 + n / 0x100 % 0x80) < 0x80) = false := by
      rw [decide_eq_false_iff_not, UInt8.lt_iff_toNat_lt, hfirst]
      exact Nat.not_lt.mpr (Nat.le_add_right _ _)
    have hvalue : (0x80 + n / 0x100 - 0x80) * 0x100 + (UInt8.ofNat n).toNat = n := by
      rw [UInt8.toNat_ofNat']
      omega
    have htakes := takes_readLength_of_long .u8 (· < 0x80) UInt8.toNat
      (fun first second => (first.toNat - 0x80) * 0x100 + second.toNat) hhigh (UInt8.ofNat n)
    rw [shortLength, if_neg hshort]
    rwa [hfirst, hvalue] at htakes

/-- A length up to `greatestUtf16Length` is read back from its short or its long form. -/
theorem takes_readWordLength (n : Nat) (h : n ≤ greatestUtf16Length) :
    Takes readWordLength ((wordLength n).flatMap Layout.u16.encode).toByteArray n := by
  have hn : n ≤ 0x7FFFFFFF := h
  rw [readWordLength_eq]
  by_cases hshort : n ≤ 0x7FFF
  · -- the short form: one word, below the mark of the long form
    have hfirst : (UInt16.ofNat n).toNat = n := by
      rw [UInt16.toNat_ofNat']
      omega
    have hlow : decide (UInt16.ofNat n < 0x8000) = true := by
      rw [decide_eq_true_eq, UInt16.lt_iff_toNat_lt, hfirst]
      exact Nat.lt_succ_of_le hshort
    have htakes := takes_readLength_of_short .u16 (· < 0x8000) UInt16.toNat
      (fun first second => (first.toNat - 0x8000) * 0x10000 + second.toNat) hlow
    rw [wordLength, if_pos hshort, List.flatMap_singleton]
    rwa [hfirst] at htakes
  · -- the long form: the mark and the upper half first, the lower half behind
    have hfirst : (UInt16.ofNat (0x8000 + n / 0x10000 % 0x8000)).toNat = 0x8000 + n / 0x10000 := by
      rw [UInt16.toNat_ofNat']
      omega
    have hhigh : decide (UInt16.ofNat (0x8000 + n / 0x10000 % 0x8000) < 0x8000) = false := by
      rw [decide_eq_false_iff_not, UInt16.lt_iff_toNat_lt, hfirst]
      exact Nat.not_lt.mpr (Nat.le_add_right _ _)
    have hvalue : (0x8000 + n / 0x10000 - 0x8000) * 0x10000 + (UInt16.ofNat n).toNat = n := by
      rw [UInt16.toNat_ofNat']
      omega
    have htakes := takes_readLength_of_long .u16 (· < 0x8000) UInt16.toNat
      (fun first second => (first.toNat - 0x8000) * 0x10000 + second.toNat) hhigh (UInt16.ofNat n)
    rw [wordLength, if_neg hshort, List.flatMap_cons, List.flatMap_singleton]
    rwa [hfirst, hvalue] at htakes

/-! ## Whole entries -/

theorem takes_text (s : String) : Takes (text s.utf8ByteSize) s.toUTF8 s := by
  have htakes : Takes (text s.toUTF8.size) (s.toUTF8 ++ .empty) s := by
    refine (takes_bytes s.toUTF8).bind ?_
    rw [Utf8.decode_eq_ok_iff.mpr rfl]
    exact takes_pure s
  rwa [ByteArray.append_empty] at htakes

/-- A string has a size in UTF-8 when both its lengths can be stated. -/
theorem size_utf8_eq_ok_iff (s : String) (n : Nat) :
    size .utf8 s = .ok n ↔
      (Utf16.length s ≤ greatestUtf8Length ∧ s.utf8ByteSize ≤ greatestUtf8Length) ∧
        n = (shortLength (Utf16.length s)).length + (shortLength s.utf8ByteSize).length
          + s.utf8ByteSize + 1 := by
  simp only [size]
  rw [ite_eq_ok_iff, Except.ok.injEq, eq_comm (b := n)]

/-- A string has a size in UTF-16 when its length and its size can be stated. -/
theorem size_utf16_eq_ok_iff (s : String) (n : Nat) :
    size .utf16 s = .ok n ↔
      (Utf16.length s ≤ greatestUtf16Length ∧ n < UInt32.size) ∧
        n = 2 * (wordLength (Utf16.length s)).length + 2 * Utf16.length s + 2 := by
  simp only [size]
  rw [ite_eq_ok_iff, Except.ok.injEq, eq_comm (b := n)]
  -- the bound is on the size itself
  constructor
  · rintro ⟨hbounds, rfl⟩
    exact ⟨hbounds, rfl⟩
  · rintro ⟨hbounds, rfl⟩
    exact ⟨hbounds, rfl⟩

/-- The string has no entry, since a pool of the encoding cannot state how long it is. -/
def TooLong (encoding : StringEncoding) (s : String) : Prop :=
  match encoding with
  | .utf8 => greatestUtf8Length < s.utf8ByteSize
  | .utf16 => greatestUtf16Length < Utf16.length s ∨ UInt32.size ≤ (encode .utf16 s).size

instance decidableTooLong (encoding : StringEncoding) (s : String) :
    Decidable (TooLong encoding s) :=
  match encoding with
  | .utf8 => inferInstanceAs (Decidable (_ < _))
  | .utf16 => inferInstanceAs (Decidable (_ ∨ _))

/-- An entry has no size for one reason only: its string is too long. -/
theorem eq_stringTooLong_of_size_eq_error {encoding : StringEncoding} {s : String} {error : Error}
    (h : size encoding s = .error error) : ∃ length, error = .stringTooLong length := by
  cases encoding with
  | utf8 =>
    simp only [size] at h
    split at h <;> cases h
    exact ⟨_, rfl⟩
  | utf16 =>
    simp only [size] at h
    split at h <;> cases h
    exact ⟨_, rfl⟩

/-- The part of an entry that is read: all but the terminator. -/
def body (encoding : StringEncoding) (s : String) : ByteArray :=
  match encoding with
  | .utf8 => (shortLength (Utf16.length s)).toByteArray
      ++ ((shortLength s.utf8ByteSize).toByteArray ++ s.toUTF8)
  | .utf16 => ((wordLength (Utf16.length s)).flatMap Layout.u16.encode).toByteArray
      ++ ((Utf16.encode s.toList).flatMap Layout.u16.encode).toByteArray

def terminator : StringEncoding → ByteArray
  | .utf8 => [0].toByteArray
  | .utf16 => (Layout.u16.encode 0).toByteArray

/-- An entry is what is read of it with its terminator behind. -/
theorem encode_eq_body_append (encoding : StringEncoding) (s : String) :
    encode encoding s = body encoding s ++ terminator encoding := by
  cases encoding with
  | utf8 => simp only [encode, body, terminator, List.toByteArray_append, ByteArray.append_assoc]
  | utf16 =>
    simp only [encode, body, terminator, Utf16.length, List.flatMap_append, List.flatMap_singleton,
      List.toByteArray_append]

/-- The size of an entry in UTF-8: both lengths, the text, and a byte that ends it. -/
theorem size_encode_utf8 (s : String) : (encode .utf8 s).size
    = (shortLength (Utf16.length s)).length + (shortLength s.utf8ByteSize).length
      + s.utf8ByteSize + 1 := by
  have hterminator : (terminator .utf8).size = 1 := rfl
  have htext : s.toUTF8.size = s.utf8ByteSize := rfl
  rw [encode_eq_body_append, ByteArray.size_append, hterminator, body, ByteArray.size_append,
    ByteArray.size_append, List.size_toByteArray, List.size_toByteArray, htext,
    Nat.add_assoc _ _ s.utf8ByteSize]

/-- The size of an entry in UTF-16: the length, the units, and a word that ends them. -/
theorem size_encode_utf16 (s : String) : (encode .utf16 s).size
    = 2 * (wordLength (Utf16.length s)).length + 2 * Utf16.length s + 2 := by
  have hterminator : (terminator .utf16).size = 2 := rfl
  have hwidth : Layout.u16.width = 2 := rfl
  rw [encode_eq_body_append, ByteArray.size_append, hterminator, body, ByteArray.size_append,
    List.size_toByteArray, List.size_toByteArray, length_flatMap_encode, length_flatMap_encode,
    hwidth]
  rfl

/-- An entry is as long as its size says. -/
theorem size_encode {encoding : StringEncoding} {s : String} {n : Nat}
    (h : size encoding s = .ok n) : (encode encoding s).size = n := by
  cases encoding with
  | utf8 =>
    obtain ⟨-, rfl⟩ := (size_utf8_eq_ok_iff s n).mp h
    exact size_encode_utf8 s
  | utf16 =>
    obtain ⟨-, rfl⟩ := (size_utf16_eq_ok_iff s n).mp h
    exact size_encode_utf16 s

/-- The strings without an entry are those that are too long. -/
theorem not_tooLong_iff {encoding : StringEncoding} {s : String} :
    ¬ TooLong encoding s ↔ ∃ n, size encoding s = .ok n := by
  cases encoding with
  | utf8 =>
    -- a text that has few bytes has few units
    have hunits := Utf16.length_le_utf8ByteSize s
    simp only [TooLong, size_utf8_eq_ok_iff, Nat.not_lt]
    constructor
    · intro hbytes
      exact ⟨_, ⟨hunits.trans hbytes, hbytes⟩, rfl⟩
    · rintro ⟨n, ⟨-, hbytes⟩, -⟩
      exact hbytes
  | utf16 =>
    simp only [TooLong, size_utf16_eq_ok_iff, size_encode_utf16, not_or, Nat.not_lt, Nat.not_le]
    constructor
    · rintro ⟨hlength, hsize⟩
      exact ⟨_, ⟨hlength, hsize⟩, rfl⟩
    · rintro ⟨n, ⟨hlength, hsize⟩, rfl⟩
      exact ⟨hlength, hsize⟩

/-- No entry is empty, since it ends in a terminator. -/
theorem size_pos {encoding : StringEncoding} {s : String} {n : Nat}
    (h : size encoding s = .ok n) : 0 < n := by
  cases encoding with
  | utf8 =>
    obtain ⟨-, rfl⟩ := (size_utf8_eq_ok_iff s n).mp h
    omega
  | utf16 =>
    obtain ⟨-, rfl⟩ := (size_utf16_eq_ok_iff s n).mp h
    omega

/-- The string of an entry is read from its body. -/
theorem takes_read {encoding : StringEncoding} {s : String} {n : Nat}
    (h : size encoding s = .ok n) : Takes (read encoding) (body encoding s) (some s) := by
  cases encoding with
  | utf8 =>
    obtain ⟨⟨hunits, hbytes⟩, -⟩ := (size_utf8_eq_ok_iff s n).mp h
    refine (takes_readShortLength _ hunits).bind ((takes_readShortLength _ hbytes).bind ?_)
    simpa using (takes_text s).map some
  | utf16 =>
    obtain ⟨⟨hlength, -⟩, -⟩ := (size_utf16_eq_ok_iff s n).mp h
    -- so long a text would not have a length at all
    have hcount : 2 * (Utf16.encode s.toList).length ≤ greatestCount := by
      have hbound : Utf16.length s ≤ 0x7FFFFFFF := hlength
      simp only [Utf16.length] at hbound
      have hgreatest : greatestCount = 18446744073709551615 := rfl
      omega
    refine (takes_readWordLength _ hlength).bind ?_
    have hunits := (takes_units _ hcount).map fun units => (Utf16.decode units).map String.ofList
    rw [Utf16.decode_encode, Option.map_some, String.ofList_toList] at hunits
    simpa [Utf16.length] using hunits

/-- **An entry is decoded wherever it stands.** Every string that has a size is found again at the
offset of its entry, whatever stands before and behind it. -/
theorem decode_append_encode {encoding : StringEncoding} {s : String} {n : Nat}
    (h : size encoding s = .ok n) (before after : ByteArray) :
    decode encoding (before ++ encode encoding s ++ after) before.size = some s := by
  have hread := takes_read h before (terminator encoding ++ after)
  rw [encode_eq_body_append, ← ByteArray.append_assoc (a := before),
    ByteArray.append_assoc (b := terminator encoding), decode, hread]

end StringEntry

end BinaryXml
