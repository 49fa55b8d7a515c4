import Mathlib.Data.String.Basic
import Mathlib.Tactic.Set
import BinaryXml.Text.Utf16

/-!
# UTF-16 there and back

The code units of a text decode to that text, and units that decode to a text are its own. A
character of the basic plane is never a surrogate, and one beyond it has twenty bits once `0x10000`
is taken off, ten for each half of its pair.
-/

namespace BinaryXml.Utf16

theorem toNat_valid (c : Char) : c.toNat < 0xD800 ∨ (0xDFFF < c.toNat ∧ c.toNat < 0x110000) :=
  c.valid

theorem isHigh_iff (unit : UInt16) :
    isHigh unit = true ↔ 0xD800 ≤ unit.toNat ∧ unit.toNat < 0xDC00 := by
  simp [isHigh, UInt16.le_iff_toNat_le, UInt16.lt_iff_toNat_lt]

theorem isLow_iff (unit : UInt16) :
    isLow unit = true ↔ 0xDC00 ≤ unit.toNat ∧ unit.toNat < 0xE000 := by
  simp [isLow, UInt16.le_iff_toNat_le, UInt16.lt_iff_toNat_lt]

/-! A character of the basic plane is one unit, and no surrogate; any other is a pair, whose halves
give the code point back. -/

/-- The only unit of a character of the basic plane is decoded to it. -/
theorem decodeOnto_unitsOf_basic (done : List Char) {c : Char} (hbasic : c.toNat < 0x10000)
    (rest : List UInt16) : decodeOnto done (unitsOf c ++ rest) = decodeOnto (c :: done) rest := by
  have hvalid := toNat_valid c
  have hunit : (UInt16.ofNat c.toNat).toNat = c.toNat := by
    rw [UInt16.toNat_ofNat']
    omega
  have hhigh : ¬ isHigh (UInt16.ofNat c.toNat) = true := by
    -- below and above the surrogates alike, the unit is taken for itself
    rw [isHigh_iff, hunit]
    omega
  have hlow : ¬ isLow (UInt16.ofNat c.toNat) = true := by
    rw [isLow_iff, hunit]
    omega
  rw [unitsOf, if_pos hbasic, List.singleton_append, decodeOnto.eq_def]
  simp only [hhigh, hlow, hunit, Bool.false_eq_true, if_false, Char.ofNat_toNat]

/-- The two halves of any other character are decoded to it. -/
theorem decodeOnto_unitsOf_pair (done : List Char) {c : Char} (hpair : ¬ c.toNat < 0x10000)
    (rest : List UInt16) : decodeOnto done (unitsOf c ++ rest) = decodeOnto (c :: done) rest := by
  have hvalid := toNat_valid c
  set high := UInt16.ofNat (0xD800 + (c.toNat - 0x10000) / 0x400) with hhighdef
  set low := UInt16.ofNat (0xDC00 + (c.toNat - 0x10000) % 0x400) with hlowdef
  have hunits : unitsOf c = [high, low] := by
    rw [unitsOf, if_neg hpair]
  -- each half has ten bits, so neither leaves its range
  have hhighNat : high.toNat = 0xD800 + (c.toNat - 0x10000) / 0x400 := by
    rw [hhighdef, UInt16.toNat_ofNat']
    omega
  have hlowNat : low.toNat = 0xDC00 + (c.toNat - 0x10000) % 0x400 := by
    rw [hlowdef, UInt16.toNat_ofNat']
    omega
  have hhigh : isHigh high = true := by
    rw [isHigh_iff, hhighNat]
    omega
  have hlow : isLow low = true := by
    rw [isLow_iff, hlowNat]
    omega
  have hcode : 0x10000 + (high.toNat - 0xD800) * 0x400 + (low.toNat - 0xDC00) = c.toNat := by
    rw [hhighNat, hlowNat]
    omega
  rw [hunits, List.cons_append, List.singleton_append, decodeOnto.eq_def]
  simp only [hhigh, hlow, if_true, hcode, Char.ofNat_toNat]

/-- The units of one character decode to it, whatever follows them. -/
theorem decodeOnto_unitsOf (done : List Char) (c : Char) (rest : List UInt16) :
    decodeOnto done (unitsOf c ++ rest) = decodeOnto (c :: done) rest := by
  by_cases hbasic : c.toNat < 0x10000
  · exact decodeOnto_unitsOf_basic done hbasic rest
  · exact decodeOnto_unitsOf_pair done hbasic rest

/-- Decoding goes on to the text whose units are left. The induction is on that text, for any
characters that are done. -/
theorem decodeOnto_encode (done text : List Char) :
    decodeOnto done (encode text) = some (done.reverse ++ text) := by
  induction text generalizing done with
  | nil => simp [encode, decodeOnto]
  | cons c rest ih =>
    rw [encode, List.flatMap_cons, decodeOnto_unitsOf]
    rw [show rest.flatMap unitsOf = encode rest from rfl, ih]
    simp

/-- **UTF-16 is faithful.** The code units of a text decode to that text. -/
theorem decode_encode (text : List Char) : decode (encode text) = some text :=
  decodeOnto_encode [] text

/-! The way back: what is decoded to a text are its code units. -/

theorem toNat_ofNat {n : Nat} (h : n.isValidChar) : (Char.ofNat n).toNat = n := by
  rw [Char.ofNat, dif_pos h]
  rfl

/-- A unit that is no surrogate is the only unit of the character that it stands for. -/
theorem unitsOf_ofNat_of_basic {unit : UInt16} (hhigh : ¬ isHigh unit = true)
    (hlow : ¬ isLow unit = true) : unitsOf (Char.ofNat unit.toNat) = [unit] := by
  rw [isHigh_iff] at hhigh
  rw [isLow_iff] at hlow
  have hunit := unit.toNat_lt
  have hvalid : Nat.isValidChar unit.toNat := by
    rw [Nat.isValidChar]
    omega
  rw [unitsOf, toNat_ofNat hvalid, if_pos (by omega), UInt16.ofNat_toNat]

/-- A pair of surrogates is the pair of the character that it stands for. -/
theorem unitsOf_ofNat_of_pair {high low : UInt16} (hhigh : isHigh high = true)
    (hlow : isLow low = true) :
    unitsOf (Char.ofNat (0x10000 + (high.toNat - 0xD800) * 0x400 + (low.toNat - 0xDC00)))
      = [high, low] := by
  rw [isHigh_iff] at hhigh
  rw [isLow_iff] at hlow
  have hvalid : Nat.isValidChar
      (0x10000 + (high.toNat - 0xD800) * 0x400 + (low.toNat - 0xDC00)) := by
    rw [Nat.isValidChar]
    omega
  -- taking `0x10000` off leaves the two halves side by side, ten bits each
  have hfirst : 0xD800 + (0x10000 + (high.toNat - 0xD800) * 0x400 + (low.toNat - 0xDC00)
      - 0x10000) / 0x400 = high.toNat := by omega
  have hsecond : 0xDC00 + (0x10000 + (high.toNat - 0xD800) * 0x400 + (low.toNat - 0xDC00)
      - 0x10000) % 0x400 = low.toNat := by omega
  rw [unitsOf, toNat_ofNat hvalid, if_neg (by omega), hfirst, hsecond,
    UInt16.ofNat_toNat, UInt16.ofNat_toNat]

/-- What is done and what is left are the units of the decoded text. The induction follows the
decoder: a unit on its own, a pair, or the end. -/
theorem encode_of_decodeOnto {done text : List Char} {units : List UInt16}
    (h : decodeOnto done units = some text) : encode text = encode done.reverse ++ units := by
  have hstep : ∀ (c : Char) (done : List Char),
      encode (c :: done).reverse = encode done.reverse ++ unitsOf c := by
    intro c done
    rw [encode, encode, List.reverse_cons, List.flatMap_append, List.flatMap_singleton]
  fun_induction decodeOnto done units with
  | case1 done =>
    cases h
    exact (List.append_nil _).symm
  | case2 | case4 | case5 => cases h
  | case3 done high hhigh low rest hlow code ih =>
    rw [ih h, hstep, unitsOf_ofNat_of_pair hhigh hlow, List.append_assoc]
    rfl
  | case6 done unit units hhigh hlow ih =>
    rw [ih h, hstep, unitsOf_ofNat_of_basic hhigh hlow, List.append_assoc]
    rfl

/-- Code units that decode to a text are the units of that text. -/
theorem encode_of_decode {units : List UInt16} {text : List Char} (h : decode units = some text) :
    encode text = units :=
  encode_of_decodeOnto h

/-- No character has more units than bytes. -/
theorem length_unitsOf_le (c : Char) : (unitsOf c).length ≤ c.utf8Size := by
  by_cases hbasic : c.toNat < 0x10000
  · rw [unitsOf, if_pos hbasic]
    exact c.utf8Size_pos
  · have hval : 0x10000 ≤ c.val.toNat := Nat.not_lt.mp hbasic
    have hsize : c.utf8Size = 4 := by
      simp only [Char.utf8Size, UInt32.le_iff_toNat_le]
      rw [if_neg, if_neg, if_neg] <;> simp <;> omega
    rw [unitsOf, if_neg hbasic, hsize]
    show 2 ≤ 4
    decide

/-- A text has no more code units than it has bytes in UTF-8. -/
theorem length_le_utf8ByteSize (text : String) : length text ≤ text.utf8ByteSize := by
  have hchars : ∀ chars, (encode chars).length ≤ String.utf8Len chars := by
    intro chars
    induction chars with
    | nil => exact Nat.zero_le _
    | cons c rest ih =>
      have hc := length_unitsOf_le c
      rw [encode] at ih
      rw [String.utf8Len_cons, encode, List.flatMap_cons, List.length_append]
      omega
  have htext := hchars text.toList
  rwa [← String.utf8ByteSize_ofList, String.ofList_toList] at htext

end BinaryXml.Utf16
