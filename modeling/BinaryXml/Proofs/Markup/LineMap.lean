import BinaryXml.Markup.LineMap
import BinaryXml.Text.Split
import Mathlib.Data.List.Basic

/-!
# Counting line feeds

The line of an offset is one more than the number of line feed bytes ahead of it, which a `LineMap`
looks up (`line_ofText`). Counted as one goes along, from where the last count stopped, it is the
same as long as the offsets do not decrease (`linesAt_eq`).
-/

namespace BinaryXml

/-! ## Bytes of a text -/

namespace Text

/-- The bytes of a text in UTF-8. -/
def bytes (text : List Char) : List UInt8 :=
  text.flatMap String.utf8EncodeChar

theorem toList_toUTF8 (text : String) : text.toUTF8.data.toList = bytes text.toList := by
  rw [String.toUTF8_eq_toByteArray, ← String.utf8Encode_toList, List.utf8Encode,
    List.data_toByteArray]
  rfl

/-- A text has as many bytes as are counted of it. -/
theorem length_bytes (text : List Char) : (bytes text).length = byteLength text := by
  have hfold : ∀ n, text.foldl (fun n c => n + c.utf8Size) n = n + (bytes text).length := by
    induction text with
    | nil => exact fun _ => rfl
    | cons c rest ih =>
      intro n
      rw [List.foldl_cons, ih, bytes, bytes, List.flatMap_cons, List.length_append,
        String.length_utf8EncodeChar, Nat.add_assoc]
  rw [byteLength, hfold, Nat.zero_add]

theorem byteLength_append (first second : List Char) :
    byteLength (first ++ second) = byteLength first + byteLength second := by
  rw [← length_bytes, ← length_bytes, ← length_bytes, bytes, List.flatMap_append,
    List.length_append]
  rfl

/-- A text that is not empty has bytes. -/
theorem byteLength_pos {text : List Char} (h : text ≠ []) : 0 < byteLength text := by
  cases text with
  | nil => exact absurd rfl h
  | cons c rest =>
    have hfirst : byteLength [c] = c.utf8Size := Nat.zero_add _
    have hpos := c.utf8Size_pos
    rw [← List.singleton_append, byteLength_append]
    omega

/-- A text in brackets has the bytes of the brackets and its own. -/
theorem byteLength_enclosed (opening content closing : List Char) :
    byteLength (opening ++ (content ++ closing))
      = byteLength opening + byteLength closing + byteLength content := by
  rw [byteLength_append, byteLength_append]
  omega

/-- A line feed byte is the whole of a line feed, never a part of another character. -/
theorem eq_lineFeed_of_mem {c : Char} (h : 0x0A ∈ String.utf8EncodeChar c) : c = '\n' := by
  have hbyte : ∀ n, 0x0A = UInt8.ofNat n → n % 256 = 10 := by
    intro n hn
    have hnat := congrArg UInt8.toNat hn
    rw [UInt8.toNat_ofNat'] at hnat
    exact hnat.symm
  have hval : c.val.toNat = 10 := by
    unfold String.utf8EncodeChar at h
    dsimp only at h
    -- the bytes of any other form have their high bit set
    split at h
    · have := hbyte _ (List.mem_singleton.mp h)
      omega
    · split at h
      · rcases List.mem_pair.mp h with h | h <;> have := hbyte _ h <;> omega
      · split at h
        · simp only [List.mem_cons, List.not_mem_nil, or_false] at h
          rcases h with h | h | h <;> have := hbyte _ h <;> omega
        · simp only [List.mem_cons, List.not_mem_nil, or_false] at h
          rcases h with h | h | h | h <;> have := hbyte _ h <;> omega
  exact Char.ext (UInt32.toNat_inj.mp hval)

end Text

/-- The number of line feeds among the first bytes. -/
def feedsAhead (bytes : List UInt8) (offset : Nat) : Nat :=
  (bytes.take offset).count 0x0A

theorem feedsAhead_of_length_le {bytes : List UInt8} {offset : Nat} (h : bytes.length ≤ offset) :
    feedsAhead bytes offset = bytes.count 0x0A := by
  rw [feedsAhead, List.take_of_length_le h]

/-- The line feeds ahead of an offset are those ahead of an earlier one and those between. -/
theorem feedsAhead_eq_add {start stop : Nat} (h : start ≤ stop) (bytes : List UInt8) :
    feedsAhead bytes stop = feedsAhead bytes start + ((bytes.take stop).drop start).count 0x0A := by
  have hsplit := List.take_append_drop start (bytes.take stop)
  rw [List.take_take, Nat.min_eq_left h] at hsplit
  rw [feedsAhead, ← hsplit, List.count_append, feedsAhead, hsplit]

namespace Markup

/-! ## The map of a text -/

namespace LineMap

/-- The line feeds ahead of every byte of a text, when there have been some before it. -/
def feedCounts (feeds : Nat) : List Char → List Nat
  | [] => []
  | c :: rest =>
    List.replicate c.utf8Size feeds ++ feedCounts (if c = '\n' then feeds + 1 else feeds) rest

/-- A number is noted for each of so many bytes. -/
theorem toList_pushBytes (feeds count : Nat) (counts : Array Nat) :
    (pushBytes feeds count counts).toList = counts.toList ++ List.replicate count feeds := by
  induction count with
  | zero => exact (List.append_nil _).symm
  | succ count ih =>
    rw [pushBytes, Nat.repeat, Array.toList_push, ← pushBytes, ih, List.append_assoc,
      ← List.replicate_succ']

/-- There is one number for every byte of the text. -/
theorem length_feedCounts (feeds : Nat) (text : List Char) :
    (feedCounts feeds text).length = (Text.bytes text).length := by
  induction text generalizing feeds with
  | nil => rfl
  | cons c rest ih =>
    rw [feedCounts, List.length_append, List.length_replicate, ih, Text.bytes, Text.bytes,
      List.flatMap_cons, List.length_append, String.length_utf8EncodeChar]

/-- A character is a line feed with its only byte, or none of its bytes is one. -/
theorem feedsAhead_utf8EncodeChar {c : Char} {i : Nat} (h : i < c.utf8Size) :
    feedsAhead (String.utf8EncodeChar c) i = 0 := by
  rw [feedsAhead, List.count_eq_zero]
  intro hmem
  obtain rfl := Text.eq_lineFeed_of_mem (List.mem_of_mem_take hmem)
  -- nothing stands in front of the first byte
  have hone : '\n'.utf8Size = 1 := rfl
  obtain rfl : i = 0 := by omega
  cases hmem

/-- A character is a line feed byte if it is the line feed, and else holds none. -/
theorem count_utf8EncodeChar (c : Char) :
    (String.utf8EncodeChar c).count 0x0A = if c = '\n' then 1 else 0 := by
  split
  · rename_i hfeed
    subst hfeed
    decide
  · rename_i hother
    exact List.count_eq_zero.mpr fun hmem => hother (Text.eq_lineFeed_of_mem hmem)

/-- The number that is noted for a byte is that of the line feeds ahead of it. No character but the
line feed has such a byte, so all bytes of a character have one number. -/
theorem getElem?_feedCounts {feeds i : Nat} {text : List Char}
    (h : i < (Text.bytes text).length) :
    (feedCounts feeds text)[i]? = some (feeds + feedsAhead (Text.bytes text) i) := by
  induction text generalizing feeds i with
  | nil => cases h
  | cons c rest ih =>
    have hlength := String.length_utf8EncodeChar c
    have hbytes : Text.bytes (c :: rest) = String.utf8EncodeChar c ++ Text.bytes rest := rfl
    rw [hbytes, List.length_append, hlength] at h
    rw [feedCounts, hbytes, feedsAhead]
    by_cases hfirst : i < c.utf8Size
    · -- the byte is one of the first character
      have hnone := feedsAhead_utf8EncodeChar hfirst
      rw [List.getElem?_append_left (by rwa [List.length_replicate]),
        List.getElem?_replicate_of_lt hfirst,
        List.take_append_of_le_length (by omega), ← feedsAhead, hnone, Nat.add_zero]
    · obtain ⟨j, rfl⟩ := Nat.exists_eq_add_of_le (Nat.not_lt.mp hfirst)
      have hcount := count_utf8EncodeChar c
      rw [List.getElem?_append_right (by rw [List.length_replicate]; omega), List.length_replicate,
        Nat.add_sub_cancel_left, ih (by omega), ← hlength, List.take_length_add_append,
        List.count_append, hcount, ← feedsAhead]
      split <;> congr 1 <;> omega

/-- One pass over a text notes the numbers for all of its bytes and comes to the number of all line
feeds. -/
theorem foldl_pushBytes (text : List Char) (counts : Array Nat) (feeds : Nat) :
    (text.foldl (fun (counts, feeds) c =>
        (pushBytes feeds c.utf8Size counts, if c = '\n' then feeds + 1 else feeds))
      (counts, feeds)).1.toList = counts.toList ++ feedCounts feeds text ∧
    (text.foldl (fun (counts, feeds) c =>
        (pushBytes feeds c.utf8Size counts, if c = '\n' then feeds + 1 else feeds))
      (counts, feeds)).2 = feeds + (Text.bytes text).count 0x0A := by
  induction text generalizing counts feeds with
  | nil => exact ⟨(List.append_nil _).symm, rfl⟩
  | cons c rest ih =>
    obtain ⟨hcounts, hfeeds⟩ := ih (pushBytes feeds c.utf8Size counts)
      (if c = '\n' then feeds + 1 else feeds)
    have hcount := count_utf8EncodeChar c
    refine ⟨?_, ?_⟩
    · rw [List.foldl_cons, hcounts, toList_pushBytes, feedCounts, List.append_assoc]
    · rw [List.foldl_cons, hfeeds, Text.bytes, Text.bytes, List.flatMap_cons, List.count_append,
        hcount]
      split <;> omega

/-- **The line of an offset** is one more than the number of line feed bytes ahead of it. -/
theorem line_ofText (text : List Char) (offset : Nat) :
    (ofText text).line offset = 1 + feedsAhead (Text.bytes text) offset := by
  obtain ⟨hcounts, hfeeds⟩ := foldl_pushBytes text #[] 0
  rw [Nat.zero_add] at hfeeds
  rw [line, ofText]
  generalize text.foldl _ _ = folded at hcounts hfeeds
  obtain ⟨counts, feeds⟩ := folded
  dsimp only at hcounts hfeeds ⊢
  have hsize : counts.size = (Text.bytes text).length := by
    rw [← Array.length_toList, hcounts, List.nil_append, length_feedCounts]
  rw [Array.size_push, Nat.add_sub_cancel, hsize]
  -- inside the text the number is looked up, behind it the last one stands for all
  by_cases hinside : offset < (Text.bytes text).length
  · have hget : counts[offset]? = some (feedsAhead (Text.bytes text) offset) := by
      rw [← Array.getElem?_toList, hcounts, List.nil_append, getElem?_feedCounts hinside,
        Nat.zero_add]
    rw [Nat.min_eq_left (by omega), Array.getElem?_push, if_neg (by omega), hget, Option.getD_some]
  · rw [Nat.min_eq_right (by omega), ← hsize, Array.getElem?_push_size, Option.getD_some, hfeeds,
      feedsAhead_of_length_le (Nat.not_lt.mp hinside)]

end LineMap

/-! ## Counting as one goes along -/

/-- A count of the lines of some bytes that goes on from where it stopped last. -/
structure LineCounter where
  bytes : List UInt8
  /-- The number of bytes that have been counted. -/
  scanned : Nat := 0
  /-- The line behind them. -/
  line : UInt32 := 1

namespace LineCounter

/-- The line of an offset, and the count that goes on from there. -/
def lineAt (offset : Nat) (counter : LineCounter) : UInt32 × LineCounter :=
  let stop := min offset counter.bytes.length
  if counter.scanned < stop then
    let feeds := ((counter.bytes.take stop).drop counter.scanned).count 0x0A
    let line := counter.line + UInt32.ofNat feeds
    (line, { counter with scanned := stop, line })
  else (counter.line, counter)

/-- The lines of some offsets, asked for one after the other. -/
def linesAt (counter : LineCounter) : List Nat → List UInt32
  | [] => []
  | offset :: rest => (counter.lineAt offset).1 :: (counter.lineAt offset).2.linesAt rest

/-- The count is right for the bytes that have been counted. -/
def Right (counter : LineCounter) : Prop :=
  counter.line = UInt32.ofNat (1 + feedsAhead counter.bytes counter.scanned)

variable {counter : LineCounter} {offset : Nat}

theorem feedsAhead_min (bytes : List UInt8) (offset : Nat) :
    feedsAhead bytes (min offset bytes.length) = feedsAhead bytes offset := by
  rw [feedsAhead, feedsAhead, ← List.take_take, List.take_length]

/-- What comes of asking for an offset that has not been passed. -/
theorem lineAt_of_le (h : counter.Right) (hle : counter.scanned ≤ offset) :
    (counter.lineAt offset).1 = UInt32.ofNat (1 + feedsAhead counter.bytes offset) ∧
      (counter.lineAt offset).2.Right ∧ (counter.lineAt offset).2.bytes = counter.bytes ∧
      (counter.lineAt offset).2.scanned ≤ offset := by
  unfold lineAt
  dsimp only
  split
  · rename_i hahead
    have hfeeds := feedsAhead_eq_add (Nat.le_of_lt hahead) counter.bytes
    have hline : counter.line + UInt32.ofNat
          (((counter.bytes.take (min offset counter.bytes.length)).drop counter.scanned).count 0x0A)
        = UInt32.ofNat (1 + feedsAhead counter.bytes (min offset counter.bytes.length)) := by
      rw [h, hfeeds, ← UInt32.ofNat_add, Nat.add_assoc]
    exact ⟨hline.trans (by rw [feedsAhead_min]), hline, rfl, Nat.min_le_left _ _⟩
  · rename_i hbehind
    -- all the bytes ahead of the offset have been counted
    have hsame : feedsAhead counter.bytes counter.scanned = feedsAhead counter.bytes offset := by
      rcases Nat.le_total offset counter.bytes.length with hinside | hpast
      · rw [Nat.min_eq_left hinside] at hbehind
        rw [Nat.le_antisymm hle (Nat.not_lt.mp hbehind)]
      · rw [Nat.min_eq_right hpast] at hbehind
        rw [feedsAhead_of_length_le (Nat.not_lt.mp hbehind), feedsAhead_of_length_le hpast]
    exact ⟨hsame ▸ h, h, rfl, hle⟩

/-- **Offsets that do not decrease** get the lines that they are on. -/
theorem linesAt_eq (h : counter.Right) {offsets : List Nat}
    (hsorted : (counter.scanned :: offsets).Pairwise (· ≤ ·)) :
    counter.linesAt offsets
      = offsets.map fun offset => UInt32.ofNat (1 + feedsAhead counter.bytes offset) := by
  induction offsets generalizing counter with
  | nil => rfl
  | cons offset rest ih =>
    obtain ⟨hle, hrest⟩ := List.pairwise_cons.mp hsorted
    obtain ⟨hline, hright, hbytes, hscanned⟩ := lineAt_of_le h (hle offset List.mem_cons_self)
    have hnext : ((counter.lineAt offset).2.scanned :: rest).Pairwise (· ≤ ·) := by
      obtain ⟨hahead, htail⟩ := List.pairwise_cons.mp hrest
      exact List.pairwise_cons.mpr ⟨fun later hlater => Nat.le_trans hscanned (hahead later hlater),
        htail⟩
    rw [linesAt, List.map_cons, hline, ih hright hnext, hbytes]

theorem right_start (bytes : List UInt8) : Right { bytes } :=
  rfl

end LineCounter

end Markup

end BinaryXml
