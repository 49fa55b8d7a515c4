import BinaryXml.Proofs.Format.Record
import BinaryXml.Proofs.StringPool.Entry

/-!
# Entries where they stand

`EntryAt` tells byte by byte what it is for the entry of a string to stand at a place of some bytes,
without a word about a read: its lengths in their short or long form, and the bytes of the text
behind them. An entry is decoded exactly where it stands (`decode_extract_eq_some_iff`), whatever is
around it, so a string that is written between any bytes is found there again
(`recoverable_of_size`).
-/

namespace BinaryXml

/-! ## Reads of text -/

namespace Reading

variable {c after : Cursor} {count : Nat}

/-- A text is read exactly where its bytes stand: bytes that spell no text spell no other one
either. -/
theorem text_eq_ok_iff {s : String} :
    text count c = .ok s after ↔
      c.position + count ≤ c.data.size ∧
        c.data.extract c.position (c.position + count) = s.toUTF8 ∧
        after = ⟨c.data, c.position + count⟩ := by
  rw [text, bind_run_eq_ok_iff]
  constructor
  · rintro ⟨piece, between, hpiece, htext⟩
    obtain ⟨hrange, rfl, rfl⟩ := bytes_eq_ok_iff.mp hpiece
    cases hdecode : Utf8.decode (c.data.extract c.position (c.position + count)) with
    | error fault =>
      rw [hdecode] at htext
      cases htext
    | ok found =>
      rw [hdecode] at htext
      cases htext
      exact ⟨hrange, Utf8.decode_eq_ok_iff.mp hdecode, rfl⟩
  · rintro ⟨hrange, htext, rfl⟩
    refine ⟨_, _, bytes_eq_ok_iff.mpr ⟨hrange, rfl, rfl⟩, ?_⟩
    rw [Utf8.decode_eq_ok_iff.mpr htext]
    rfl

/-- The words taken off some bytes are those bytes again, unless one byte is left over. -/
theorem flatMap_encode_wordsOnto {done : List UInt16} {bytes : List UInt8}
    (h : bytes.length % 2 = 0) :
    (wordsOnto done bytes).flatMap Layout.u16.encode
      = done.reverse.flatMap Layout.u16.encode ++ bytes := by
  fun_induction wordsOnto done bytes with
  | case1 done low high rest ih =>
    have hword : Layout.u16.encode (Layout.u16.decode [low, high]) = [low, high] :=
      Layout.exact_u16 [low, high] rfl
    have hrest : rest.length % 2 = 0 := by
      simp only [List.length_cons] at h
      omega
    rw [ih hrest, List.reverse_cons, List.flatMap_append, List.flatMap_singleton, hword,
      List.append_assoc]
    rfl
  | case2 bytes done hshort =>
    match bytes, hshort with
    | [], _ => simp
    | [_], _ => cases h
    | low :: high :: rest, hshort => exact (hshort low high rest rfl).elim

/-- Words are told by the bytes that they are stored in. -/
theorem words_eq_iff {piece : ByteArray} {found : List UInt16} (h : piece.size % 2 = 0) :
    words piece.data.toList = found ↔
      piece = (found.flatMap Layout.u16.encode).toByteArray := by
  constructor
  · rintro rfl
    apply ByteArray.ext
    rw [words, flatMap_encode_wordsOnto h, List.data_toByteArray]
    exact piece.data.toArray_toList.symm
  · rintro rfl
    rw [words, List.data_toByteArray, wordsOnto_flatMap_encode]
    rfl

/-- Units are read exactly where their words stand, if a count can tell how many bytes that is. -/
theorem units_eq_ok_iff {found : List UInt16} :
    units count c = .ok found after ↔
      2 * count ≤ greatestCount ∧ c.position + 2 * count ≤ c.data.size ∧
        c.data.extract c.position (c.position + 2 * count)
          = (found.flatMap Layout.u16.encode).toByteArray ∧
        after = ⟨c.data, c.position + 2 * count⟩ := by
  rw [units]
  by_cases hcount : 2 * count ≤ greatestCount
  · rw [if_pos hcount, bind_run_eq_ok_iff]
    -- an even number of bytes leaves none over
    have heven : c.position + 2 * count ≤ c.data.size →
        (c.data.extract c.position (c.position + 2 * count)).size % 2 = 0 := by
      intro hrange
      rw [ByteArray.size_extract]
      omega
    constructor
    · rintro ⟨piece, between, hpiece, ⟨⟩⟩
      obtain ⟨hrange, rfl, rfl⟩ := bytes_eq_ok_iff.mp hpiece
      exact ⟨hcount, hrange, (words_eq_iff (heven hrange)).mp rfl, rfl⟩
    · rintro ⟨-, hrange, hpiece, rfl⟩
      refine ⟨_, _, bytes_eq_ok_iff.mpr ⟨hrange, rfl, rfl⟩, ?_⟩
      rw [(words_eq_iff (heven hrange)).mpr hpiece]
      rfl
  · rw [if_neg hcount]
    constructor
    · rintro ⟨⟩
    · rintro ⟨hfits, -⟩
      exact absurd hfits hcount

end Reading

namespace StringEntry

open Reading

/-! ## What stands at a place -/

/-- A length stands at a place of some bytes and ends at `next`, which is `stop` or before it. It is
one word below `bound`, or one that is not and a second one. -/
inductive LengthAt {α : Type} (layout : Layout α) (value : α → Nat) (bound : Nat) (data : ByteArray)
    (stop place : Nat) : (length next : Nat) → Prop where
  | short (inside : place + layout.width ≤ stop)
      (below : value (layout.valueAt data place) < bound) :
      LengthAt layout value bound data stop place (value (layout.valueAt data place))
        (place + layout.width)
  | long (inside : place + 2 * layout.width ≤ stop)
      (above : bound ≤ value (layout.valueAt data place)) :
      LengthAt layout value bound data stop place
        ((value (layout.valueAt data place) - bound) * (2 * bound)
          + value (layout.valueAt data (place + layout.width)))
        (place + 2 * layout.width)

/-- The entry of a string stands at a place of some bytes and ends at `stop` or before it. In UTF-8
any length may stand in front of that in bytes; what follows the text is not part of what an entry
needs. -/
inductive EntryAt (data : ByteArray) (stop place : Nat) (s : String) : StringEncoding → Prop where
  | utf8 {units count second text : Nat}
      (length_units : LengthAt .u8 UInt8.toNat 0x80 data stop place units second)
      (length_bytes : LengthAt .u8 UInt8.toNat 0x80 data stop second count text)
      (inside : text + count ≤ stop) (text_eq : data.extract text (text + count) = s.toUTF8) :
      EntryAt data stop place s .utf8
  | utf16 {count text : Nat}
      (length_units : LengthAt .u16 UInt16.toNat 0x8000 data stop place count text)
      (inside : text + 2 * count ≤ stop)
      (text_eq : data.extract text (text + 2 * count)
        = ((Utf16.encode s.toList).flatMap Layout.u16.encode).toByteArray) :
      EntryAt data stop place s .utf16

/-! ## Lengths that are read -/

/-- A length is read exactly where it stands, for every layout whose short words are those below a
bound and whose long form puts two words together at twice that bound. -/
theorem readLength_eq_ok_iff {α : Type} {layout : Layout α} {short : α → Bool} {value : α → Nat}
    {combine : α → α → Nat} {bound : Nat} (hshort : ∀ a, short a = true ↔ value a < bound)
    (hcombine : ∀ first second,
      combine first second = (value first - bound) * (2 * bound) + value second)
    {c after : Cursor} {length : Nat} :
    readLength layout short value combine c = .ok length after ↔
      LengthAt layout value bound c.data c.data.size c.position length after.position ∧
        after.data = c.data := by
  rw [readLength, bind_run_eq_ok_iff]
  constructor
  · rintro ⟨first, between, hfirst, hrest⟩
    obtain ⟨hrange, rfl, rfl⟩ := record_eq_ok_iff.mp hfirst
    split at hrest
    · -- the first word is all
      rename_i hbelow
      cases hrest
      exact ⟨.short hrange ((hshort _).mp hbelow), rfl⟩
    · -- the first word is not short, so a second one has been read
      rename_i habove
      rw [hshort, Nat.not_lt] at habove
      obtain ⟨second, later, hsecond, ⟨⟩⟩ := bind_run_eq_ok_iff.mp hrest
      obtain ⟨hrange, rfl, rfl⟩ := record_eq_ok_iff.mp hsecond
      have hinside : c.position + 2 * layout.width ≤ c.data.size := by
        rw [Nat.two_mul, ← Nat.add_assoc]
        exact hrange
      have hlength : LengthAt layout value bound c.data c.data.size c.position _ _ :=
        .long hinside habove
      rw [Nat.two_mul layout.width, ← Nat.add_assoc] at hlength
      rw [hcombine]
      exact ⟨hlength, rfl⟩
  · rintro ⟨hlength, hdata⟩
    obtain ⟨data, next⟩ := after
    dsimp only at hlength hdata
    cases hlength with
    | short inside below =>
      -- the record at the place is read, and no more
      refine ⟨layout.valueAt c.data c.position, _, record_eq_ok_iff.mpr ⟨inside, rfl, rfl⟩, ?_⟩
      rw [hdata, if_pos ((hshort _).mpr below)]
      rfl
    | long inside above =>
      have hfirst : c.position + layout.width ≤ c.data.size := by omega
      have hsecond : c.position + layout.width + layout.width ≤ c.data.size := by omega
      refine ⟨layout.valueAt c.data c.position, _, record_eq_ok_iff.mpr ⟨hfirst, rfl, rfl⟩, ?_⟩
      rw [if_neg fun hbelow => Nat.not_lt.mpr above ((hshort _).mp hbelow), hdata]
      refine bind_run_eq_ok_iff.mpr ⟨_, _, record_eq_ok_iff.mpr ⟨hsecond, rfl, rfl⟩, ?_⟩
      rw [hcombine, Nat.two_mul layout.width, ← Nat.add_assoc]
      rfl

theorem readShortLength_eq_ok_iff {c after : Cursor} {length : Nat} :
    readShortLength c = .ok length after ↔
      LengthAt .u8 UInt8.toNat 0x80 c.data c.data.size c.position length after.position ∧
        after.data = c.data := by
  rw [readShortLength_eq]
  exact readLength_eq_ok_iff (fun _ => decide_eq_true_iff) fun _ _ => rfl

theorem readWordLength_eq_ok_iff {c after : Cursor} {length : Nat} :
    readWordLength c = .ok length after ↔
      LengthAt .u16 UInt16.toNat 0x8000 c.data c.data.size c.position length after.position ∧
        after.data = c.data := by
  rw [readWordLength_eq]
  exact readLength_eq_ok_iff (fun _ => decide_eq_true_iff) fun _ _ => rfl

/-- A length is below the product of what its two words can be. -/
theorem LengthAt.lt {α : Type} {layout : Layout α} {value : α → Nat} {bound : Nat}
    (hvalue : ∀ a, value a < 2 * bound) {data : ByteArray} {stop place length next : Nat}
    (h : LengthAt layout value bound data stop place length next) :
    length < bound * (2 * bound) := by
  cases h with
  | short inside below =>
    have hpos : 1 ≤ 2 * bound := by omega
    exact Nat.lt_of_lt_of_le below (Nat.le_mul_of_pos_right bound hpos)
  | long inside above =>
    have hfirst := hvalue (layout.valueAt data place)
    have hsecond := hvalue (layout.valueAt data (place + layout.width))
    calc (value (layout.valueAt data place) - bound) * (2 * bound)
          + value (layout.valueAt data (place + layout.width))
        < (value (layout.valueAt data place) - bound + 1) * (2 * bound) := by
          rw [Nat.add_one_mul (_ - bound)]
          omega
      _ ≤ bound * (2 * bound) := Nat.mul_le_mul_right _ (by omega)

/-! ## Entries that are read -/

/-- An entry is decoded exactly when it is read to the end and spells a string; how far the read
gets does not matter. -/
theorem decode_eq_some_iff {encoding : StringEncoding} {data : ByteArray} {offset : Nat}
    {s : String} :
    decode encoding data offset = some s ↔
      ∃ after, StringEntry.read encoding ⟨data, offset⟩ = .ok (some s) after := by
  rw [decode]
  cases StringEntry.read encoding ⟨data, offset⟩ with
  | ok entry after =>
    constructor
    · rintro rfl
      exact ⟨after, rfl⟩
    · rintro ⟨_, ⟨⟩⟩
      rfl
  | error fault after =>
    constructor
    · intro h
      cases h
    · rintro ⟨_, h⟩
      cases h

/-- An entry is read exactly where it stands. -/
theorem exists_read_iff {encoding : StringEncoding} {c : Cursor} {s : String} :
    (∃ after, StringEntry.read encoding c = .ok (some s) after) ↔
      EntryAt c.data c.data.size c.position s encoding := by
  cases encoding with
  | utf8 =>
    simp only [StringEntry.read, bind_run_eq_ok_iff, readShortLength_eq_ok_iff, text_eq_ok_iff]
    constructor
    · -- the reads follow each other over the same bytes, so each place is told in those
      rintro ⟨after, units, second, ⟨hunits, hdata⟩, count, third, ⟨hbytes, hdata'⟩, found, last,
        ⟨hinside, htext, rfl⟩, ⟨⟩⟩
      rw [hdata', hdata] at hinside htext
      rw [hdata] at hbytes
      exact .utf8 hunits hbytes hinside htext
    · intro h
      cases h with
      | utf8 hunits hbytes hinside htext =>
        exact ⟨_, _, ⟨c.data, _⟩, ⟨hunits, rfl⟩, _, ⟨c.data, _⟩, ⟨hbytes, rfl⟩, s, _,
          ⟨hinside, htext, rfl⟩, rfl⟩
  | utf16 =>
    simp only [StringEntry.read, bind_run_eq_ok_iff, readWordLength_eq_ok_iff, units_eq_ok_iff]
    constructor
    · rintro ⟨after, count, second, ⟨hlength, hdata⟩, found, third, ⟨-, hinside, htext, rfl⟩,
        hvalue⟩
      -- units that spell no text give no entry
      cases hdecode : Utf16.decode found with
      | none =>
        rw [hdecode] at hvalue
        cases hvalue
      | some text =>
        rw [hdecode] at hvalue
        cases hvalue
        rw [hdata] at hinside htext
        refine .utf16 hlength hinside ?_
        rw [htext, String.toList_ofList, Utf16.encode_of_decode hdecode]
    · intro h
      cases h with
      | @utf16 count text hlength hinside htext =>
        -- a length of two words is far below the greatest count
        have hcount : 2 * count ≤ greatestCount := by
          have hbound := hlength.lt UInt16.toNat_lt
          have hgreatest : greatestCount = 18446744073709551615 := rfl
          omega
        refine ⟨⟨c.data, text + 2 * count⟩, count, ⟨c.data, text⟩, ⟨hlength, rfl⟩,
          Utf16.encode s.toList, _, ⟨hcount, hinside, htext, rfl⟩, ?_⟩
        rw [Utf16.decode_encode, Option.map_some, String.ofList_toList]
        rfl

/-! ## Entries in a part of some bytes -/

section

variable {data : ByteArray} {start stop place : Nat}

section

variable {α : Type} {layout : Layout α} {value : α → Nat} {bound length next : Nat}

/-- A length in a part of some bytes stands in the whole, at the place of the part. -/
theorem LengthAt.of_extract (hstart : start ≤ stop)
    (h : LengthAt layout value bound (data.extract start stop) (stop - start) place length next) :
    LengthAt layout value bound data stop (start + place) length (start + next) := by
  cases h with
  | short inside below =>
    have hinside : start + place + layout.width ≤ stop := by omega
    rw [Layout.valueAt_extract layout hinside] at below ⊢
    rw [← Nat.add_assoc]
    exact .short hinside below
  | long inside above =>
    have hinside : start + place + 2 * layout.width ≤ stop := by omega
    rw [Layout.valueAt_extract layout (by omega)] at above
    rw [Layout.valueAt_extract layout (by omega), Layout.valueAt_extract layout (by omega),
      ← Nat.add_assoc, ← Nat.add_assoc]
    exact .long hinside above

/-- A length that stands in the whole behind the start of a part stands in the part. -/
theorem LengthAt.exists_extract (hstart : start ≤ stop)
    (h : LengthAt layout value bound data stop (start + place) length next) :
    ∃ later, next = start + later ∧
      LengthAt layout value bound (data.extract start stop) (stop - start) place length later := by
  cases h with
  | short inside below =>
    refine ⟨place + layout.width, Nat.add_assoc .., ?_⟩
    rw [← Layout.valueAt_extract layout inside] at below ⊢
    exact .short (by omega) below
  | long inside above =>
    refine ⟨place + 2 * layout.width, Nat.add_assoc .., ?_⟩
    have hfirst : start + place + layout.width ≤ stop := by omega
    have hsecond : start + (place + layout.width) + layout.width ≤ stop := by omega
    rw [← Layout.valueAt_extract layout hfirst] at above
    rw [Nat.add_assoc start place layout.width, ← Layout.valueAt_extract layout hsecond,
      ← Layout.valueAt_extract layout hfirst]
    exact .long (by omega) above

end

/-- An entry stands in a part of some bytes exactly when it stands in the whole and ends with the
part or before it. -/
theorem entryAt_extract_iff (hstart : start ≤ stop) {encoding : StringEncoding} {s : String} :
    EntryAt (data.extract start stop) (stop - start) place s encoding ↔
      EntryAt data stop (start + place) s encoding := by
  have htext : ∀ {text count : Nat}, start + text + count ≤ stop →
      (data.extract start stop).extract text (text + count)
        = data.extract (start + text) (start + text + count) := by
    intro text count hinside
    rw [ByteArray.extract_extract, Nat.min_eq_left (by omega), Nat.add_assoc]
  constructor
  · intro h
    cases h with
    | utf8 hunits hbytes hinside heq =>
      rw [htext (by omega)] at heq
      exact .utf8 (hunits.of_extract hstart) (hbytes.of_extract hstart) (by omega) heq
    | utf16 hlength hinside heq =>
      rw [htext (by omega)] at heq
      exact .utf16 (hlength.of_extract hstart) (by omega) heq
  · intro h
    -- the way back: what is in front of the part drops out of every place
    cases h with
    | utf8 hunits hbytes hinside heq =>
      obtain ⟨second, rfl, hfirst⟩ := hunits.exists_extract hstart
      obtain ⟨text, rfl, hsecond⟩ := hbytes.exists_extract hstart
      rw [← htext hinside] at heq
      exact .utf8 hfirst hsecond (by omega) heq
    | utf16 hlength hinside heq =>
      obtain ⟨text, rfl, hcut⟩ := hlength.exists_extract hstart
      rw [← htext hinside] at heq
      exact .utf16 hcut (by omega) heq

/-- **An entry is decoded exactly where it stands.** -/
theorem decode_extract_eq_some_iff (hstart : start ≤ stop) (hstop : stop ≤ data.size)
    {encoding : StringEncoding} {s : String} :
    decode encoding (data.extract start stop) place = some s ↔
      EntryAt data stop (start + place) s encoding := by
  have hsize : (data.extract start stop).size = stop - start := by
    rw [ByteArray.size_extract, Nat.min_eq_left hstop]
  rw [decode_eq_some_iff, exists_read_iff, hsize, entryAt_extract_iff hstart]

/-- At most one string has its entry at a place. -/
theorem EntryAt.unique {encoding : StringEncoding} {s t : String}
    (hs : EntryAt data stop place s encoding)
    (hstop : stop ≤ data.size) (ht : EntryAt data stop place t encoding) : s = t := by
  rw [← Nat.zero_add place, ← decode_extract_eq_some_iff (Nat.zero_le stop) hstop] at hs ht
  exact Option.some.inj (hs.symm.trans ht)

end

/-! ## Entries that are written -/

variable {encoding : StringEncoding} {s : String} {n : Nat}

/-- A written entry stands where it was written and ends with its own bytes: none of those behind it
are looked at. -/
theorem entryAt_append_encode (h : size encoding s = .ok n) (before after : ByteArray) :
    EntryAt (before ++ encode encoding s ++ after) (before.size + n) before.size s encoding := by
  have hsize := size_encode h
  have hstop : before.size + n ≤ (before ++ encode encoding s ++ after).size := by
    rw [ByteArray.size_append, ByteArray.size_append, hsize]
    exact Nat.le_add_right _ _
  have hcut : (before ++ encode encoding s ++ after).extract before.size (before.size + n)
      = encode encoding s := by
    rw [← hsize, Reading.extract_between]
  -- alone, the entry is at the front of some bytes with nothing behind it
  have halone : decode encoding (encode encoding s) 0 = some s := by
    have hempty := decode_append_encode h .empty .empty
    rwa [ByteArray.empty_append, ByteArray.append_empty] at hempty
  rwa [← hcut, decode_extract_eq_some_iff (Nat.le_add_right _ _) hstop] at halone

/-- What becomes of a string as an entry of so many bytes. -/
structure Recoverable (encoding : StringEncoding) (s : String) (n : Nat) : Prop where
  /-- The entry has exactly these many bytes. -/
  size_encode_eq : (encode encoding s).size = n
  /-- The string is found at the offset of its entry, whatever stands before and behind it. -/
  decode_eq : ∀ before after : ByteArray,
    decode encoding (before ++ encode encoding s ++ after) before.size = some s
  /-- All that is needed for it stands in the entry's own bytes. -/
  entryAt : ∀ before after : ByteArray,
    EntryAt (before ++ encode encoding s ++ after) (before.size + n) before.size s encoding

/-- **An entry is as long as its size says, and its string is recovered from it**, in both encodings
and on both sides of the bounds between short and long lengths. -/
theorem recoverable_of_size (h : size encoding s = .ok n) : Recoverable encoding s n where
  size_encode_eq := size_encode h
  decode_eq := decode_append_encode h
  entryAt := entryAt_append_encode h

/-- A NUL, letters of two bytes each, and a character of two units: in UTF-8 the length in units is
short, and that in bytes is not. -/
def accented : String :=
  String.ofList ('\x00' :: (List.replicate 64 'é' ++ ['😀']))

/-- A text of more units than a short length of UTF-16 can state. -/
def lengthy : String :=
  String.ofList (List.replicate 0x8000 'x')

/-- Both encodings with a length in its long form: the first string has more bytes than fit into one
byte of length, the second more units than fit into one word. -/
theorem recoverable_of_size_longLengths :
    size .utf8 accented = .ok 137 ∧ Recoverable .utf8 accented 137 ∧
      size .utf16 lengthy = .ok 65542 ∧ Recoverable .utf16 lengthy 65542 := by
  have haccented : size .utf8 accented = .ok 137 := by
    decide +kernel
  have hunits : ∀ count, Utf16.length (String.ofList (List.replicate count 'x')) = count := by
    -- the long text is too long to be evaluated, so its units are counted
    intro count
    have hone : (Utf16.unitsOf 'x').length = 1 := rfl
    rw [Utf16.length, String.toList_ofList, Utf16.encode, List.length_flatMap, List.map_replicate,
      List.sum_replicate_nat, hone, Nat.mul_one]
  have hlength : Utf16.length lengthy = 0x8000 := hunits 0x8000
  have hlengthy : size .utf16 lengthy = .ok 65542 := by
    refine (size_utf16_eq_ok_iff _ _).mpr ?_
    rw [hlength]
    decide
  exact ⟨haccented, recoverable_of_size haccented, hlengthy, recoverable_of_size hlengthy⟩

end StringEntry

end BinaryXml
