import BinaryXml.Error
import BinaryXml.Proofs.Bytes.Writing

/-!
# What a read takes

`Reading.Takes reading piece value` says that a read takes exactly the bytes of `piece`, wherever
they stand, and gives `value`: the counterpart of a write of `piece`. It composes along `bind`, so a
read of several fields takes their bytes one after the other. Beside it stands the exact outcome of
reading one record, in range or not, and the formats whose every byte string of the right length is
a record.
-/

namespace BinaryXml

namespace Reading

variable {α β : Type}

/-! ## One record -/

theorem bytes_eq_ok {count : Nat} {data : ByteArray} {position : Nat}
    (h : position + count ≤ data.size) :
    bytes count ⟨data, position⟩
      = .ok (data.extract position (position + count)) ⟨data, position + count⟩ := by
  simp [bytes, Cursor.peek, h]

/-- Bytes are not read when they are not there, not even some of them. -/
theorem bytes_eq_error {count : Nat} {data : ByteArray} {position : Nat}
    (h : ¬ position + count ≤ data.size) :
    bytes count ⟨data, position⟩
      = .error (.unexpectedEnd position count (data.size - position)) ⟨data, position⟩ := by
  simp [bytes, Cursor.peek, h, Cursor.endFault, Cursor.remaining]

/-- Bytes are read exactly when they are there, and the cursor is behind them then. -/
theorem bytes_eq_ok_iff {count : Nat} {c after : Cursor} {piece : ByteArray} :
    bytes count c = .ok piece after ↔
      c.position + count ≤ c.data.size ∧
        piece = c.data.extract c.position (c.position + count) ∧
        after = ⟨c.data, c.position + count⟩ := by
  obtain ⟨data, position⟩ := c
  by_cases h : position + count ≤ data.size
  · rw [bytes_eq_ok h, EStateM.Result.ok.injEq]
    exact ⟨fun ⟨hpiece, hafter⟩ => ⟨h, hpiece.symm, hafter.symm⟩,
      fun ⟨_, hpiece, hafter⟩ => ⟨hpiece.symm, hafter.symm⟩⟩
  · rw [bytes_eq_error h]
    exact ⟨nofun, fun hrange => absurd hrange.1 h⟩

/-- Two reads in a row succeed when the first does and the second goes on from where it ends. -/
theorem bind_run_eq_ok_iff {reading : Reading α} {next : α → Reading β} {c after : Cursor} {b : β} :
    (reading >>= next) c = .ok b after ↔
      ∃ a between, reading c = .ok a between ∧ next a between = .ok b after := by
  simp only [Bind.bind, EStateM.bind]
  cases reading c with
  | ok a between =>
    constructor
    · exact fun h => ⟨a, between, rfl, h⟩
    · rintro ⟨a, between, ⟨⟩, h⟩
      exact h
  | error fault between => exact ⟨nofun, nofun⟩

/-- A record is read exactly when it is in range, and it is the one that stands there. -/
theorem record_eq_ok_iff {layout : Layout α} {c after : Cursor} {a : α} :
    record layout c = .ok a after ↔
      c.position + layout.width ≤ c.data.size ∧
        a = layout.decode
          (c.data.extract c.position (c.position + layout.width)).data.toList ∧
        after = ⟨c.data, c.position + layout.width⟩ := by
  rw [record, bind_run_eq_ok_iff]
  constructor
  · -- the bytes are taken first, and then any bytes of that number are a record
    rintro ⟨piece, between, hpiece, ⟨⟩⟩
    obtain ⟨hrange, rfl, rfl⟩ := bytes_eq_ok_iff.mp hpiece
    exact ⟨hrange, rfl, rfl⟩
  · rintro ⟨hrange, rfl, rfl⟩
    exact ⟨_, _, bytes_eq_ok_iff.mpr ⟨hrange, rfl, rfl⟩, rfl⟩

/-- Two reads in a row fail when the first does or the second behind it. -/
theorem bind_run_eq_error_iff {reading : Reading α} {next : α → Reading β} {c after : Cursor}
    {fault : ReadFault} :
    (reading >>= next) c = .error fault after ↔
      reading c = .error fault after ∨
        ∃ a between, reading c = .ok a between ∧ next a between = .error fault after := by
  simp only [Bind.bind, EStateM.bind]
  cases reading c with
  | ok a between =>
    constructor
    · exact fun h => .inr ⟨a, between, rfl, h⟩
    · rintro (⟨⟨⟩⟩ | ⟨a, between, ⟨⟩, h⟩)
      exact h
  | error fault between =>
    constructor
    · rintro ⟨⟩
      exact .inl rfl
    · rintro (⟨⟨⟩⟩ | ⟨a, between, ⟨⟩, h⟩)
      rfl

/-- A record is not read only when it reaches past the end. -/
theorem of_record_eq_error {layout : Layout α} {c after : Cursor} {fault : ReadFault}
    (h : record layout c = .error fault after) :
    c.data.size < c.position + layout.width ∧
      fault = .unexpectedEnd c.position layout.width (c.data.size - c.position) := by
  obtain ⟨data, position⟩ := c
  rw [record, bind_run_eq_error_iff] at h
  rcases h with h | ⟨piece, between, -, ⟨⟩⟩
  by_cases hrange : position + layout.width ≤ data.size
  · rw [bytes_eq_ok hrange] at h
    cases h
  · rw [bytes_eq_error hrange] at h
    cases h
    exact ⟨Nat.not_le.mp hrange, rfl⟩

/-- A row of records is not read when it runs past the end, and then it is one of them that does. -/
theorem of_listOnto_record_eq_error {layout : Layout α} {done : List α} {count : Nat}
    {c after : Cursor} {fault : ReadFault}
    (h : listOnto (record layout) done count c = .error fault after) :
    c.data.size < c.position + layout.width * count ∧
      ∃ position available, fault = .unexpectedEnd position layout.width available := by
  induction count generalizing done c with
  | zero => cases h
  | succ count ih =>
    rw [listOnto, bind_run_eq_error_iff] at h
    rw [Nat.mul_succ]
    rcases h with h | ⟨a, between, hfirst, h⟩
    · obtain ⟨hpast, hfault⟩ := of_record_eq_error h
      exact ⟨by omega, _, _, hfault⟩
    · obtain ⟨-, -, rfl⟩ := record_eq_ok_iff.mp hfirst
      obtain ⟨hpast, hfault⟩ := ih h
      dsimp only at hpast
      exact ⟨by omega, hfault⟩

/-- Where a record is read and where it is not, told in one. -/
theorem runAt_record (layout : Layout α) (data : ByteArray) (position : Nat) :
    (record layout).runAt data position =
      if position + layout.width ≤ data.size then
        .ok (layout.decode (data.extract position (position + layout.width)).data.toList)
      else .error (.read (.unexpectedEnd position layout.width (data.size - position))) := by
  by_cases h : position + layout.width ≤ data.size
  · simp [runAt, record, bind, EStateM.bind, bytes_eq_ok h, h, pure, EStateM.pure]
  · simp [runAt, record, bind, EStateM.bind, bytes_eq_error h, h]

theorem runAt_eq_ok_iff {reading : Reading α} {data : ByteArray} {position : Nat} {a : α} :
    reading.runAt data position = .ok a ↔ ∃ after, reading ⟨data, position⟩ = .ok a after := by
  rw [runAt]
  cases reading ⟨data, position⟩ with
  | ok b after => simp
  | error fault after => simp

/-- An error at a place is that of the read which starts there. -/
theorem of_runAt_eq_error {reading : Reading α} {data : ByteArray} {position : Nat} {error : Error}
    (h : reading.runAt data position = .error error) :
    ∃ fault after, reading ⟨data, position⟩ = .error fault after ∧ error = .read fault := by
  rw [runAt] at h
  cases hread : reading ⟨data, position⟩ with
  | ok a after =>
    rw [hread] at h
    cases h
  | error fault after =>
    rw [hread] at h
    cases h
    exact ⟨fault, after, rfl, rfl⟩

/-- A record is read exactly when it is in range. -/
theorem runAt_record_eq_ok_iff (layout : Layout α) (data : ByteArray) (position : Nat) (a : α) :
    (record layout).runAt data position = .ok a ↔
      position + layout.width ≤ data.size ∧
        layout.decode (data.extract position (position + layout.width)).data.toList = a := by
  rw [runAt_record]
  by_cases h : position + layout.width ≤ data.size
  · rw [if_pos h, Except.ok.injEq]
    exact (and_iff_right h).symm
  · rw [if_neg h]
    exact ⟨nofun, fun h' => absurd h'.1 h⟩

/-- A record at the front of a cut is the one in the bytes that it is cut out of. -/
theorem runAt_extract (layout : Layout α) {data : ByteArray} {start stop : Nat}
    (hrange : start + layout.width ≤ stop) (hstop : stop ≤ data.size) :
    (record layout).runAt (data.extract start stop) 0 = (record layout).runAt data start := by
  have hbytes : (data.extract start stop).extract 0 layout.width
      = data.extract start (start + layout.width) := by
    rw [ByteArray.extract_extract, Nat.add_zero, Nat.min_eq_left hrange]
  have hfits : layout.width ≤ (data.extract start stop).size := by
    rw [ByteArray.size_extract]
    omega
  rw [runAt_record, runAt_record, Nat.zero_add, if_pos hfits,
    if_pos (Nat.le_trans hrange hstop), hbytes]

/-! ## Reads that take a piece of bytes -/

/-- The read takes exactly the bytes of `piece`, wherever they stand, and gives `a`. -/
def Takes (reading : Reading α) (piece : ByteArray) (a : α) : Prop :=
  ∀ before after : ByteArray,
    reading ⟨before ++ piece ++ after, before.size⟩
      = .ok a ⟨before ++ piece ++ after, before.size + piece.size⟩

theorem Takes.runAt {reading : Reading α} {piece : ByteArray} {a : α}
    (h : Takes reading piece a) (before after : ByteArray) :
    reading.runAt (before ++ piece ++ after) before.size = .ok a := by
  rw [Reading.runAt, h before after]

theorem Takes.runAt_zero {reading : Reading α} {piece : ByteArray} {a : α}
    (h : Takes reading piece a) (after : ByteArray) : reading.runAt (piece ++ after) 0 = .ok a := by
  have hrun := h.runAt .empty after
  rwa [ByteArray.empty_append] at hrun

theorem takes_pure (a : α) : Takes (pure a) .empty a := by
  intro before after
  simp [pure, EStateM.pure]

/-- One read after another takes their pieces one after the other. -/
theorem Takes.bind {first : Reading α} {second : α → Reading β} {piece tail : ByteArray} {a : α}
    {b : β} (hfirst : Takes first piece a) (hsecond : Takes (second a) tail b) :
    Takes (first >>= second) (piece ++ tail) b := by
  intro before after
  have h₁ := hfirst before (tail ++ after)
  have h₂ := hsecond (before ++ piece) after
  -- both are about the same bytes, cut in different places
  simp only [ByteArray.append_assoc, ByteArray.size_append] at h₁ h₂ ⊢
  simp [Bind.bind, EStateM.bind, h₁, h₂, Nat.add_assoc]

/-- A read whose value is only changed takes the same piece. -/
theorem Takes.map {reading : Reading α} {piece : ByteArray} {a : α} (f : α → β)
    (h : Takes reading piece a) : Takes (f <$> reading) piece (f a) := by
  intro before after
  simp [Functor.map, EStateM.map, h before after]

/-- What stands between other bytes is cut out again. -/
theorem extract_between (before piece after : ByteArray) :
    (before ++ piece ++ after).extract before.size (before.size + piece.size) = piece := by
  have hshift := ByteArray.extract_append_size_add (a := before) (b := piece ++ after)
    (i := 0) (j := piece.size)
  rw [Nat.add_zero] at hshift
  rw [ByteArray.append_assoc, hshift, ByteArray.extract_append_eq_left rfl]

theorem takes_bytes (piece : ByteArray) : Takes (bytes piece.size) piece piece := by
  intro before after
  have h : before.size + piece.size ≤ (before ++ piece ++ after).size := by
    simp [ByteArray.size_append]
  rw [bytes_eq_ok h, extract_between]

/-- A record is read back from the bytes it is written in. -/
theorem takes_record (layout : Layout α) (a : α) :
    Takes (record layout) (layout.encode a).toByteArray a := by
  have hbytes := takes_bytes (layout.encode a).toByteArray
  rw [List.size_toByteArray, layout.length_encode] at hbytes
  have hmap := hbytes.map fun slice => layout.decode slice.data.toList
  have hdecode := layout.decode_encode a []
  rw [List.append_nil] at hdecode
  simpa [record, hdecode] using hmap

/-- Pieces in a row are taken one after the other, behind values that have been read already. -/
theorem takes_listOnto {read : Reading α} {encode : α → ByteArray} (done : List α) (l : List α)
    (h : ∀ a ∈ l, Takes read (encode a) a) :
    Takes (listOnto read done l.length) (joined (l.map encode)) (done.reverse ++ l) := by
  induction l generalizing done with
  | nil => simpa [listOnto] using takes_pure done.reverse
  | cons a rest ih =>
    have hrest := ih (a :: done) fun b hb => h b (List.mem_cons_of_mem _ hb)
    simp only [List.reverse_cons, List.append_assoc, List.singleton_append] at hrest
    exact (h a List.mem_cons_self).bind hrest

/-- A list of values is read back from their pieces in a row. -/
theorem takes_list {read : Reading α} {encode : α → ByteArray} (l : List α)
    (h : ∀ a ∈ l, Takes read (encode a) a) :
    Takes (list read l.length) (joined (l.map encode)) l :=
  takes_listOnto [] l h

/-! ## Values written in a row -/

theorem length_flatMap_encode (layout : Layout α) (l : List α) :
    (l.flatMap layout.encode).length = layout.width * l.length := by
  induction l with
  | nil => simp
  | cons a rest ih =>
    rw [List.flatMap_cons, List.length_append, layout.length_encode, ih, List.length_cons,
      Nat.mul_succ, Nat.add_comm]

/-- A loop that takes one record after another gets back the values of a row of records. -/
theorem onto_flatMap_encode (layout : Layout α) {onto : List α → List UInt8 → List α}
    (hnil : ∀ done, onto done [] = done.reverse)
    (hcons : ∀ done a tail, onto done (layout.encode a ++ tail)
      = onto (layout.decode (layout.encode a) :: done) tail) (done l : List α) :
    onto done (l.flatMap layout.encode) = done.reverse ++ l := by
  induction l generalizing done with
  | nil => rw [List.flatMap_nil, hnil, List.append_nil]
  | cons a rest ih =>
    have hdecode := layout.decode_encode a []
    rw [List.append_nil] at hdecode
    rw [List.flatMap_cons, hcons, hdecode, ih, List.reverse_cons, List.append_assoc,
      List.singleton_append]

end Reading

/-! ## Formats without invalid records -/

namespace Layout

variable {α β : Type}

/-- Every byte string of the right length is the record of the value read from it. -/
def Exact (layout : Layout α) : Prop :=
  ∀ bytes : List UInt8, bytes.length = layout.width → layout.encode (layout.decode bytes) = bytes

/-- Every two bytes are a word. -/
theorem exact_u16 : Layout.u16.Exact := by
  intro bytes hlength
  match bytes, hlength with
  | [a, b], _ =>
    have hdecode : Layout.u16.decode [a, b] = UInt16.ofNat (a.toNat + 256 * b.toNat) := rfl
    rw [hdecode]
    have ha := a.toNat_lt
    have hb := b.toNat_lt
    have hlow : UInt8.ofNat ((a.toNat + 256 * b.toNat) % 65536) = a := by
      -- the word has the low byte as its rest and the high one as its quotient
      apply UInt8.toNat_inj.mp
      rw [UInt8.toNat_ofNat']
      omega
    have hhigh : UInt8.ofNat ((a.toNat + 256 * b.toNat) % 65536 / 256) = b := by
      apply UInt8.toNat_inj.mp
      rw [UInt8.toNat_ofNat']
      omega
    simp only [Layout.u16, UInt16.toNat_ofNat', Nat.reducePow, hlow, hhigh]

/-- Every four bytes are a word. -/
theorem exact_u32 : Layout.u32.Exact := by
  intro bytes hlength
  match bytes, hlength with
  | [a, b, c, d], _ =>
    have hdecode : Layout.u32.decode [a, b, c, d]
        = UInt32.ofNat (a.toNat + 256 * b.toNat + 65536 * c.toNat + 16777216 * d.toNat) := rfl
    have ha := a.toNat_lt
    have hb := b.toNat_lt
    have hc := c.toNat_lt
    have hd := d.toNat_lt
    have hword : (Layout.u32.decode [a, b, c, d]).toNat
        = a.toNat + 256 * b.toNat + 65536 * c.toNat + 16777216 * d.toNat := by
      rw [hdecode, UInt32.toNat_ofNat']
      omega
    simp only [Layout.u32, List.cons.injEq, and_true] at hword ⊢
    rw [hword]
    refine ⟨?_, ?_, ?_, ?_⟩ <;>
      · apply UInt8.toNat_inj.mp
        rw [UInt8.toNat_ofNat']
        omega

/-- What an exact layout reads at the front does not depend on what follows. -/
theorem Exact.decode_append {layout : Layout α} (h : layout.Exact) {front : List UInt8}
    (hlength : front.length = layout.width) (tail : List UInt8) :
    layout.decode (front ++ tail) = layout.decode front := by
  have hlaw := layout.decode_encode (layout.decode front) tail
  rwa [h front hlength] at hlaw

/-- Two formats without invalid records have none as one. -/
theorem Exact.pair {first : Layout α} {second : Layout β} (hfirst : first.Exact)
    (hsecond : second.Exact) : (first.pair second).Exact := by
  intro bytes hlength
  have hwidth : bytes.length = first.width + second.width := hlength
  have htake : (bytes.take first.width).length = first.width := by
    rw [List.length_take]
    omega
  -- the first record is read from the front alone
  have hdecode := hfirst.decode_append htake (bytes.drop first.width)
  rw [List.take_append_drop] at hdecode
  have hback : (bytes.drop first.width).length = second.width := by
    rw [List.length_drop]
    omega
  show first.encode (first.decode bytes) ++ second.encode (second.decode (bytes.drop first.width))
    = bytes
  rw [hdecode, hfirst _ htake, hsecond _ hback, List.take_append_drop]

/-- A change of form that can be undone makes no record invalid. -/
theorem Exact.convert {stored : Layout α} {make : α → β} {parts : β → α}
    {make_parts : ∀ b, make (parts b) = b} (hstored : stored.Exact)
    (parts_make : ∀ a, parts (make a) = a) :
    (stored.convert make parts make_parts).Exact := by
  intro bytes hlength
  show stored.encode (parts (make (stored.decode bytes))) = bytes
  rw [parts_make, hstored bytes hlength]

end Layout

end BinaryXml
