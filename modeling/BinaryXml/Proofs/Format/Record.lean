import BinaryXml.Format.Record
import BinaryXml.Proofs.Bytes.Reading

/-!
# Records at a place

`Layout.valueAt layout data place` is the record that stands at a place of some bytes. A record that
is put together from others stands where they stand, so the fields of the records of the binary
format are words at fixed distances from its start, each told by its own bytes alone.
-/

namespace BinaryXml

namespace Layout

variable {α β : Type}

/-- The record that stands at a place of some bytes. -/
def valueAt (layout : Layout α) (data : ByteArray) (place : Nat) : α :=
  layout.decode (data.extract place (place + layout.width)).data.toList

@[simp] theorem width_u8 : Layout.u8.width = 1 := rfl

@[simp] theorem width_u16 : Layout.u16.width = 2 := rfl

@[simp] theorem width_u32 : Layout.u32.width = 4 := rfl

@[simp] theorem width_pair (first : Layout α) (second : Layout β) :
    (first.pair second).width = first.width + second.width := rfl

theorem exact_u8 : Layout.u8.Exact := by
  intro bytes hlength
  match bytes, hlength with
  | [_], _ => rfl

theorem valueAt_convert (stored : Layout α) (make : α → β) (parts : β → α)
    (make_parts : ∀ b, make (parts b) = b) (data : ByteArray) (place : Nat) :
    (stored.convert make parts make_parts).valueAt data place = make (stored.valueAt data place) :=
  rfl

/-- The second of two records stands directly behind the first. -/
theorem valueAt_pair {first : Layout α} {second : Layout β} (hfirst : first.Exact)
    {data : ByteArray} {place : Nat} (h : place + (first.width + second.width) ≤ data.size) :
    (first.pair second).valueAt data place
      = (first.valueAt data place, second.valueAt data (place + first.width)) := by
  have hsplit : (data.extract place (place + (first.width + second.width))).data.toList
      = (data.extract place (place + first.width)).data.toList
        ++ (data.extract (place + first.width)
            (place + first.width + second.width)).data.toList := by
    rw [← Array.toList_append, ← ByteArray.data_append, Nat.add_assoc,
      ← ByteArray.extract_eq_extract_append_extract (place + first.width) (by omega) (by omega)]
  have hlength : (data.extract place (place + first.width)).data.toList.length = first.width := by
    rw [Array.length_toList, ByteArray.size_data, ByteArray.size_extract]
    omega
  show (first.decode _, second.decode (List.drop first.width _)) = _
  rw [width_pair, hsplit, hfirst.decode_append hlength, List.drop_left' hlength]
  rfl

/-- A record within a part of some bytes stands in the whole as well. -/
theorem valueAt_extract (layout : Layout α) {data : ByteArray} {start stop place : Nat}
    (h : start + place + layout.width ≤ stop) :
    layout.valueAt (data.extract start stop) place = layout.valueAt data (start + place) := by
  rw [valueAt, ByteArray.extract_extract, Nat.min_eq_left (by omega), valueAt, Nat.add_assoc]

/-- A word of two bytes is told by its bytes, the low one first. Bytes that are missing count as
they do for each byte alone. -/
theorem decode_u16 (bytes : List UInt8) : Layout.u16.decode bytes
    = UInt16.ofNat ((Layout.u8.decode bytes).toNat
      + 256 * (Layout.u8.decode (bytes.drop 1)).toNat) := by
  rcases bytes with _ | ⟨low, _ | ⟨high, rest⟩⟩ <;> rfl

/-- A word is made of its two bytes, the low one first. -/
theorem toNat_valueAt_u16 {data : ByteArray} {place : Nat} (h : place + 2 ≤ data.size) :
    (Layout.u16.valueAt data place).toNat
      = (Layout.u8.valueAt data place).toNat
        + 256 * (Layout.u8.valueAt data (place + 1)).toNat := by
  have hpair : (Layout.u8.pair Layout.u8).valueAt data place = _ := valueAt_pair exact_u8 h
  have hword : Layout.u16.valueAt data place
      = UInt16.ofNat (((Layout.u8.pair Layout.u8).valueAt data place).1.toNat
        + 256 * ((Layout.u8.pair Layout.u8).valueAt data place).2.toNat) := decode_u16 _
  have hlow := (Layout.u8.valueAt data place).toNat_lt
  have hhigh := (Layout.u8.valueAt data (place + 1)).toNat_lt
  rw [hword, hpair, width_u8, UInt16.toNat_ofNat']
  dsimp only
  exact Nat.mod_eq_of_lt (by omega)

end Layout

namespace Reading

variable {α : Type}

/-! ## Records that are read -/

/-- A record is read exactly when it is in range, and then it is the one that stands there. -/
theorem runAt_record_eq_ok_iff_valueAt {layout : Layout α} {data : ByteArray} {position : Nat}
    {a : α} :
    (record layout).runAt data position = .ok a ↔
      position + layout.width ≤ data.size ∧ a = layout.valueAt data position := by
  rw [runAt_record_eq_ok_iff]
  exact and_congr_right fun _ => eq_comm

/-- A row of records is read exactly when each of them is in range. -/
theorem listOnto_record_eq_ok_iff {layout : Layout α} {done values : List α} {count : Nat}
    {c after : Cursor} :
    listOnto (record layout) done count c = .ok values after ↔
      (∀ i < count, c.position + layout.width * i + layout.width ≤ c.data.size) ∧
        values = done.reverse ++
          (List.range count).map (fun i => layout.valueAt c.data (c.position + layout.width * i)) ∧
        after = ⟨c.data, c.position + layout.width * count⟩ := by
  induction count generalizing done c with
  | zero =>
    rw [listOnto]
    simp [pure, EStateM.pure, eq_comm]
  | succ count ih =>
    -- the records behind the first one are those of a row that starts behind it
    have hplace : ∀ i, c.position + layout.width + layout.width * i
        = c.position + layout.width * (i + 1) := by
      intro i
      rw [Nat.mul_succ]
      omega
    rw [listOnto, bind_run_eq_ok_iff, List.range_succ_eq_map, Nat.forall_lt_succ_left]
    constructor
    · rintro ⟨value, between, hfirst, hrest⟩
      obtain ⟨hrange, rfl, rfl⟩ := record_eq_ok_iff.mp hfirst
      obtain ⟨hall, rfl, rfl⟩ := ih.mp hrest
      simp only [hplace] at hall ⊢
      exact ⟨⟨hrange, hall⟩, by simp [Layout.valueAt, Function.comp_def], trivial⟩
    · rintro ⟨⟨hrange, hall⟩, rfl, rfl⟩
      refine ⟨_, _, record_eq_ok_iff.mpr ⟨hrange, rfl, rfl⟩, ih.mpr ?_⟩
      simp only [hplace]
      exact ⟨hall, by simp [Layout.valueAt, Function.comp_def], trivial⟩

/-- A row of records is read exactly when each is in range; they stand one width apart. -/
theorem runAt_list_record_eq_ok_iff {layout : Layout α} {values : List α} {count : Nat}
    {data : ByteArray} {position : Nat} :
    (list (record layout) count).runAt data position = .ok values ↔
      (∀ i < count, position + layout.width * i + layout.width ≤ data.size) ∧
        values = (List.range count).map fun i =>
          layout.valueAt data (position + layout.width * i) := by
  rw [runAt_eq_ok_iff, list]
  simp [listOnto_record_eq_ok_iff]

end Reading

/-! ## The records of the binary format

In each proof the words of a record are told one after the other, as `Layout.pair` puts them. -/

@[simp] theorem ChunkHeader.width_layout : ChunkHeader.layout.width = 8 := rfl

@[simp] theorem ValueRecord.width_layout : ValueRecord.layout.width = 8 := rfl

/-- Every eight bytes are the header of some chunk. -/
theorem ChunkHeader.exact_layout : ChunkHeader.layout.Exact :=
  (Layout.exact_u16.pair (Layout.exact_u16.pair Layout.exact_u32)).convert fun _ => rfl

/-- A chunk header is two words of two bytes and its size in four. -/
theorem ChunkHeader.valueAt_layout {data : ByteArray} {place : Nat} (h : place + 8 ≤ data.size) :
    ChunkHeader.layout.valueAt data place = {
      kind := Layout.u16.valueAt data place
      headerSize := Layout.u16.valueAt data (place + 2)
      size := Layout.u32.valueAt data (place + 4) } := by
  rw [ChunkHeader.layout, Layout.valueAt_convert]
  simp (disch := simp [Layout.exact_u16] <;> omega) only
    [Layout.valueAt_pair, Layout.width_u16, Nat.add_assoc, Nat.reduceAdd]

/-- The header of a node is a chunk header with its line and its comment behind it. -/
theorem NodeHeader.valueAt_layout {data : ByteArray} {place : Nat} (h : place + 16 ≤ data.size) :
    NodeHeader.layout.valueAt data place = {
      chunk := ChunkHeader.layout.valueAt data place
      line := Layout.u32.valueAt data (place + 8)
      comment := Layout.u32.valueAt data (place + 12) } := by
  rw [NodeHeader.layout, Layout.valueAt_convert]
  simp (disch := simp [ChunkHeader.exact_layout, Layout.exact_u32] <;> omega) only
    [Layout.valueAt_pair, ChunkHeader.width_layout, Layout.width_u32, Nat.add_assoc, Nat.reduceAdd]

/-- The header of a pool is a chunk header with five words behind it, the counts first and then the
places. -/
theorem PoolHeader.valueAt_layout {data : ByteArray} {place : Nat} (h : place + 28 ≤ data.size) :
    PoolHeader.layout.valueAt data place = {
      chunk := ChunkHeader.layout.valueAt data place
      stringCount := Layout.u32.valueAt data (place + 8)
      styleCount := Layout.u32.valueAt data (place + 12)
      flags := Layout.u32.valueAt data (place + 16)
      stringsStart := Layout.u32.valueAt data (place + 20)
      stylesStart := Layout.u32.valueAt data (place + 24) } := by
  rw [PoolHeader.layout, Layout.valueAt_convert]
  simp (disch := simp [ChunkHeader.exact_layout, Layout.exact_u32] <;> omega) only
    [Layout.valueAt_pair, ChunkHeader.width_layout, Layout.width_u32, Nat.add_assoc, Nat.reduceAdd]

/-- The record of a start tag names the tag and says where its attributes stand, how long each is
and how many there are. -/
theorem StartTagRecord.valueAt_layout {data : ByteArray} {place : Nat}
    (h : place + 20 ≤ data.size) :
    StartTagRecord.layout.valueAt data place = {
      uri := Layout.u32.valueAt data place
      name := Layout.u32.valueAt data (place + 4)
      attributeStart := Layout.u16.valueAt data (place + 8)
      attributeSize := Layout.u16.valueAt data (place + 10)
      attributeCount := Layout.u16.valueAt data (place + 12)
      idIndex := Layout.u16.valueAt data (place + 14)
      classIndex := Layout.u16.valueAt data (place + 16)
      styleIndex := Layout.u16.valueAt data (place + 18) } := by
  rw [StartTagRecord.layout, Layout.valueAt_convert]
  simp (disch := simp [Layout.exact_u16, Layout.exact_u32] <;> omega) only
    [Layout.valueAt_pair, Layout.width_u16, Layout.width_u32, Nat.add_assoc, Nat.reduceAdd]

/-- A typed value states its own size and its kind before its word. -/
theorem ValueRecord.valueAt_layout {data : ByteArray} {place : Nat} (h : place + 8 ≤ data.size) :
    ValueRecord.layout.valueAt data place = {
      size := Layout.u16.valueAt data place
      reserved := Layout.u8.valueAt data (place + 2)
      kind := Layout.u8.valueAt data (place + 3)
      data := Layout.u32.valueAt data (place + 4) } := by
  rw [ValueRecord.layout, Layout.valueAt_convert]
  simp (disch := simp [Layout.exact_u8, Layout.exact_u16] <;> omega) only
    [Layout.valueAt_pair, Layout.width_u8, Layout.width_u16, Nat.add_assoc, Nat.reduceAdd]

/-- The record of an attribute is three words with a typed value behind them. -/
theorem AttributeRecord.valueAt_layout {data : ByteArray} {place : Nat}
    (h : place + 20 ≤ data.size) :
    AttributeRecord.layout.valueAt data place = {
      uri := Layout.u32.valueAt data place
      name := Layout.u32.valueAt data (place + 4)
      rawValue := Layout.u32.valueAt data (place + 8)
      value := ValueRecord.layout.valueAt data (place + 12) } := by
  rw [AttributeRecord.layout, Layout.valueAt_convert]
  simp (disch := simp [Layout.exact_u32] <;> omega) only
    [Layout.valueAt_pair, Layout.width_u32, Nat.add_assoc, Nat.reduceAdd]

end BinaryXml
