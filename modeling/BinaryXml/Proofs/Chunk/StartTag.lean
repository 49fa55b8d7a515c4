import BinaryXml.Proofs.Chunk.Failing

/-!
# Start tags, wherever their records stand

A start tag chunk says itself how long its header is, where its attribute records start, how far
they are from each other and how many they are. It is read when the records which it tells so lie
within it, and then each field comes from its own bytes alone (`decode_startTag`); headers may be
longer than they need be, records further apart, or on top of the record that tells where they are.
-/

namespace BinaryXml.Chunk

/-! ## What the words of a chunk tell -/

/-- How the attribute records of a start tag are laid out. -/
structure AttributeTable where
  /-- The place of the first record in the chunk. -/
  first : Nat
  /-- The distance from one record to the next. -/
  stride : Nat
  count : Nat
  deriving DecidableEq, Repr

/-- The layout that the extension record at a place of the chunk tells. -/
def AttributeTable.toldAt (chunk : ByteArray) (extension : Nat) : AttributeTable where
  first := extension + (Layout.u16.valueAt chunk (extension + 8)).toNat
  stride := (Layout.u16.valueAt chunk (extension + 10)).toNat
  count := (Layout.u16.valueAt chunk (extension + 12)).toNat

/-- The records are as wide as a record is, and the last of them ends within `size` bytes. -/
def AttributeTable.FitsIn (table : AttributeTable) (size : Nat) : Prop :=
  table.count = 0 ∨
    20 ≤ table.stride ∧ table.first + (table.count - 1) * table.stride + 20 ≤ size

/-- The attribute whose record stands at a place of the chunk. -/
def attributeAt (chunk : ByteArray) (place : Nat) : Attribute where
  uri := loadIndex (Layout.u32.valueAt chunk place)
  name := Layout.u32.valueAt chunk (place + 4)
  rawValue := loadIndex (Layout.u32.valueAt chunk (place + 8))
  value := ⟨Layout.u8.valueAt chunk (place + 15), Layout.u32.valueAt chunk (place + 16)⟩

/-- The start tag whose extension record stands at a place of the chunk. -/
def startTagAt (chunk : ByteArray) (extension : Nat) : StartTag where
  line := Layout.u32.valueAt chunk 8
  comment := loadIndex (Layout.u32.valueAt chunk 12)
  uri := loadIndex (Layout.u32.valueAt chunk extension)
  name := Layout.u32.valueAt chunk (extension + 4)
  attributes := (List.range (AttributeTable.toldAt chunk extension).count).map fun i =>
    attributeAt chunk ((AttributeTable.toldAt chunk extension).first
      + i * (AttributeTable.toldAt chunk extension).stride)
  idIndex := Layout.u16.valueAt chunk (extension + 14)
  classIndex := Layout.u16.valueAt chunk (extension + 16)
  styleIndex := Layout.u16.valueAt chunk (extension + 18)

/-- All the records of a start tag with a header of `headerSize` bytes lie within the chunk. -/
structure HoldsStartTag (chunk : ByteArray) (headerSize : Nat) : Prop where
  sixteen_le : 16 ≤ headerSize
  extension_le : headerSize + 20 ≤ chunk.size
  attributes_fit : (AttributeTable.toldAt chunk headerSize).FitsIn chunk.size

/-! ## Attribute records -/

/-- The last record is the one that reaches furthest. -/
theorem AttributeTable.fitsIn_iff {table : AttributeTable} {size : Nat} :
    table.FitsIn size ↔
      ¬ (0 < table.count ∧ table.stride < 20) ∧
        ∀ i < table.count, table.first + i * table.stride + 20 ≤ size := by
  unfold FitsIn
  constructor
  · rintro (hnone | ⟨hwide, hlast⟩)
    · rw [hnone]
      exact ⟨by omega, fun i hi => absurd hi (Nat.not_lt_zero i)⟩
    · refine ⟨by omega, fun i hi => ?_⟩
      have hreach : i * table.stride ≤ (table.count - 1) * table.stride :=
        Nat.mul_le_mul_right _ (by omega)
      omega
  · rintro ⟨hwide, hall⟩
    by_cases hnone : table.count = 0
    · exact .inl hnone
    · exact .inr ⟨by omega, hall (table.count - 1) (by omega)⟩

/-- A row of attribute records is read when each of them lies within the chunk, a stride behind the
one before it. -/
theorem readAttributesOnto_eq_ok_iff {chunk : ByteArray} {offset stride position count : Nat}
    {done attributes : List Attribute} :
    readAttributesOnto chunk offset stride done position count = .ok attributes ↔
      (∀ i < count, position + i * stride + 20 ≤ chunk.size) ∧
        attributes = done.reverse ++ (List.range count).map fun i =>
          .ofRecord (AttributeRecord.layout.valueAt chunk (position + i * stride)) := by
  induction count generalizing done position with
  | zero =>
    rw [readAttributesOnto]
    simp [eq_comm]
  | succ count ih =>
    -- the records behind the first one are those of a row that starts a stride further on
    have hplace : ∀ i, position + stride + i * stride = position + (i + 1) * stride := by
      intro i
      rw [Nat.succ_mul]
      omega
    have hsplit : (∀ i < count + 1, position + i * stride + 20 ≤ chunk.size) ↔
        position + 20 ≤ chunk.size ∧
          ∀ i < count, position + (i + 1) * stride + 20 ≤ chunk.size := by
      rw [Nat.forall_lt_succ_left]
      simp
    rw [readAttributesOnto, Reading.runAt_record, hsplit, List.range_succ_eq_map]
    by_cases hfits : position + 20 ≤ chunk.size
    · rw [if_pos (show position + AttributeRecord.layout.width ≤ _ from hfits)]
      dsimp only
      rw [ih]
      simp [hfits, hplace, Layout.valueAt, Function.comp_def]
    · rw [if_neg (show ¬ position + AttributeRecord.layout.width ≤ _ from hfits)]
      simp [hfits]

/-- The fields of an attribute record are words at fixed distances from its place. -/
theorem ofRecord_valueAt {chunk : ByteArray} {place : Nat} (h : place + 20 ≤ chunk.size) :
    Attribute.ofRecord (AttributeRecord.layout.valueAt chunk place) = attributeAt chunk place := by
  rw [AttributeRecord.valueAt_layout h, ValueRecord.valueAt_layout (by omega)]
  simp only [Attribute.ofRecord, Value.ofRecord, attributeAt, Nat.add_assoc, Nat.reduceAdd]

/-- The attributes of records that lie within the chunk. -/
theorem map_ofRecord_valueAt {chunk : ByteArray} {table : AttributeTable}
    (h : ∀ i < table.count, table.first + i * table.stride + 20 ≤ chunk.size) :
    ((List.range table.count).map fun i =>
        Attribute.ofRecord (AttributeRecord.layout.valueAt chunk (table.first + i * table.stride)))
      = (List.range table.count).map fun i => attributeAt chunk (table.first + i * table.stride) :=
  List.map_congr_left fun i hi => ofRecord_valueAt (h i (List.mem_range.mp hi))

/-! ## The whole start tag -/

variable {header : ChunkHeader} {data chunk : ByteArray} {position offset : Nat}

/-- Behind its node and extension records, a start tag is read when its attribute records are within
the chunk. -/
theorem readStartTag_eq_ok_iff_of_readNode {node : NodeHeader} {record : StartTagRecord}
    {table : AttributeTable} {tag : StartTag}
    (hnode : readNode StartTagRecord.layout chunk offset = .ok (node, record))
    (htable : table = ⟨node.chunk.headerSize.toNat + record.attributeStart.toNat,
      record.attributeSize.toNat, record.attributeCount.toNat⟩) :
    readStartTag chunk offset = .ok tag ↔
      table.FitsIn chunk.size ∧ tag = {
        line := node.line
        comment := loadIndex node.comment
        uri := loadIndex record.uri
        name := record.name
        attributes := (List.range table.count).map fun i =>
          attributeAt chunk (table.first + i * table.stride)
        idIndex := record.idIndex
        classIndex := record.classIndex
        styleIndex := record.styleIndex } := by
  -- two guards and a loop stand behind the records
  have hread : readStartTag chunk offset = .ok tag ↔
      ¬ (0 < table.count ∧ table.stride < 20) ∧
        ∃ attributes, readAttributesOnto chunk offset table.stride [] table.first table.count
          = .ok attributes ∧ tag = ⟨node.line, loadIndex node.comment, loadIndex record.uri,
            record.name, attributes, record.idIndex, record.classIndex, record.styleIndex⟩ := by
    rw [readStartTag, hnode, bind_eq_ok_iff, htable]
    dsimp only
    simp only [Except.ok.injEq, exists_eq_left', throw_bind, guard_eq_ok_iff, bind_eq_ok_iff,
      pure_eq_ok_iff]
  rw [hread, AttributeTable.fitsIn_iff]
  simp only [readAttributesOnto_eq_ok_iff, List.reverse_nil, List.nil_append]
  constructor
  · rintro ⟨hwide, attributes, ⟨hall, hattributes⟩, htag⟩
    refine ⟨⟨hwide, hall⟩, ?_⟩
    rw [htag, hattributes, map_ofRecord_valueAt hall]
  · rintro ⟨⟨hwide, hall⟩, htag⟩
    refine ⟨hwide, _, ⟨hall, rfl⟩, ?_⟩
    rw [htag, map_ofRecord_valueAt hall]

/-- A start tag is read when its records lie within the chunk, and it is the one that they tell. -/
theorem readStartTag_eq_ok_iff (h : header.CutsOut data position offset chunk) {tag : StartTag} :
    readStartTag chunk offset = .ok tag ↔
      HoldsStartTag chunk header.headerSize.toNat ∧
        tag = startTagAt chunk header.headerSize.toNat := by
  by_cases hnode : 16 ≤ header.headerSize.toNat ∧ header.headerSize.toNat + 20 ≤ chunk.size
  · -- both records are there, so the attribute records decide
    obtain ⟨hlong, hextension⟩ := hnode
    have hread : readNode StartTagRecord.layout chunk offset = .ok _ :=
      (readNode_eq_ok_iff_of_cutsOut h).mpr ⟨hlong, hextension, rfl, rfl⟩
    rw [StartTagRecord.valueAt_layout hextension] at hread
    have htable : AttributeTable.toldAt chunk header.headerSize.toNat = _ := rfl
    rw [readStartTag_eq_ok_iff_of_readNode hread htable]
    exact and_congr_left fun _ => ⟨fun hfits => ⟨hlong, hextension, hfits⟩, (·.attributes_fit)⟩
  · constructor
    · intro hread
      obtain ⟨⟨node, record⟩, hfound, -⟩ := bind_eq_ok_iff.mp hread
      obtain ⟨hlong, hextension, -, -⟩ := (readNode_eq_ok_iff_of_cutsOut h).mp hfound
      exact absurd ⟨hlong, hextension⟩ hnode
    · rintro ⟨hholds, -⟩
      exact absurd ⟨hholds.sixteen_le, hholds.extension_le⟩ hnode

theorem decode_of_kind_startTag (chunk : ByteArray) (offset : Nat)
    (hkind : header.kind = ChunkType.startTag) :
    decode header chunk offset = startTag <$> readStartTag chunk offset := by
  rw [decode, hkind]
  rfl

/-- **A start tag is read wherever its records stand**: it is accepted when its header and each of
the records that it tells lie within the chunk, and refused as malformed otherwise. What stands
between the records does not matter. -/
theorem decode_startTag (h : header.CutsOut data position offset chunk)
    (hkind : header.kind = ChunkType.startTag) :
    (HoldsStartTag chunk header.headerSize.toNat →
      decode header chunk offset = .ok (.startTag (startTagAt chunk header.headerSize.toNat))) ∧
    (¬ HoldsStartTag chunk header.headerSize.toNat →
      ∃ reason, decode header chunk offset = .error (.malformedChunk offset reason)) := by
  rw [decode_of_kind_startTag chunk offset hkind]
  constructor
  · intro hholds
    rw [(readStartTag_eq_ok_iff h).mpr ⟨hholds, rfl⟩]
    rfl
  · intro hlacks
    cases hread : readStartTag chunk offset with
    | ok tag => exact absurd ((readStartTag_eq_ok_iff h).mp hread).1 hlacks
    | error error =>
      obtain ⟨reason, rfl⟩ := malformed_of_readStartTag chunk offset error hread
      exact ⟨reason, rfl⟩

/-- A start tag behind four stray bytes, with the chunk size that it tells. Its header is 20 bytes
long, its first attribute record lies on top of the extension record, and the second one ends after
64 bytes. -/
def overlapping (size : UInt8) : ByteArray :=
  [9, 9, 9, 9,
    0x02, 0x01, 20, 0, size, 0, 0, 0, 7, 0, 0, 0, 255, 255, 255, 255, 9, 9, 9, 9,
    255, 255, 255, 255, 3, 0, 0, 0, 0, 0, 24, 0, 2, 0, 1, 0, 0, 0, 2, 0, 9, 9, 9, 9,
    5, 0, 0, 0, 6, 0, 0, 0, 255, 255, 255, 255, 8, 0, 0, 0x10, 42, 0, 0, 0].toByteArray

/-- The first record is read though it lies on top of the words that tell where it is; the chunk
that ends one byte earlier cuts the second one and is refused. -/
theorem decode_startTag_overlapping :
    decode ⟨ChunkType.startTag, 20, 64⟩ ((overlapping 64).extract 4 68) 12 = .ok (.startTag {
        line := 7
        comment := none
        uri := none
        name := 3
        attributes := [⟨none, 3, some 0x180000, ⟨0, 0x20000⟩⟩, ⟨some 5, 6, none, ⟨0x10, 42⟩⟩]
        idIndex := 1
        classIndex := 0
        styleIndex := 2 }) ∧
      ∃ reason, decode ⟨ChunkType.startTag, 20, 63⟩ ((overlapping 63).extract 4 67) 12
        = .error (.malformedChunk 12 reason) := by
  have hlong : ChunkHeader.CutsOut ⟨ChunkType.startTag, 20, 64⟩ (overlapping 64) 4 12
      ((overlapping 64).extract 4 68) := ⟨rfl, rfl⟩
  have hshort : ChunkHeader.CutsOut ⟨ChunkType.startTag, 20, 63⟩ (overlapping 63) 4 12
      ((overlapping 63).extract 4 67) := ⟨rfl, rfl⟩
  have hfits : AttributeTable.FitsIn (.toldAt ((overlapping 64).extract 4 68) 20) 64 :=
    .inr (by decide +kernel)
  have hoverrun : ¬ HoldsStartTag ((overlapping 63).extract 4 67) 20 := by
    -- the second record would end after 64 bytes, and there are 63
    intro hholds
    rcases hholds.attributes_fit with hnone | hlast
    · exact absurd hnone (by decide +kernel)
    · exact absurd hlast (by decide +kernel)
  constructor
  · rw [(decode_startTag hlong rfl).1 ⟨by decide, by decide, hfits⟩]
    decide +kernel
  · exact (decode_startTag hshort rfl).2 hoverrun

end BinaryXml.Chunk
