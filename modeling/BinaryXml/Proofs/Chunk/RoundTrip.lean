import BinaryXml.Proofs.Chunk.Format

/-!
# Chunks that spell themselves

Reading the bytes of a representable chunk gives that chunk (`spells_bytes`), and every chunk that
is read from some bytes is representable (`representable_of_spells`). A chunk that is not
interpreted is even spelt by its own bytes alone (`eq_bytes_of_spells_other`).
-/

namespace BinaryXml.Chunk

open Reading

/-! ## The parts of a chunk -/

/-- The two records of a tree node are read back. -/
theorem readNode_nodeBytes {α : Type} (node : NodeHeader) (layout : Layout α) (record : α)
    (rest : ByteArray) (offset : Nat) (h : node.chunk.headerSize = 16) :
    readNode layout (nodeBytes node layout record ++ rest) offset = .ok (node, record) := by
  have hsize : node.chunk.headerSize.toNat = 16 := by
    rw [h]
    rfl
  refine readNode_eq_ok_iff.mpr ⟨?_, Nat.le_of_eq hsize.symm, ?_⟩
  · rw [nodeBytes, ByteArray.append_assoc]
    exact (takes_record _ _).runAt_zero _
  · have hrun := (takes_record layout record).runAt (NodeHeader.layout.encode node).toByteArray rest
    rw [List.size_toByteArray, NodeHeader.layout.length_encode] at hrun
    rw [hsize]
    exact hrun

/-- Attribute records that stand one directly after the other are read back. The induction moves
each record read to the bytes in front of the rest. -/
theorem readAttributesOnto_attributeBytes (attributes : List Attribute)
    (h : ∀ attr ∈ attributes, Attribute.ofRecord attr.toRecord = attr) (before : ByteArray)
    (offset : Nat) (done : List Attribute) :
    readAttributesOnto (before ++ attributeBytes attributes) offset 20 done before.size
      attributes.length = .ok (done.reverse ++ attributes) := by
  induction attributes generalizing before done with
  | nil =>
    rw [List.append_nil]
    rfl
  | cons attr rest ih =>
    -- the first record is read at its place, and the rest behind it
    have hsplit : attributeBytes (attr :: rest)
        = (AttributeRecord.layout.encode attr.toRecord).toByteArray ++ attributeBytes rest := by
      rw [attributeBytes, List.flatMap_cons, List.toByteArray_append]
      rfl
    have hrecord := (takes_record AttributeRecord.layout attr.toRecord).runAt before
      (attributeBytes rest)
    have hsize : (before ++ (AttributeRecord.layout.encode attr.toRecord).toByteArray).size
        = before.size + 20 := by
      rw [ByteArray.size_append, List.size_toByteArray, AttributeRecord.layout.length_encode]
      rfl
    have hrest := ih (fun a ha => h a (List.mem_cons_of_mem _ ha))
      (before ++ (AttributeRecord.layout.encode attr.toRecord).toByteArray) (attr :: done)
    rw [hsplit, ← ByteArray.append_assoc, List.length_cons]
    simp only [readAttributesOnto, hrecord, h attr List.mem_cons_self]
    rw [← hsize, hrest, List.reverse_cons, List.append_assoc, List.singleton_append]

theorem wordsOnto_flatMap_encode (done ids : List UInt32) :
    wordsOnto done (ids.flatMap Layout.u32.encode) = done.reverse ++ ids :=
  onto_flatMap_encode .u32 (fun _ => rfl) (fun _ _ _ => rfl) done ids

/-- What stands behind a header of eight bytes. -/
theorem extract_behind_header (header : ChunkHeader) (rest : ByteArray) :
    ((ChunkHeader.layout.encode header).toByteArray ++ rest).extract 8
      ((ChunkHeader.layout.encode header).toByteArray ++ rest).size = rest := by
  refine ByteArray.extract_append_eq_right ?_ ByteArray.size_append
  rw [List.size_toByteArray, ChunkHeader.layout.length_encode]
  rfl

/-- A resource map is read back from what stands behind its header. -/
theorem readResourceMap_bytes (ids : List UInt32) (total : Nat) :
    readResourceMap ((resourceMap ids).header total) ((resourceMap ids).bytes total) = ids := by
  have hbody := extract_behind_header ((resourceMap ids).header total)
    (ids.flatMap Layout.u32.encode).toByteArray
  have hwords := wordsOnto_flatMap_encode [] ids
  rw [readResourceMap, bytes]
  show wordsOnto [] (ByteArray.extract _ 8 _).data.toList = ids
  rw [hbody, List.data_toByteArray, List.toList_toArray, hwords]
  rfl

/-- The attributes of a start tag survive as records unless they use the word for no index. -/
theorem ofRecord_toRecord_of_optionalIndices {tag : StartTag}
    (h : some noIndex ∉ (startTag tag).optionalIndices) :
    ∀ attr ∈ tag.attributes, Attribute.ofRecord attr.toRecord = attr := by
  intro attr hattr
  have hmem : ∀ index ∈ [attr.uri, attr.rawValue], index ∈ (startTag tag).optionalIndices := by
    intro index hindex
    refine List.mem_cons_of_mem _ (List.mem_cons_of_mem _ ?_)
    exact List.mem_flatMap.mpr ⟨attr, hattr, hindex⟩
  refine Attribute.ofRecord_toRecord ?_ ?_
  · intro huri
    exact h (hmem _ (by simp [huri]))
  · intro hraw
    exact h (hmem _ (by simp [hraw]))

/-- The start and the end of a scope are read back from one and the same form. -/
theorem readNamespace_nodeBytes (kind : UInt16) (total offset : Nat) (scope : NamespaceScope)
    (hcomment : scope.comment ≠ some noIndex) (hname : scope.name ≠ some noIndex) :
    readNamespace (nodeBytes (nodeHeader kind total scope.line scope.comment)
      NamespaceRecord.layout ⟨storeIndex scope.name, scope.uri⟩) offset = .ok scope := by
  have hnode := readNode_nodeBytes (nodeHeader kind total scope.line scope.comment)
    NamespaceRecord.layout ⟨storeIndex scope.name, scope.uri⟩ .empty offset rfl
  rw [ByteArray.append_empty] at hnode
  rw [readNamespace, hnode]
  show Except.ok (NamespaceScope.mk scope.line (loadIndex (storeIndex scope.comment))
    (loadIndex (storeIndex scope.name)) scope.uri) = .ok scope
  rw [loadIndex_storeIndex hcomment, loadIndex_storeIndex hname]

/-- A start tag is read back with its attributes. Its record says that they stand behind it, twenty
bytes each, and how many they are. -/
theorem readStartTag_bytes {total : Nat} (offset : Nat) {tag : StartTag}
    (hcount : tag.attributes.length ≤ greatestAttributeCount)
    (hindices : some noIndex ∉ (startTag tag).optionalIndices) :
    readStartTag ((startTag tag).bytes total) offset = .ok tag := by
  have hcomment : tag.comment ≠ some noIndex := fun h => hindices (by simp [optionalIndices, h])
  have huri : tag.uri ≠ some noIndex := fun h => hindices (by simp [optionalIndices, h])
  have hnode := readNode_nodeBytes (nodeHeader ChunkType.startTag total tag.line tag.comment)
    StartTagRecord.layout (startTagRecord tag) (attributeBytes tag.attributes) offset rfl
  have hlength : (UInt16.ofNat tag.attributes.length).toNat = tag.attributes.length := by
    have hbound : tag.attributes.length ≤ 0xFFFF := hcount
    rw [UInt16.toNat_ofNat']
    omega
  -- the attribute records stand directly behind the two records of the node
  have hattributes := readAttributesOnto_attributeBytes tag.attributes
    (ofRecord_toRecord_of_optionalIndices hindices)
    (nodeBytes (nodeHeader ChunkType.startTag total tag.line tag.comment) StartTagRecord.layout
      (startTagRecord tag)) offset []
  rw [size_nodeBytes] at hattributes
  have hread : readAttributesOnto ((startTag tag).bytes total) offset 20 [] 36
      (UInt16.ofNat tag.attributes.length).toNat = .ok tag.attributes := by
    rw [hlength]
    exact hattributes
  have hbytes : (startTag tag).bytes total = nodeBytes
      (nodeHeader ChunkType.startTag total tag.line tag.comment) StartTagRecord.layout
      (startTagRecord tag) ++ attributeBytes tag.attributes := rfl
  rw [hbytes] at hread ⊢
  rw [readStartTag, hnode]
  have hwide : ¬ (0 < (UInt16.ofNat tag.attributes.length).toNat ∧ (20 : UInt16).toNat < 20) :=
    fun h => absurd h.2 (by decide)
  -- the record is put in, so that its guard and its loop stand there with their values
  show (do
    if 0 < (UInt16.ofNat tag.attributes.length).toNat ∧ (20 : UInt16).toNat < 20 then
      throw (Error.malformedChunk offset .shortAttribute)
    let attributes ← readAttributesOnto (nodeBytes
      (nodeHeader ChunkType.startTag total tag.line tag.comment) StartTagRecord.layout
      (startTagRecord tag) ++ attributeBytes tag.attributes) offset 20 [] 36
      (UInt16.ofNat tag.attributes.length).toNat
    return StartTag.mk tag.line (loadIndex (storeIndex tag.comment))
      (loadIndex (storeIndex tag.uri)) tag.name attributes tag.idIndex tag.classIndex
      tag.styleIndex) = Except.ok tag
  rw [if_neg hwide, hread, loadIndex_storeIndex hcomment, loadIndex_storeIndex huri]
  rfl

/-- An end tag is read back. -/
theorem readEndTag_bytes (total offset : Nat) {tag : EndTag}
    (hindices : some noIndex ∉ (endTag tag).optionalIndices) :
    readEndTag ((endTag tag).bytes total) offset = .ok tag := by
  have hcomment : tag.comment ≠ some noIndex := fun h => hindices (by simp [optionalIndices, h])
  have huri : tag.uri ≠ some noIndex := fun h => hindices (by simp [optionalIndices, h])
  have hnode := readNode_nodeBytes (nodeHeader ChunkType.endTag total tag.line tag.comment)
    EndTagRecord.layout ⟨storeIndex tag.uri, tag.name⟩ .empty offset rfl
  rw [ByteArray.append_empty] at hnode
  rw [bytes, kind, readEndTag, hnode]
  show Except.ok (EndTag.mk tag.line (loadIndex (storeIndex tag.comment))
    (loadIndex (storeIndex tag.uri)) tag.name) = .ok tag
  rw [loadIndex_storeIndex hcomment, loadIndex_storeIndex huri]

/-- Character data is read back, its typed value included. -/
theorem readCharacterData_bytes (total offset : Nat) {data : CharacterData}
    (hindices : some noIndex ∉ (characterData data).optionalIndices) :
    readCharacterData ((characterData data).bytes total) offset = .ok data := by
  have hcomment : data.comment ≠ some noIndex := fun h => hindices (by simp [optionalIndices, h])
  have hnode := readNode_nodeBytes
    (nodeHeader ChunkType.characterData total data.line data.comment)
    CharacterDataRecord.layout ⟨data.data, data.value.toRecord⟩ .empty offset rfl
  rw [ByteArray.append_empty] at hnode
  rw [bytes, kind, readCharacterData, hnode]
  show Except.ok (CharacterData.mk data.line (loadIndex (storeIndex data.comment)) data.data
    data.value) = .ok data
  rw [loadIndex_storeIndex hcomment]

/-! ## Whole chunks -/

/-- A chunk of a tag that is not interpreted is kept as it is. -/
theorem decode_of_not_interpreted {header : ChunkHeader} (piece : ByteArray) (offset : Nat)
    (h : header.kind ∉ ChunkType.interpreted) :
    decode header piece offset
      = .ok (other ⟨header.kind, header.headerSize, piece.extract 8 piece.size⟩) := by
  simp only [ChunkType.interpreted, List.mem_cons, List.not_mem_nil, or_false, not_or] at h
  obtain ⟨hpool, hstart, hend, hopen, hclose, hdata, hmap⟩ := h
  rw [decode, if_neg hpool, if_neg hmap, if_neg hstart, if_neg hend, if_neg hopen, if_neg hclose,
    if_neg hdata]

/-- **A representable chunk is read back from its bytes.** -/
theorem decode_bytes {chunk : Chunk} {total : Nat} (hchunk : chunk.Representable)
    (hsize : chunk.size = .ok total) (hcount : chunk.attributeCount ≤ greatestAttributeCount)
    (hindices : some noIndex ∉ chunk.optionalIndices) :
    decode (chunk.header total) (chunk.bytes total) 0 = .ok chunk := by
  cases chunk with
  | stringPool pool =>
    have hpool := StringPool.decode_chunkBytes (StringPool.Built.wellFormed hchunk) hsize 0
    show stringPool <$> StringPool.decode (pool.chunkBytes total) 0 = _
    rw [hpool]
    rfl
  | resourceMap ids =>
    show Except.ok (resourceMap (readResourceMap _ _)) = _
    rw [readResourceMap_bytes]
  | startNamespace scope =>
    -- the word that stands for no string is neither the comment nor the name
    have hscope := readNamespace_nodeBytes ChunkType.startNamespace total 0 scope
      (fun h => hindices (by simp [optionalIndices, h]))
      (fun h => hindices (by simp [optionalIndices, h]))
    show startNamespace <$> readNamespace _ 0 = _
    rw [bytes, kind, hscope]
    rfl
  | endNamespace scope =>
    have hscope := readNamespace_nodeBytes ChunkType.endNamespace total 0 scope
      (fun h => hindices (by simp [optionalIndices, h]))
      (fun h => hindices (by simp [optionalIndices, h]))
    show endNamespace <$> readNamespace _ 0 = _
    rw [bytes, kind, hscope]
    rfl
  | startTag tag =>
    show startTag <$> readStartTag _ 0 = _
    rw [readStartTag_bytes 0 hcount hindices]
    rfl
  | endTag tag =>
    show endTag <$> readEndTag _ 0 = _
    rw [readEndTag_bytes total 0 hindices]
    rfl
  | characterData data =>
    show characterData <$> readCharacterData _ 0 = _
    rw [readCharacterData_bytes total 0 hindices]
    rfl
  | other rest =>
    have hbody := extract_behind_header ((other rest).header total) rest.body
    rw [decode_of_not_interpreted _ 0 hchunk.1, bytes, hbody]
    rfl

/-- **A representable chunk spells itself.** -/
theorem spells_bytes {chunk : Chunk} {total : Nat} (hchunk : chunk.Representable)
    (hsize : chunk.size = .ok total) (hcount : chunk.attributeCount ≤ greatestAttributeCount)
    (hindices : some noIndex ∉ chunk.optionalIndices) : Spells chunk (chunk.bytes total) := by
  obtain ⟨htotal, hbytes⟩ := size_bytes hchunk.wellFormed hsize
  refine ⟨chunk.header total, read_header_bytes hchunk hsize, ?_,
    decode_bytes hchunk hsize hcount hindices⟩
  rw [hbytes]
  exact UInt32.toNat_ofNat_of_lt' htotal

/-! ## What is read from some bytes -/

/-- A chunk that is read has the tag of its header, and its bytes can stand for it. -/
theorem kind_and_representable_of_decode {header : ChunkHeader} {piece : ByteArray} {offset : Nat}
    {chunk : Chunk} (hlong : 8 ≤ header.headerSize.toNat)
    (hsize : header.headerSize.toNat ≤ piece.size) (h : decode header piece offset = .ok chunk) :
    chunk.kind = header.kind ∧ chunk.Representable := by
  by_cases hother : header.kind ∉ ChunkType.interpreted
  · rw [decode_of_not_interpreted piece offset hother] at h
    cases h
    refine ⟨rfl, hother, hlong, ?_⟩
    show header.headerSize.toNat ≤ 8 + (piece.extract 8 piece.size).size
    rw [ByteArray.size_extract]
    omega
  -- every other tag has a reader of its own, which gives a chunk of that tag
  unfold decode at h
  split at h
  · rename_i hkind
    obtain ⟨pool, hread, rfl⟩ := map_eq_ok_iff.mp h
    exact ⟨hkind.symm, StringPool.built_of_decode hread⟩
  split at h
  · rename_i hkind
    cases h
    exact ⟨hkind.symm, trivial⟩
  split at h
  · rename_i hkind
    obtain ⟨scope, -, rfl⟩ := map_eq_ok_iff.mp h
    exact ⟨hkind.symm, trivial⟩
  split at h
  · rename_i hkind
    obtain ⟨scope, -, rfl⟩ := map_eq_ok_iff.mp h
    exact ⟨hkind.symm, trivial⟩
  split at h
  · rename_i hkind
    obtain ⟨tag, -, rfl⟩ := map_eq_ok_iff.mp h
    exact ⟨hkind.symm, trivial⟩
  split at h
  · rename_i hkind
    obtain ⟨tag, -, rfl⟩ := map_eq_ok_iff.mp h
    exact ⟨hkind.symm, trivial⟩
  split at h
  · rename_i hkind
    obtain ⟨data, -, rfl⟩ := map_eq_ok_iff.mp h
    exact ⟨hkind.symm, trivial⟩
  · simp_all [ChunkType.interpreted]

/-- **Whatever is read can be written.** A chunk that some bytes spell is representable. -/
theorem representable_of_spells {chunk : Chunk} {piece : ByteArray} (h : Spells chunk piece) :
    chunk.Representable := by
  obtain ⟨header, hread, hsize, hdecode⟩ := h
  obtain ⟨-, hlong, hfits, -⟩ := ChunkHeader.read_eq_ok_iff.mp hread
  rw [hsize] at hfits
  exact (kind_and_representable_of_decode hlong hfits hdecode).2

/-- The common header that some bytes start with. -/
def headerOf (piece : ByteArray) : ChunkHeader :=
  ChunkHeader.layout.decode piece.data.toList

/-- The first eight bytes are those of the header that is read from them. -/
theorem eq_header_append_of_read {piece : ByteArray} {header : ChunkHeader}
    (h : ChunkHeader.read piece 0 0 = .ok header) :
    piece = (ChunkHeader.layout.encode header).toByteArray ++ piece.extract 8 piece.size := by
  obtain ⟨hheader, -⟩ := ChunkHeader.read_eq_ok_iff.mp h
  obtain ⟨hrange, hvalue⟩ := (runAt_record_eq_ok_iff _ _ _ _).mp hheader
  have hwidth : ChunkHeader.layout.width = 8 := rfl
  rw [hwidth, Nat.zero_add] at hrange hvalue
  have hlength : (piece.extract 0 8).data.toList.length = 8 := by
    rw [Array.length_toList, ByteArray.size_data, ByteArray.size_extract]
    omega
  have hfront : ChunkHeader.layout.encode header = (piece.extract 0 8).data.toList := by
    -- every eight bytes are the record of the header that is read from them
    rw [← hvalue]
    exact ChunkHeader.exact_layout _ hlength
  have hbytes : (ChunkHeader.layout.encode header).toByteArray = piece.extract 0 8 := by
    apply ByteArray.ext
    rw [hfront, List.data_toByteArray, Array.toArray_toList]
  rw [hbytes, ← ByteArray.extract_eq_extract_append_extract 8 (Nat.zero_le 8) hrange,
    ByteArray.extract_zero_size]

/-- The header that is read is the one that the bytes start with. -/
theorem headerOf_of_read {piece : ByteArray} {header : ChunkHeader}
    (h : ChunkHeader.read piece 0 0 = .ok header) : headerOf piece = header := by
  rw [headerOf, eq_header_append_of_read h, ByteArray.data_append, Array.toList_append,
    List.data_toByteArray, List.toList_toArray]
  exact ChunkHeader.layout.decode_encode header _

/-- The header in front of a piece that spells a chunk tells the chunk's tag and the piece's size.
-/
theorem headerOf_of_spells {chunk : Chunk} {piece : ByteArray} (h : Spells chunk piece) :
    (headerOf piece).kind = chunk.kind ∧ (headerOf piece).size.toNat = piece.size := by
  obtain ⟨header, hread, hsize, hdecode⟩ := h
  obtain ⟨-, hlong, hfits, -⟩ := ChunkHeader.read_eq_ok_iff.mp hread
  rw [hsize] at hfits
  rw [headerOf_of_read hread]
  exact ⟨(kind_and_representable_of_decode hlong hfits hdecode).1.symm, hsize⟩

/-- A chunk that is not interpreted keeps all its bytes, so only they spell it. -/
theorem eq_bytes_of_spells_other {rest : OtherChunk} {piece : ByteArray}
    (h : Spells (other rest) piece) : piece = (other rest).bytes piece.size := by
  have hother : rest.kind ∉ ChunkType.interpreted := (representable_of_spells h).1
  obtain ⟨header, hread, hsize, hdecode⟩ := h
  obtain ⟨-, hlong, hfits, -⟩ := ChunkHeader.read_eq_ok_iff.mp hread
  rw [hsize] at hfits
  have hkind : rest.kind = header.kind := (kind_and_representable_of_decode hlong hfits hdecode).1
  rw [hkind] at hother
  rw [decode_of_not_interpreted piece 0 hother] at hdecode
  cases hdecode
  have hword : UInt32.ofNat piece.size = header.size := by
    rw [← hsize, UInt32.ofNat_toNat]
  show piece = (ChunkHeader.layout.encode
    ⟨header.kind, header.headerSize, UInt32.ofNat piece.size⟩).toByteArray
      ++ piece.extract 8 piece.size
  rw [hword]
  exact eq_header_append_of_read hread

end BinaryXml.Chunk
