import BinaryXml.Proofs.Compile.Lookups
import BinaryXml.Proofs.Compile.Sound
import BinaryXml.Proofs.File.RoundTrip
import BinaryXml.Proofs.Render.Lookups

/-!
# Compiling into either encoding

How a pool encodes its strings decides whether they fit, and nothing else: a string is found at the
same index in two pools of the same strings. So the two walks come to the same bindings and the same
tags in either encoding (`tags_eq_of_collection`), and the compiled files differ in their pools
alone (`recodes_of_compile`).
-/

namespace BinaryXml

/-- A string that a UTF-8 entry can state the lengths of has few enough units for UTF-16. -/
theorem StringEntry.tooLong_utf8_of_utf16 {s : String} (h : TooLong .utf16 s) :
    TooLong .utf8 s := by
  by_contra hshort
  obtain ⟨n, hn⟩ := not_tooLong_iff.mp hshort
  obtain ⟨⟨hunits, -⟩, -⟩ := (size_utf8_eq_ok_iff s n).mp hn
  have hwords := length_wordLength_le (Utf16.length s)
  have hutf8 : greatestUtf8Length = 0x7FFF := rfl
  have hutf16 : greatestUtf16Length = 0x7FFFFFFF := rfl
  have hsize : UInt32.size = 4294967296 := rfl
  rcases h with hlength | hbytes
  · omega
  · rw [size_encode_utf16] at hbytes
    omega

/-- Where a string is found does not depend on how it is encoded. -/
theorem StringPool.WellFormed.indexOf?_congr {pool other : StringPool} (hpool : pool.WellFormed)
    (hother : other.WellFormed) (hstrings : pool.strings = other.strings) (s : String) :
    pool.indexOf? s = other.indexOf? s := by
  rw [indexOf?, indexOf?, hpool.firstIndex_eq, hother.firstIndex_eq, hstrings]

theorem ChunkFile.lookUp_congr {pool other : StringPool} (hstrings : pool.strings = other.strings) :
    lookUp (some pool) = lookUp (some other) := by
  funext index
  simp only [lookUp, StringPool.get?, StringPool.size, hstrings]

/-- The second file has the strings of the first in UTF-16, and is the same in everything else. -/
structure ChunkFile.Recodes (file recoded : ChunkFile) : Prop where
  /-- The chunks behind the pool are the same, so every index of them means the same string. -/
  chunks : ∃ pool pool' rest, file.chunks = .stringPool pool :: rest ∧
    recoded.chunks = .stringPool pool' :: rest ∧ pool.encoding = .utf8 ∧ pool'.encoding = .utf16 ∧
    pool.strings = pool'.strings
  /-- Where both are written, what is read of them is rendered as one text. -/
  text : ∀ data data', file.toBytes = .ok data → recoded.toBytes = .ok data' →
    ∃ parsed parsed' text, parse data = .ok parsed ∧ parse data' = .ok parsed' ∧
      parsed.toXml = .ok text ∧ parsed'.toXml = .ok text

namespace Compile

variable {encoding encoding' : StringEncoding} {unbound : UnboundPolicy} {document : Document}
  {collected other : Collection}

/-! ## The two walks -/

theorem strings_eq_of_collection (h : collection encoding document = .ok collected)
    (h' : collection encoding' document = .ok other) :
    collected.pool.strings = other.pool.strings :=
  Array.toList_inj.mp ((strings_of_collection h).trans (strings_of_collection h').symm)

theorem indexOf?_eq_of_collection (h : collection encoding document = .ok collected)
    (h' : collection encoding' document = .ok other) (s : String) :
    collected.pool.indexOf? s = other.pool.indexOf? s :=
  (built_of_collection h).wellFormed.indexOf?_congr (built_of_collection h').wellFormed
    (strings_eq_of_collection h h') s

/-- The bindings are made of places, which the encoding does not move. -/
theorem namespaces_eq_of_collection (h : collection encoding document = .ok collected)
    (h' : collection encoding' document = .ok other) :
    collected.namespaces = other.namespaces := by
  have hplaces : collected.pool.place = other.pool.place := by
    funext s
    rw [StringPool.place, StringPool.place, indexOf?_eq_of_collection h h']
  rw [(collection_eq_ok_iff.mp h).2, (collection_eq_ok_iff.mp h').2, hplaces]

/-- **The second walk builds the same tags, or fails alike, in either encoding.** -/
theorem tags_eq_of_collection (h : collection encoding document = .ok collected)
    (h' : collection encoding' document = .ok other) :
    tags unbound collected document = tags unbound other document := by
  -- all that the walk asks a pool is where its strings are
  have hasked : indexIn collected.pool = indexIn other.pool := by
    funext s
    rw [indexIn, indexIn, indexOf?_eq_of_collection h h']
  rw [← tagsBy_indexIn, ← tagsBy_indexIn, hasked, namespaces_eq_of_collection h h']

/-- A document whose strings are collected in UTF-8 can have them collected in UTF-16 as long as the
entries fit together. -/
theorem exists_collection_utf16_iff (h : collection .utf8 document = .ok collected) :
    (∃ recoded, collection .utf16 document = .ok recoded) ↔
      StringPool.entriesSize .utf16 collected.pool.strings.toList < UInt32.size := by
  rw [strings_of_collection h]
  constructor
  · rintro ⟨recoded, hrecoded⟩
    exact (StringPool.exists_addAll_iff.mp ⟨_, (collection_eq_ok_iff.mp hrecoded).1⟩).2
  · intro hfits
    obtain ⟨hsized, -⟩ := StringPool.exists_addAll_iff.mp ⟨_, (collection_eq_ok_iff.mp h).1⟩
    refine exists_collection (fun s hs hlong => ?_) hfits
    exact StringEntry.not_tooLong_iff.mpr (hsized s hs) (StringEntry.tooLong_utf8_of_utf16 hlong)

/-! ## The files -/

/-- A compiled file is what is read of its bytes. -/
theorem parse_of_compile {options : Options} {file : ChunkFile}
    (h : compile options document = .ok file) {data : ByteArray} (hdata : file.toBytes = .ok data) :
    ChunkFile.parse data = .ok file := by
  have hvalid := validate_of_compile h
  exact ChunkFile.parse_eq_ok_iff.mpr
    ⟨ChunkFile.spelledBy_of_toBytes (representable_of_compile h) hvalid hdata, hvalid⟩

/-- Files that differ in how the pool encodes its strings are rendered alike. -/
theorem rendering_assemble_congr {tags : Array Chunk}
    (hstrings : collected.pool.strings = other.pool.strings)
    (hnamespaces : collected.namespaces = other.namespaces) :
    (assemble collected tags).rendering = (assemble other tags).rendering := by
  -- the pool is passed over, so all that matters of it is what is looked up
  show Render.renderOnto (ChunkFile.lookUp (some collected.pool)) [] {}
      ((collected.namespaces.bindings.map scopeOf).map .startNamespace ++ tags.toList
        ++ (collected.namespaces.bindings.map scopeOf).reverse.map .endNamespace) = _
  rw [ChunkFile.lookUp_congr hstrings, hnamespaces]
  rfl

/-- A file is compiled by the two walks and put together of what they come to. -/
theorem compile_eq_ok_iff_tags {options : Options} {file : ChunkFile} :
    compile options document = .ok file ↔
      ∃ collected built, collection options.encoding document = .ok collected ∧
        tags options.unbound collected document = .ok built ∧ file = assemble collected built := by
  rw [compile]
  simp only [bind_eq_ok_iff, pure_eq_ok_iff]
  constructor
  · rintro ⟨collected, hcollected, built, hbuilt, hfile⟩
    exact ⟨collected, built, hcollected, hbuilt, hfile⟩
  · rintro ⟨collected, built, hcollected, hbuilt, hfile⟩
    exact ⟨collected, hcollected, built, hbuilt, hfile⟩

/-- **The encoding does not change what is compiled.** A document that is compiled in UTF-8 is
compiled in UTF-16 whenever the entries of its strings fit together there, and the two files say the
same: they differ in their pools alone, which hold the same strings in the same order, and are
rendered as the same text when they are read again. -/
theorem recodes_of_compile {file : ChunkFile}
    (h : compile { encoding := .utf8, unbound } document = .ok file) :
    ((∃ recoded, compile { encoding := .utf16, unbound } document = .ok recoded) ↔
      ∃ pool, file.stringPool? = some pool ∧
        StringPool.entriesSize .utf16 pool.strings.toList < UInt32.size) ∧
    ∀ recoded, compile { encoding := .utf16, unbound } document = .ok recoded →
      file.Recodes recoded := by
  obtain ⟨collected, built, hcollected, hbuilt, rfl⟩ := compile_eq_ok_iff_tags.mp h
  refine ⟨?_, fun recoded hrecoded => ?_⟩
  · constructor
    · rintro ⟨recoded, hrecoded⟩
      obtain ⟨other, _, hother, -, -⟩ := compile_eq_ok_iff_tags.mp hrecoded
      exact ⟨collected.pool, rfl, (exists_collection_utf16_iff hcollected).mp ⟨other, hother⟩⟩
    · rintro ⟨pool, hpool, hfits⟩
      cases hpool
      obtain ⟨other, hother⟩ := (exists_collection_utf16_iff hcollected).mpr hfits
      refine ⟨assemble other built, compile_eq_ok_iff_tags.mpr ⟨other, built, hother, ?_, rfl⟩⟩
      -- the tags are those that were built for the other encoding
      rw [← tags_eq_of_collection hcollected hother]
      exact hbuilt
  · obtain ⟨other, built', hother, hbuilt', rfl⟩ := compile_eq_ok_iff_tags.mp hrecoded
    have hsame := hbuilt.symm.trans ((tags_eq_of_collection hcollected hother).trans hbuilt')
    obtain rfl := Except.ok.inj hsame
    have hstrings := strings_eq_of_collection hcollected hother
    have hnamespaces := namespaces_eq_of_collection hcollected hother
    constructor
    · refine ⟨collected.pool, other.pool, _, rfl, ?_, ?_, ?_, hstrings⟩
      · rw [assemble, hnamespaces]
        rfl
      · exact encoding_of_collection hcollected
      · exact encoding_of_collection hother
    · intro data data' hdata hdata'
      -- what is compiled is valid, so there is a text
      obtain ⟨text, htext⟩ := ChunkFile.exists_toXml (validate_of_compile h)
      refine ⟨_, _, text, parse_of_compile h hdata, parse_of_compile hrecoded hdata', htext, ?_⟩
      rw [← htext, ChunkFile.toXml, ChunkFile.toXml, rendering_assemble_congr hstrings hnamespaces]

/-- The document compiles in both encodings. -/
theorem recodes_of_compile_nested :
    ∃ file recoded, compile { unbound := .sentinel } nested = .ok file ∧
      compile { encoding := .utf16, unbound := .sentinel } nested = .ok recoded ∧
      file.Recodes recoded := by
  obtain ⟨file, hfile⟩ := exists_compile_nested
  obtain ⟨hiff, hrecodes⟩ := recodes_of_compile hfile
  obtain ⟨collected, _, hcollected, -, rfl⟩ := compile_eq_ok_iff_tags.mp hfile
  have hfits : StringPool.entriesSize .utf16 collected.pool.strings.toList < UInt32.size := by
    rw [strings_of_collection hcollected, stringsOf_nested]
    decide +kernel
  obtain ⟨recoded, hrecoded⟩ := hiff.mpr ⟨collected.pool, rfl, hfits⟩
  exact ⟨_, recoded, hfile, hrecoded, hrecodes recoded hrecoded⟩

end Compile

end BinaryXml
