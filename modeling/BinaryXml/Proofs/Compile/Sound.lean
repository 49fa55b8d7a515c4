import BinaryXml.Proofs.Compile.Hoisting
import BinaryXml.Proofs.File.Failing

/-!
# Compiled files are sound

Every index that the second walk stores is one that the first walk handed out, or the index of the
first string, so it lies within the pool (`inPool_of_buildAll`). A compiled file is therefore valid,
and it is written whenever its size fits.
-/

namespace BinaryXml

theorem StringPool.lt_size_of_get? {pool : StringPool} {index : UInt32} {s : String}
    (h : pool.get? index = some s) : index.toNat < pool.size :=
  (Array.getElem?_eq_some_iff.mp h).1

/-- Every string that the chunk refers to is in the pool. -/
def Chunk.InPool (pool : StringPool) (chunk : Chunk) : Prop :=
  ∀ index ∈ chunk.stringRefs, index.toNat < pool.size

/-- The file is consistent in itself, and nothing but its size can keep it from being written. -/
structure ChunkFile.Sound (file : ChunkFile) : Prop where
  /-- Every index refers to a string of the pool. -/
  validate_eq : file.validate = .ok ()
  /-- No optional index is the word that stands for no index. -/
  noIndex_not_mem : ∀ chunk ∈ file.chunks, some noIndex ∉ chunk.optionalIndices
  /-- The pool has no repeats. -/
  nodup_strings : ∃ pool, file.stringPool? = some pool ∧ pool.strings.toList.Nodup
  /-- Every start tag can count its attributes. -/
  length_attributes_le : ∀ tag ∈ file.startTags,
    tag.attributes.length ≤ Chunk.greatestAttributeCount
  toBytes_eq_ok_or : (∃ total data, file.size = .ok total ∧ file.toBytes = .ok data) ∨
    file.size = .error .chunkTooLarge ∧ file.toBytes = .error .chunkTooLarge

namespace Compile

variable {unbound : UnboundPolicy} {encoding : StringEncoding} {document : Document}
  {collected : Collection}

/-! ## Indices within the pool -/

theorem lt_size_of_indexOf? (h : collection encoding document = .ok collected) {s : String}
    {index : UInt32} (hindex : collected.pool.indexOf? s = some index) :
    index.toNat < collected.pool.size :=
  StringPool.lt_size_of_get? ((built_of_collection h).wellFormed.get?_of_indexOf? hindex)

/-- The uri that a prefix is resolved to is in the pool, and so is the one that stands for a prefix
which is declared nowhere, as long as there is a string at all. -/
theorem lt_size_of_resolve (h : collection encoding document = .ok collected)
    {element name : String} {uri : UInt32} (hsome : 0 < collected.pool.size)
    (huri : resolve unbound collected.namespaces element name = .ok uri) :
    uri.toNat < collected.pool.size := by
  rcases resolve_eq_ok_iff.mp huri with hbound | ⟨-, -, rfl⟩
  · obtain ⟨s, hs⟩ := exists_get?_of_resolve h hbound
    exact StringPool.lt_size_of_get? hs
  · exact hsome

/-- All the indices of a built attribute lie within the pool. -/
theorem lt_size_of_buildAttribute (h : collection encoding document = .ok collected)
    {element : String} {ordinary : Option String × String × String} {attr : Attribute}
    (hattr : buildAttribute unbound collected element ordinary = .ok attr) :
    ∀ index ∈ attr.stringRefs, index.toNat < collected.pool.size := by
  obtain ⟨qualifier, localName, value⟩ := ordinary
  obtain ⟨uri, valueIndex, nameIndex, huri, hvalue, hname, rfl⟩ := buildAttribute_eq_ok_iff.mp hattr
  have hvalueLt := lt_size_of_indexOf? h hvalue
  have hnameLt := lt_size_of_indexOf? h hname
  have huriLt : ∀ index ∈ uri.toList, index.toNat < collected.pool.size := by
    cases qualifier with
    | none =>
      cases huri
      exact List.forall_mem_nil _
    | some name =>
      -- the value is a string, so the first string is there
      obtain ⟨found, hfound, rfl⟩ := map_eq_ok_iff.mp huri
      exact List.forall_mem_singleton.mpr (lt_size_of_resolve h (by omega) hfound)
  -- the value is referred to twice, as text and typed
  have hrefs : Attribute.stringRefs ⟨uri, nameIndex, some valueIndex, .string valueIndex⟩
      = uri.toList ++ [nameIndex, valueIndex, valueIndex] := by
    simp [Attribute.stringRefs, Value.stringIndex?, Value.string]
  rw [hrefs, List.forall_mem_append]
  refine ⟨huriLt, ?_⟩
  simp only [List.forall_mem_cons]
  exact ⟨hnameLt, hvalueLt, hvalueLt, List.forall_mem_nil _⟩

theorem inPool_of_buildStartTag (h : collection encoding document = .ok collected) {tag : OpenTag}
    {built : StartTag} (hbuilt : buildStartTag unbound collected tag = .ok built) :
    (Chunk.startTag built).InPool collected.pool := by
  obtain ⟨attributes, name, hattributes, -, hname, rfl⟩ := buildStartTag_eq_ok_iff.mp hbuilt
  have hnameLt := lt_size_of_indexOf? h hname
  intro index hindex
  rcases List.mem_cons.mp hindex with rfl | hindex
  · exact hnameLt
  · obtain ⟨attr, hattr, hindex⟩ := List.mem_flatMap.mp hindex
    obtain ⟨ordinary, -, hmade⟩ := exists_mem_left_of_forall₂ hattributes attr hattr
    exact lt_size_of_buildAttribute h hmade index hindex

/-- **No index of a tag reaches past the pool.** -/
theorem inPool_of_buildAll (h : collection encoding document = .ok collected)
    {events : List WalkEvent} {chunks : List Chunk}
    (hchunks : buildAll unbound collected events = .ok chunks) :
    ∀ chunk ∈ chunks, chunk.InPool collected.pool := by
  intro chunk hchunk
  rcases eq_startTag_or_endTag_of_mem hchunks hchunk with
    ⟨tag, built, hbuilt, rfl⟩ | ⟨name, line, index, hindex, rfl⟩
  · exact inPool_of_buildStartTag h hbuilt
  · exact List.forall_mem_singleton.mpr (lt_size_of_indexOf? h hindex)

/-! ## The whole file -/

/-- What holds of the pool, the scopes and the tags holds of every chunk of the file. -/
theorem forall_mem_chunks_assemble {p : Chunk → Prop} {tags : List Chunk}
    (hpool : p (.stringPool collected.pool))
    (hscopes : ∀ scope ∈ collected.namespaces.bindings.map scopeOf,
      p (.startNamespace scope) ∧ p (.endNamespace scope))
    (htags : ∀ chunk ∈ tags, p chunk) :
    ∀ chunk ∈ (assemble collected tags.toArray).chunks, p chunk := by
  intro chunk hchunk
  rcases List.mem_append.mp hchunk with hchunk | hchunk
  · rcases List.mem_append.mp hchunk with hchunk | hchunk
    · rcases List.mem_cons.mp hchunk with rfl | hchunk
      · exact hpool
      · obtain ⟨scope, hscope, rfl⟩ := List.mem_map.mp hchunk
        exact (hscopes scope hscope).1
    · exact htags chunk hchunk
  · obtain ⟨scope, hscope, rfl⟩ := List.mem_map.mp hchunk
    exact (hscopes scope (List.mem_reverse.mp hscope)).2

/-- The strings of a scope are in the pool, at its start and at its end. -/
theorem inPool_of_scope (h : collection encoding document = .ok collected)
    {scope : NamespaceScope} (hscope : scope ∈ collected.namespaces.bindings.map scopeOf) :
    (Chunk.startNamespace scope).InPool collected.pool ∧
      (Chunk.endNamespace scope).InPool collected.pool := by
  obtain ⟨declared, -, hdeclares⟩ :=
    exists_mem_left_of_forall₂ (declares_scopes h).flip scope hscope
  obtain ⟨name, hname, -, hgetName⟩ := hdeclares.name_eq
  have hrefs : (Chunk.startNamespace scope).stringRefs = [name, scope.uri] := by
    rw [Chunk.stringRefs, hdeclares.comment_eq, hname]
    rfl
  -- an end refers to the strings that its start refers to
  have hboth : (Chunk.startNamespace scope).InPool collected.pool := by
    rw [Chunk.InPool, hrefs]
    simp only [List.forall_mem_cons]
    exact ⟨StringPool.lt_size_of_get? hgetName, StringPool.lt_size_of_get? hdeclares.uri_eq.2,
      List.forall_mem_nil _⟩
  exact ⟨hboth, hboth⟩

/-- No start tag has more attributes than it can count. -/
theorem attributeCount_le_of_buildAll {events : List WalkEvent} {chunks : List Chunk}
    (hchunks : buildAll unbound collected events = .ok chunks) :
    ∀ chunk ∈ chunks, chunk.attributeCount ≤ Chunk.greatestAttributeCount := by
  intro chunk hchunk
  cases chunk with
  | startTag built =>
    have hmem : built ∈ chunks.filterMap startTag? := List.mem_filterMap.mpr ⟨_, hchunk, rfl⟩
    obtain ⟨tag, -, hbuilt⟩ := exists_mem_left_of_forall₂ (startTags_of_buildAll hchunks) built hmem
    obtain ⟨attributes, name, -, hfew, -, rfl⟩ := buildStartTag_eq_ok_iff.mp hbuilt
    exact hfew
  | _ => exact Nat.zero_le _

variable {options : Options} {file : ChunkFile}

/-- Every index of a compiled file refers to a string of its pool. -/
theorem validate_of_compile (h : compile options document = .ok file) :
    file.validate = .ok () := by
  obtain ⟨collected, chunks, hcollected, hchunks, rfl⟩ := compile_eq_ok_iff.mp h
  apply ChunkFile.validateChunks_eq_ok_iff.mpr
  exact forall_mem_chunks_assemble (List.forall_mem_nil _)
    (fun _ hscope => inPool_of_scope hcollected hscope) (inPool_of_buildAll hcollected hchunks)

/-- Every chunk of a compiled file is one that its bytes determine. -/
theorem representable_of_compile (h : compile options document = .ok file) :
    ∀ chunk ∈ file.chunks, chunk.Representable := by
  obtain ⟨collected, chunks, hcollected, hchunks, rfl⟩ := compile_eq_ok_iff.mp h
  refine forall_mem_chunks_assemble (built_of_collection hcollected)
    (fun _ _ => ⟨trivial, trivial⟩) fun chunk hchunk => ?_
  have htag := isTag_of_buildAll hchunks chunk hchunk
  -- a chunk without a decoder of its own is no tag
  cases chunk with
  | startTag tag | endTag tag => trivial
  | _ => cases htag

theorem attributeCount_le_of_compile (h : compile options document = .ok file) :
    ∀ chunk ∈ file.chunks, chunk.attributeCount ≤ Chunk.greatestAttributeCount := by
  obtain ⟨collected, chunks, -, hchunks, rfl⟩ := compile_eq_ok_iff.mp h
  exact forall_mem_chunks_assemble (Nat.zero_le _) (fun _ _ => ⟨Nat.zero_le _, Nat.zero_le _⟩)
    (attributeCount_le_of_buildAll hchunks)

/-- The pool of a compiled file holds no string twice. -/
theorem nodup_strings_of_compile (h : compile options document = .ok file) :
    ∃ pool, file.stringPool? = some pool ∧ pool.strings.toList.Nodup := by
  obtain ⟨collected, chunks, hcollected, -, rfl⟩ := compile_eq_ok_iff.mp h
  refine ⟨collected.pool, rfl, ?_⟩
  rw [strings_of_collection hcollected]
  exact nodup_eraseDups _

/-- **A compiled file is sound**: every index of it refers to a string of its pool, and it is
written whenever its size fits. -/
theorem sound_of_compile {options : Options} {file : ChunkFile}
    (h : compile options document = .ok file) : file.Sound := by
  have hvalid := validate_of_compile h
  have hcounts := attributeCount_le_of_compile h
  refine ⟨hvalid, ChunkFile.not_mem_optionalIndices_of_validate (representable_of_compile h) hvalid,
    nodup_strings_of_compile h, fun tag htag => ?_,
    ChunkFile.toBytes_eq_ok_or_chunkTooLarge hcounts⟩
  obtain ⟨chunk, hchunk, hsome⟩ := List.mem_filterMap.mp htag
  have hcount := hcounts chunk hchunk
  cases chunk <;> cases hsome
  exact hcount

/-- The attribute with the sentinel is no exception: the sentinel is the index of the first
string. -/
theorem sound_of_compile_nested :
    ∃ file, compile { unbound := .sentinel } nested = .ok file ∧ file.Sound := by
  obtain ⟨file, hfile⟩ := exists_compile_nested
  exact ⟨file, hfile, sound_of_compile hfile⟩

end Compile

end BinaryXml
