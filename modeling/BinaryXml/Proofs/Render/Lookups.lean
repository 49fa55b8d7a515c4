import BinaryXml.Proofs.File.Format
import BinaryXml.Render.Xml

/-!
# The strings that rendering looks up

At a chunk, rendering looks up strings that the chunk refers to and strings of the namespace scopes,
which chunks before it have opened. Whatever the order of the chunks, the scopes hold no other
strings (`finds_refs_enter`, `finds_refs_leave`), so nothing stops the rendering when every string
that a chunk refers to is there (`failure_renderOnto`).
-/

namespace BinaryXml

/-! ## The strings that scopes refer to -/

def ScopedBinding.refs (binding : ScopedBinding) : List UInt32 :=
  binding.name.toList ++ [binding.uri]

/-- The strings of all the bindings, open or to be declared. -/
def Scopes.refs (scopes : Scopes) : List UInt32 :=
  (scopes.bindings ++ scopes.pending).flatMap ScopedBinding.refs

namespace Render

variable {lookUp : LookUp} {scopes : Scopes}

/-- Every string of some indices is there. -/
def Finds (lookUp : LookUp) (indices : List UInt32) : Prop :=
  ∀ index ∈ indices, ∃ s, lookUp index = .ok s

theorem finds_append_iff {first second : List UInt32} :
    Finds lookUp (first ++ second) ↔ Finds lookUp first ∧ Finds lookUp second :=
  List.forall_mem_append

/-- The strings of the scopes are those of the open bindings and of the pending ones. -/
theorem finds_refs_iff :
    Finds lookUp scopes.refs ↔ (∀ binding ∈ scopes.bindings, Finds lookUp binding.refs) ∧
      ∀ binding ∈ scopes.pending, Finds lookUp binding.refs := by
  rw [← List.forall_mem_append]
  exact List.forall_mem_flatMap

theorem finds_refs_empty : Finds lookUp ({} : Scopes).refs :=
  List.forall_mem_nil _

/-- A start brings the strings of its own binding and no others. -/
theorem finds_refs_enter (h : Finds lookUp scopes.refs) {binding : ScopedBinding}
    (hbinding : Finds lookUp binding.refs) : Finds lookUp (scopes.enter binding).refs := by
  obtain ⟨hopen, hpending⟩ := finds_refs_iff.mp h
  exact finds_refs_iff.mpr
    ⟨List.forall_mem_cons.mpr ⟨hbinding, hopen⟩, List.forall_mem_cons.mpr ⟨hbinding, hpending⟩⟩

theorem finds_refs_leave (h : Finds lookUp scopes.refs) (binding : ScopedBinding) :
    Finds lookUp (scopes.leave binding).refs := by
  obtain ⟨hopen, hpending⟩ := finds_refs_iff.mp h
  have hrest : ∀ other ∈ (scopes.leave binding).bindings, Finds lookUp other.refs :=
    fun other hother => hopen other (List.mem_of_mem_erase hother)
  exact finds_refs_iff.mpr ⟨hrest, hpending⟩

theorem finds_refs_declared (h : Finds lookUp scopes.refs) :
    Finds lookUp scopes.declared.refs := by
  obtain ⟨hopen, -⟩ := finds_refs_iff.mp h
  exact finds_refs_iff.mpr ⟨hopen, List.forall_mem_nil _⟩

/-! ## Names and values -/

/-- The prefix of a uri is found: it is a string of an open scope, or the uri itself is looked
up. -/
theorem exists_qualifierOf (hscopes : Finds lookUp scopes.refs) {uri : UInt32}
    (huri : Finds lookUp [uri]) : ∃ qualifier, qualifierOf lookUp scopes uri = .ok qualifier := by
  unfold qualifierOf
  cases hfor : scopes.prefixFor? uri with
  | some index =>
    -- the prefix is that of an open binding
    obtain ⟨binding, hfind, hname⟩ := Option.bind_eq_some_iff.mp hfor
    have hbinding := (finds_refs_iff.mp hscopes).1 binding (List.mem_of_find?_eq_some hfind)
    exact hbinding index (List.mem_append_left _ (Option.mem_toList.mpr hname))
  | none =>
    obtain ⟨s, hs⟩ := huri uri List.mem_cons_self
    rw [hs]
    exact ⟨_, rfl⟩

/-- A name with its prefix is found when the local name and the uri are. -/
theorem exists_qualifiedName (hscopes : Finds lookUp scopes.refs) {uri : Option UInt32}
    {name : UInt32} (h : Finds lookUp (uri.toList ++ [name])) :
    ∃ written, qualifiedName lookUp scopes uri name = .ok written := by
  obtain ⟨huri, hname⟩ := finds_append_iff.mp h
  obtain ⟨localName, hlocal⟩ := hname name List.mem_cons_self
  rw [qualifiedName, hlocal]
  cases uri with
  | none => exact ⟨_, rfl⟩
  | some uri =>
    obtain ⟨qualifier, hqualifier⟩ := exists_qualifierOf hscopes huri
    refine ⟨qualify qualifier localName, ?_⟩
    show (do let qualifier ← qualifierOf lookUp scopes uri; return _) = _
    rw [hqualifier]
    rfl

theorem exists_declaredName {name : Option UInt32} (h : Finds lookUp name.toList) :
    ∃ written, declaredName lookUp name = .ok written := by
  cases name with
  | none => exact ⟨_, rfl⟩
  | some index =>
    obtain ⟨s, hs⟩ := h index List.mem_cons_self
    rw [declaredName, hs]
    exact ⟨_, rfl⟩

/-- Bindings whose strings are found can be declared, also those that are passed over. -/
theorem exists_declarationsOnto_of_finds {bindings : List ScopedBinding}
    (h : ∀ binding ∈ bindings, Finds lookUp binding.refs) (done : List (String × String)) :
    ∃ written, declarationsOnto lookUp done bindings = .ok written := by
  induction bindings generalizing done with
  | nil => exact ⟨_, rfl⟩
  | cons binding rest ih =>
    have hrest := ih fun b hb => h b (List.mem_cons_of_mem _ hb)
    obtain ⟨hname, huri⟩ := finds_append_iff.mp (h binding List.mem_cons_self)
    obtain ⟨name, hname⟩ := exists_declaredName hname
    obtain ⟨uri, huri⟩ := huri binding.uri List.mem_cons_self
    rw [declarationsOnto, hname, huri]
    dsimp only [bind, Except.bind]
    -- the name has been declared before, or the uri is written for it
    split
    · exact hrest done
    · exact hrest _

/-- An attribute has a value when its strings are found. -/
theorem exists_attributeValue {attr : Attribute} (h : Finds lookUp attr.stringRefs) :
    ∃ value, attributeValue lookUp attr = .ok value := by
  obtain ⟨h, hvalue⟩ := finds_append_iff.mp h
  obtain ⟨-, hraw⟩ := finds_append_iff.mp h
  -- the raw text, the string that the value names, or a value without a string
  unfold attributeValue
  split
  · rename_i index hindex
    exact hraw index (Option.mem_toList.mpr hindex)
  · split
    · rename_i index hindex
      exact hvalue index (Option.mem_toList.mpr hindex)
    · exact ⟨_, rfl⟩

/-- An attribute is written when its strings and those of the scopes are found. -/
theorem exists_renderAttribute (hscopes : Finds lookUp scopes.refs) {attr : Attribute}
    (h : Finds lookUp attr.stringRefs) :
    ∃ written, renderAttribute lookUp scopes attr = .ok written := by
  obtain ⟨value, hvalue⟩ := exists_attributeValue h
  obtain ⟨hname, -⟩ := finds_append_iff.mp (finds_append_iff.mp h).1
  obtain ⟨name, hname⟩ := exists_qualifiedName hscopes hname
  rw [renderAttribute, hname, hvalue]
  exact ⟨_, rfl⟩

/-- A start tag is written when its strings and those of the scopes are found. -/
theorem exists_renderStartTag (hscopes : Finds lookUp scopes.refs) {tag : StartTag}
    (h : Finds lookUp (Chunk.startTag tag).stringRefs) :
    ∃ name attributes, renderStartTag lookUp scopes tag = .ok (name, attributes) := by
  obtain ⟨h, hattributes⟩ := finds_append_iff.mp h
  obtain ⟨h, hname⟩ := finds_append_iff.mp h
  obtain ⟨-, huri⟩ := finds_append_iff.mp h
  obtain ⟨name, hname⟩ := exists_qualifiedName hscopes (finds_append_iff.mpr ⟨huri, hname⟩)
  -- the declarations are those of the pending bindings, oldest first
  obtain ⟨declared, hdeclared⟩ := exists_declarationsOnto_of_finds
    (fun binding hbinding =>
      (finds_refs_iff.mp hscopes).2 binding (List.mem_reverse.mp hbinding)) []
  have hown : ∀ attr ∈ tag.attributes,
      ∃ written, renderAttribute lookUp scopes attr = .ok written := by
    intro attr hattr
    refine exists_renderAttribute hscopes fun index hindex => ?_
    exact hattributes index (List.mem_flatMap.mpr ⟨attr, hattr, hindex⟩)
  obtain ⟨own, hown⟩ := exists_forall₂_of_forall hown
  rw [renderStartTag, hname, declarations, hdeclared, mapM_eq_ok_iff.mpr hown]
  exact ⟨_, _, rfl⟩

/-! ## The whole -/

/-- **Nothing stops the rendering** of chunks whose strings are there, in whatever order tags and
scopes start and end. -/
theorem failure_renderOnto {chunks : List Chunk}
    (h : ∀ chunk ∈ chunks, Finds lookUp chunk.stringRefs) (hscopes : Finds lookUp scopes.refs)
    (done : List RenderEvent) : (renderOnto lookUp done scopes chunks).failure = none := by
  -- along the recursion, since a start tag may take the end tag behind it along
  fun_induction renderOnto lookUp done scopes chunks with
  | case1 => rfl
  | case2 done scopes scope rest ih =>
    obtain ⟨hscope, hrest⟩ := List.forall_mem_cons.mp h
    obtain ⟨hname, huri⟩ := finds_append_iff.mp hscope
    have hbinding := finds_append_iff.mpr ⟨(finds_append_iff.mp hname).2, huri⟩
    exact ih hrest (finds_refs_enter hscopes hbinding)
  | case3 done scopes scope rest ih =>
    exact ih (List.forall_mem_cons.mp h).2 (finds_refs_leave hscopes _)
  | case4 done scopes tag finish rest error herror =>
    -- the strings of the tag are there, so it cannot have failed
    obtain ⟨name, attributes, hok⟩ := exists_renderStartTag hscopes (List.forall_mem_cons.mp h).1
    rw [hok] at herror
    cases herror
  | case5 done scopes tag finish rest name attributes _ ih =>
    have hrest := (List.forall_mem_cons.mp (List.forall_mem_cons.mp h).2).2
    exact ih hrest (finds_refs_declared hscopes)
  | case6 done scopes tag rest _ error herror =>
    obtain ⟨name, attributes, hok⟩ := exists_renderStartTag hscopes (List.forall_mem_cons.mp h).1
    rw [hok] at herror
    cases herror
  | case7 done scopes tag rest _ name attributes _ ih =>
    exact ih (List.forall_mem_cons.mp h).2 (finds_refs_declared hscopes)
  | case8 done scopes tag rest error herror =>
    obtain ⟨hrefs, hname⟩ := finds_append_iff.mp (List.forall_mem_cons.mp h).1
    obtain ⟨-, huri⟩ := finds_append_iff.mp hrefs
    obtain ⟨name, hok⟩ := exists_qualifiedName hscopes (finds_append_iff.mpr ⟨huri, hname⟩)
    rw [hok] at herror
    cases herror
  | case9 done scopes tag rest name _ ih => exact ih (List.forall_mem_cons.mp h).2 hscopes
  | case10 done scopes data rest error herror =>
    obtain ⟨hrefs, -⟩ := finds_append_iff.mp (List.forall_mem_cons.mp h).1
    obtain ⟨-, hdata⟩ := finds_append_iff.mp hrefs
    obtain ⟨content, hok⟩ := hdata data.data List.mem_cons_self
    rw [hok] at herror
    cases herror
  | case11 done scopes data rest content _ ih => exact ih (List.forall_mem_cons.mp h).2 hscopes
  | case12 done scopes pool rest ih => exact ih (List.forall_mem_cons.mp h).2 hscopes
  | case13 done scopes ids rest ih => exact ih (List.forall_mem_cons.mp h).2 hscopes
  | case14 done scopes chunk rest ih => exact ih (List.forall_mem_cons.mp h).2 hscopes

end Render

/-! ## Documents -/

namespace ChunkFile

variable {file : ChunkFile}

/-- An index below the size of the pool is that of a string. -/
theorem exists_lookUp_of_lt {index : UInt32} (h : index.toNat < file.stringCount) :
    ∃ s, lookUp file.stringPool? index = .ok s := by
  rw [stringCount] at h
  cases hpool : file.stringPool? with
  | none =>
    rw [hpool] at h
    cases h
  | some pool =>
    rw [hpool] at h
    have hget : pool.get? index = some (pool.strings[index.toNat]) := Array.getElem?_eq_getElem h
    rw [lookUp, hget]
    exact ⟨_, rfl⟩

/-- Every string that a chunk of a valid document refers to is there. -/
theorem finds_of_validate (h : file.validate = .ok ()) :
    ∀ chunk ∈ file.chunks, Render.Finds (lookUp file.stringPool?) chunk.stringRefs :=
  fun chunk hchunk index hindex =>
    exists_lookUp_of_lt (validateChunks_eq_ok_iff.mp h chunk hchunk index hindex)

/-- Nothing stops the rendering of a valid file. -/
theorem failure_rendering (h : file.validate = .ok ()) : file.rendering.failure = none :=
  Render.failure_renderOnto (finds_of_validate h) Render.finds_refs_empty []

/-- **A valid document is rendered.** -/
theorem exists_toXml (h : file.validate = .ok ()) : ∃ text, file.toXml = .ok text := by
  have hnone := failure_rendering h
  unfold toXml
  dsimp only
  rw [hnone]
  exact ⟨_, rfl⟩

end ChunkFile

end BinaryXml
