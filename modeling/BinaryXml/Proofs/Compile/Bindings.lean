import BinaryXml.Proofs.Compile.Collection
import BinaryXml.Proofs.Except

/-!
# What the first walk leaves behind

The strings of a document have places in the collected pool, different ones for different strings.
The bindings are the declarations of the document without repeats, and a prefix is resolved to the
uri of its first declaration, wherever that stands.
-/

namespace BinaryXml

/-- The document has an attribute with the prefix `xmlPrefix`. -/
def Document.UsesXml (document : Document) : Prop :=
  ∃ tag ∈ document.openTags, ∃ attr ∈ tag.ordinary, attr.1 = some xmlPrefix

namespace Compile

/-! ## The strings -/

/-- The strings that the first walk meets, in order. -/
def stringsOf (document : Document) : List String :=
  (steps document).flatMap Step.strings

variable {encoding : StringEncoding} {document : Document} {collected : Collection}

/-- The first walk succeeds when all strings find a place, and what it collects is then known from
the document and these places. -/
theorem collection_eq_ok_iff :
    collection encoding document = .ok collected ↔
      StringPool.addAll (stringsOf document) { encoding } = .ok collected.pool ∧
        collected.namespaces = bindingsOf collected.pool.place document := by
  rw [collection_eq, ← stringsOf, map_eq_ok_iff]
  constructor
  · rintro ⟨pool, hpool, rfl⟩
    exact ⟨hpool, rfl⟩
  · rintro ⟨hpool, hnamespaces⟩
    refine ⟨collected.pool, hpool, ?_⟩
    rw [← hnamespaces]

/-- The collected pool has been filled by adding. -/
theorem built_of_collection (h : collection encoding document = .ok collected) :
    collected.pool.Built :=
  (StringPool.Built.empty encoding).addAll (collection_eq_ok_iff.mp h).1

/-- The pool lists the strings of the document without their repeats. -/
theorem strings_of_collection (h : collection encoding document = .ok collected) :
    collected.pool.strings.toList = (stringsOf document).eraseDups :=
  StringPool.strings_of_addAll (collection_eq_ok_iff.mp h).1

theorem encoding_of_collection (h : collection encoding document = .ok collected) :
    collected.pool.encoding = encoding :=
  StringPool.encoding_of_addAll (collection_eq_ok_iff.mp h).1

theorem indexOf?_eq_place (h : collection encoding document = .ok collected) {s : String}
    (hs : s ∈ stringsOf document) :
    collected.pool.indexOf? s = some (collected.pool.place s) := by
  obtain ⟨index, hindex⟩ := StringPool.exists_indexOf?_of_addAll (collection_eq_ok_iff.mp h).1 s hs
  rw [StringPool.place, hindex, Option.getD_some]

theorem get?_place (h : collection encoding document = .ok collected) {s : String}
    (hs : s ∈ stringsOf document) : collected.pool.get? (collected.pool.place s) = some s :=
  (built_of_collection h).wellFormed.get?_of_indexOf? (indexOf?_eq_place h hs)

/-- Strings at one place are one string. -/
theorem place_injective (h : collection encoding document = .ok collected) {s t : String}
    (hs : s ∈ stringsOf document) (ht : t ∈ stringsOf document)
    (hplace : collected.pool.place s = collected.pool.place t) : s = t := by
  have hget := get?_place h hs
  rw [hplace, get?_place h ht] at hget
  exact (Option.some.inj hget).symm

/-! ## Which strings those are -/

theorem mem_stringsOf_of_event {event : WalkEvent} (hevent : event ∈ document.trace) {s : String}
    (hs : s ∈ (eventSteps event).flatMap Step.strings) : s ∈ stringsOf document := by
  obtain ⟨step, hstep, hs⟩ := List.mem_flatMap.mp hs
  exact List.mem_flatMap.mpr ⟨step, List.mem_flatMap.mpr ⟨event, hevent, hstep⟩, hs⟩

/-- The elements entered are those of the document. -/
theorem start_mem_trace_iff {tag : OpenTag} :
    .start tag ∈ document.trace ↔ tag ∈ document.openTags := by
  rw [← document.filterMap_tag?_trace, List.mem_filterMap]
  constructor
  · intro h
    exact ⟨.start tag, h, rfl⟩
  · rintro ⟨event, hevent, hsome⟩
    cases event <;> cases hsome
    exact hevent

/-- Every declaration of the document is an event of its own. -/
theorem declaration_mem_trace {declared : String × String}
    (h : declared ∈ document.declarations) :
    .declaration declared.1 declared.2 ∈ document.trace := by
  rw [← document.filterMap_declaration?_trace] at h
  obtain ⟨event, hevent, hsome⟩ := List.mem_filterMap.mp h
  cases event <;> cases hsome
  exact hevent

theorem name_mem_stringsOf {tag : OpenTag} (htag : tag ∈ document.openTags) :
    tag.name ∈ stringsOf document :=
  mem_stringsOf_of_event (start_mem_trace_iff.mpr htag) List.mem_cons_self

/-- The local names and the values of attributes are met. -/
theorem ordinary_mem_stringsOf {tag : OpenTag} (htag : tag ∈ document.openTags)
    {attr : Option String × String × String} (hattr : attr ∈ tag.ordinary) :
    attr.2.1 ∈ stringsOf document ∧ attr.2.2 ∈ stringsOf document := by
  have hsteps : ∀ step ∈ attributeSteps attr, step.strings ⊆ stringsOf document := by
    -- every step at the attribute is one of the document
    intro step hstep s hs
    refine mem_stringsOf_of_event (start_mem_trace_iff.mpr htag)
      (List.mem_flatMap.mpr ⟨step, ?_, hs⟩)
    exact List.mem_append_right _ (List.mem_flatMap.mpr ⟨attr, hattr, hstep⟩)
  obtain ⟨qualifier, localName, value⟩ := attr
  cases qualifier with
  | none =>
    exact ⟨hsteps (.string localName) (by simp [attributeSteps]) List.mem_cons_self,
      hsteps (.string value) (by simp [attributeSteps]) List.mem_cons_self⟩
  | some qualifier =>
    exact ⟨hsteps (.string localName) (by simp [attributeSteps]) List.mem_cons_self,
      hsteps (.string value) (by simp [attributeSteps]) List.mem_cons_self⟩

theorem declared_mem_stringsOf {declared : String × String}
    (h : declared ∈ document.declarations) :
    declared.1 ∈ stringsOf document ∧ declared.2 ∈ stringsOf document :=
  ⟨mem_stringsOf_of_event (declaration_mem_trace h) List.mem_cons_self,
    mem_stringsOf_of_event (declaration_mem_trace h) (List.mem_cons_of_mem _ List.mem_cons_self)⟩

/-- A document that uses `xmlPrefix` has it bound. -/
theorem bindXml_mem_steps (h : document.UsesXml) : .bindXml ∈ steps document := by
  obtain ⟨tag, htag, ⟨qualifier, localName, value⟩, hattr, rfl⟩ := h
  refine List.mem_flatMap.mpr ⟨.start tag, start_mem_trace_iff.mpr htag, ?_⟩
  refine List.mem_append_right _ (List.mem_flatMap.mpr ⟨_, hattr, ?_⟩)
  rw [attributeSteps, if_pos rfl]
  exact List.mem_append_right _ List.mem_cons_self

theorem xmlNamespaceUri_mem_stringsOf (h : .bindXml ∈ steps document) :
    xmlNamespaceUri ∈ stringsOf document :=
  List.mem_flatMap.mpr ⟨.bindXml, h, List.mem_cons_self⟩

/-! ## The bindings -/

/-- A declaration with the places of its strings. -/
def bindingAt (place : String → UInt32) (declared : String × String) : String × Binding :=
  (declared.1, ⟨place declared.1, place declared.2⟩)

/-- The calls that the first walk makes on the bindings. -/
def callsOf (place : String → UInt32) (document : Document) : List NamespaceTable.Call :=
  (steps document).flatMap (Step.calls place)

/-- At the start of an element no binding is declared. Its declarations come behind it, one by
one. -/
theorem declare_not_mem_startSteps (tag : OpenTag) (name uri : String) :
    .declare name uri ∉ startSteps tag := by
  intro h
  rw [startSteps, List.cons_append, List.mem_cons, List.mem_append, List.mem_flatMap,
    List.mem_flatMap] at h
  -- the name, the declarations and the attributes only add strings
  rcases h with h | ⟨declared, -, h⟩ | ⟨⟨qualifier, localName, value⟩, -, h⟩
  · cases h
  · simp at h
  · cases qualifier with
    | none => simp [attributeSteps] at h
    | some qualifier =>
      rw [attributeSteps, List.mem_append] at h
      rcases h with h | h
      · simp at h
      · split at h <;> simp at h

/-- Each declaration is one call, and no other event makes one. -/
theorem declares_event (place : String → UInt32) (event : WalkEvent) :
    NamespaceTable.declares ((eventSteps event).flatMap (Step.calls place))
      = (event.declaration?.map (bindingAt place)).toList := by
  cases event with
  | start tag =>
    -- the declarations of an element are events of their own
    refine List.filterMap_eq_nil_iff.mpr fun call hcall => ?_
    obtain ⟨step, hstep, hcall⟩ := List.mem_flatMap.mp hcall
    cases step with
    | string s => cases hcall
    | declare name uri => exact absurd hstep (declare_not_mem_startSteps tag name uri)
    | bindXml =>
      obtain rfl := List.mem_singleton.mp hcall
      rfl
  | declaration name uri => rfl
  | finish name line => rfl

/-- The calls declare the declarations of the document, in order. -/
theorem declares_callsOf (place : String → UInt32) (document : Document) :
    NamespaceTable.declares (callsOf place document)
      = document.declarations.map (bindingAt place) := by
  rw [callsOf, steps, List.flatMap_assoc, ← document.filterMap_declaration?_trace,
    List.map_filterMap, List.filterMap_eq_flatMap_toList, NamespaceTable.declares,
    List.filterMap_flatMap]
  congr 1
  funext event
  exact declares_event place event

/-- `xmlPrefix` is bound to one place only. -/
theorem mem_xmlUris_callsOf {place : String → UInt32} {document : Document} {uri : UInt32} :
    uri ∈ NamespaceTable.xmlUris (callsOf place document) ↔
      .bindXml ∈ steps document ∧ uri = place xmlNamespaceUri := by
  constructor
  · intro h
    obtain ⟨call, hcall, hsome⟩ := List.mem_filterMap.mp h
    obtain ⟨step, hstep, hcall⟩ := List.mem_flatMap.mp hcall
    cases step with
    | string s => cases hcall
    | declare name uri =>
      obtain rfl := List.mem_singleton.mp hcall
      cases hsome
    | bindXml =>
      obtain rfl := List.mem_singleton.mp hcall
      cases hsome
      exact ⟨hstep, rfl⟩
  · rintro ⟨hstep, rfl⟩
    refine List.mem_filterMap.mpr ⟨.bindXml (place xmlNamespaceUri), ?_, rfl⟩
    exact List.mem_flatMap.mpr ⟨.bindXml, hstep, List.mem_cons_self⟩

/-- `xmlPrefix` is bound when an attribute uses it, and then to its own uri. -/
theorem xmlUri_bindingsOf (place : String → UInt32) (document : Document) :
    (bindingsOf place document).xmlUri
      = if .bindXml ∈ steps document then some (place xmlNamespaceUri) else none := by
  rw [bindingsOf, ← callsOf, NamespaceTable.xmlUri_run]
  -- however often it is bound, it is to the same place
  cases hlast : (NamespaceTable.xmlUris (callsOf place document)).getLast? with
  | none =>
    have hnil := List.getLast?_eq_none_iff.mp hlast
    rw [if_neg]
    intro hstep
    have hmem := mem_xmlUris_callsOf.mpr ⟨hstep, Eq.refl (place xmlNamespaceUri)⟩
    rw [hnil] at hmem
    cases hmem
  | some uri =>
    obtain ⟨hstep, rfl⟩ := mem_xmlUris_callsOf.mp (List.mem_of_getLast? hlast)
    rw [if_pos hstep]

/-- Prefixes are equal where their places are, so the table does not mix them up. -/
theorem coherent_declarations (h : collection encoding document = .ok collected) :
    NamespaceTable.Coherent (document.declarations.map (bindingAt collected.pool.place)) := by
  intro a ha b hb
  obtain ⟨declared, hdeclared, rfl⟩ := List.mem_map.mp ha
  obtain ⟨declared', hdeclared', rfl⟩ := List.mem_map.mp hb
  refine ⟨fun hname => congrArg collected.pool.place hname, fun hplace => ?_⟩
  exact place_injective h (declared_mem_stringsOf hdeclared).1
    (declared_mem_stringsOf hdeclared').1 hplace

/-- **The bindings are the declarations of the document without repeats**, by the places of their
strings. -/
theorem declared_of_collection (h : collection encoding document = .ok collected) :
    collected.namespaces.declared.toList
      = document.declarations.eraseDups.map (bindingAt collected.pool.place) := by
  have hcoherent := coherent_declarations h
  rw [← declares_callsOf] at hcoherent
  rw [(collection_eq_ok_iff.mp h).2, bindingsOf, ← callsOf,
    NamespaceTable.declared_run hcoherent, declares_callsOf, eraseDups_map]
  -- declarations at the same places are the same
  intro a ha b hb hequal
  obtain ⟨hname, hbinding⟩ := Prod.mk.inj hequal
  have huri := place_injective h (declared_mem_stringsOf ha).2 (declared_mem_stringsOf hb).2
    (Binding.mk.inj hbinding).2
  exact Prod.ext hname huri

/-- **A prefix is bound by its first declaration**, wherever in the document that stands. -/
theorem resolve_of_ne_xmlPrefix (h : collection encoding document = .ok collected) {name : String}
    (hname : name ≠ xmlPrefix) :
    collected.namespaces.resolve name
      = (document.declarations.find? (·.1 = name)).map fun declared =>
        collected.pool.place declared.2 := by
  have hcoherent := coherent_declarations h
  rw [← declares_callsOf] at hcoherent
  rw [(collection_eq_ok_iff.mp h).2, bindingsOf, ← callsOf,
    NamespaceTable.resolve_run hcoherent hname, declares_callsOf, List.find?_map, Option.map_map]
  rfl

/-- **The prefix `xmlPrefix` is bound to its own uri**, whatever the document declares. -/
theorem resolve_xmlPrefix (h : collection encoding document = .ok collected)
    (huses : document.UsesXml) :
    collected.namespaces.resolve xmlPrefix = some (collected.pool.place xmlNamespaceUri) := by
  rw [(collection_eq_ok_iff.mp h).2, NamespaceTable.resolve, if_pos rfl, xmlUri_bindingsOf,
    if_pos (bindXml_mem_steps huses)]

/-- Whatever a prefix is resolved to is the place of a string. -/
theorem exists_get?_of_resolve (h : collection encoding document = .ok collected) {name : String}
    {uri : UInt32} (hresolve : collected.namespaces.resolve name = some uri) :
    ∃ s, collected.pool.get? uri = some s := by
  by_cases hname : name = xmlPrefix
  · rw [(collection_eq_ok_iff.mp h).2, NamespaceTable.resolve, if_pos hname,
      xmlUri_bindingsOf] at hresolve
    split at hresolve
    · cases hresolve
      exact ⟨_, get?_place h (xmlNamespaceUri_mem_stringsOf ‹_›)⟩
    · cases hresolve
  · rw [resolve_of_ne_xmlPrefix h hname] at hresolve
    obtain ⟨declared, hfind, rfl⟩ := Option.map_eq_some_iff.mp hresolve
    exact ⟨_, get?_place h (declared_mem_stringsOf (List.mem_of_find?_eq_some hfind)).2⟩

end Compile

end BinaryXml
