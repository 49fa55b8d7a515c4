import BinaryXml.Proofs.Chunk.Alike
import BinaryXml.Proofs.Render.Lookups
import BinaryXml.Proofs.Render.Tags

/-!
# What documents that differ in string indices are rendered as

Names, values, texts and declarations are written as strings, but a namespace is matched with the
scopes around it by its index. So two documents that are alike are rendered with the same events up
to the prefixes of names, and with the same text when equal indices of namespaces stand for equal
ones (`rendering_of_alike`). A pool with a repeat can keep a scope and a name in its namespace apart
(`toXml_ne_of_alike`).
-/

namespace BinaryXml

open Render

/-- The names are of one local name, each behind a prefix or alone. -/
def NamesAlike (name other : String) : Prop :=
  ∃ qualifier qualifier' localName, name = qualify qualifier localName ∧
    other = qualify qualifier' localName

/-- Events that agree in everything but the prefixes of names. -/
inductive RenderEvent.Alike : RenderEvent → RenderEvent → Prop where
  | start {name other : String} {own others : List (String × String)}
      (hname : NamesAlike name other) (declared : List (String × String))
      (hown : List.Forall₂ (fun a b => NamesAlike a.1 b.1 ∧ a.2 = b.2) own others) :
      Alike (.start name (declared ++ own)) (.start other (declared ++ others))
  | empty {name other : String} {own others : List (String × String)}
      (hname : NamesAlike name other) (declared : List (String × String))
      (hown : List.Forall₂ (fun a b => NamesAlike a.1 b.1 ∧ a.2 = b.2) own others) :
      Alike (.empty name (declared ++ own)) (.empty other (declared ++ others))
  | finish {name other : String} (hname : NamesAlike name other) :
      Alike (.finish name) (.finish other)
  | text (content : String) : Alike (.text content) (.text content)

namespace Render

/-! ## Related lists -/

section

variable {α β : Type} {R : α → β → Prop} {l : List α} {l' : List β}

/-- Searches that ask related elements the same find related ones, or both nothing. -/
theorem rel_find? {p : α → Bool} {p' : β → Bool} (h : List.Forall₂ R l l')
    (hp : ∀ a b, R a b → p a = p' b) : Option.Rel R (l.find? p) (l'.find? p') := by
  induction h with
  | nil => exact .none
  | @cons a b l l' hab _ ih =>
    rw [List.find?_cons, List.find?_cons, hp a b hab]
    cases p' b with
    | true => exact .some hab
    | false => exact ih

/-- Where a relation pairs the one with the other only, related lists stay so without the two. -/
theorem rel_erase [DecidableEq α] [DecidableEq β] {x : α} {y : β} (h : List.Forall₂ R l l')
    (hxy : ∀ a b, R a b → (a = x ↔ b = y)) : List.Forall₂ R (l.erase x) (l'.erase y) := by
  induction h with
  | nil => exact .nil
  | @cons a b l l' hab hrest ih =>
    have heq := hxy a b hab
    by_cases hx : a = x
    · rw [hx, heq.mp hx, List.erase_cons_head, List.erase_cons_head]
      exact hrest
    · rw [List.erase_cons_tail (by simpa using hx),
        List.erase_cons_tail (by simpa using fun hy => hx (heq.mpr hy))]
      exact .cons hab ih

end

/-! ## Two renderings side by side -/

variable {lookUp lookUp' : LookUp} {scopes scopes' : Scopes}

/-- A string that two indices share is found by both. -/
theorem exists_lookUp_of_same {i j : UInt32} (h : SameString lookUp lookUp' i j) :
    (∃ s, lookUp i = .ok s) ∧ ∃ s, lookUp' j = .ok s := by
  obtain ⟨s, hi, hj⟩ := h
  exact ⟨⟨s, hi⟩, ⟨s, hj⟩⟩

theorem finds_toList_of_rel {index other : Option UInt32}
    (h : Option.Rel (SameString lookUp lookUp') index other) :
    Finds lookUp index.toList ∧ Finds lookUp' other.toList := by
  cases h with
  | none => exact ⟨List.forall_mem_nil _, List.forall_mem_nil _⟩
  | some h =>
    obtain ⟨hleft, hright⟩ := exists_lookUp_of_same h
    exact ⟨List.forall_mem_singleton.mpr hleft, List.forall_mem_singleton.mpr hright⟩

/-- The bindings are of one prefix and one uri. -/
def SameBinding (lookUp lookUp' : LookUp) (binding other : ScopedBinding) : Prop :=
  Option.Rel (SameString lookUp lookUp') binding.name other.name ∧
    SameString lookUp lookUp' binding.uri other.uri

/-- What two renderings have to agree in, to be in step. Under the condition `c` the bindings are
related by `uris` and `bound`, which relate indices one to one. -/
structure InStep (c : Prop) (uris : UInt32 → UInt32 → Prop)
    (bound : ScopedBinding → ScopedBinding → Prop) (lookUp lookUp' : LookUp)
    (scopes scopes' : Scopes) : Prop where
  finds : Finds lookUp scopes.refs
  finds' : Finds lookUp' scopes'.refs
  pending : List.Forall₂ (SameBinding lookUp lookUp') scopes.pending scopes'.pending
  bindings : c → List.Forall₂ (fun b b' => SameBinding lookUp lookUp' b b' ∧ uris b.uri b'.uri ∧
    bound b b') scopes.bindings scopes'.bindings

variable {c : Prop} {uris : UInt32 → UInt32 → Prop} {bound : ScopedBinding → ScopedBinding → Prop}

/-! ### Scopes -/

theorem SameBinding.finds {binding other : ScopedBinding}
    (h : SameBinding lookUp lookUp' binding other) :
    Finds lookUp binding.refs ∧ Finds lookUp' other.refs := by
  obtain ⟨hname, hname'⟩ := finds_toList_of_rel h.1
  obtain ⟨huri, huri'⟩ := exists_lookUp_of_same h.2
  exact ⟨finds_append_iff.mpr ⟨hname, List.forall_mem_singleton.mpr huri⟩,
    finds_append_iff.mpr ⟨hname', List.forall_mem_singleton.mpr huri'⟩⟩

theorem InStep.empty : InStep c uris bound lookUp lookUp' {} {} :=
  ⟨finds_refs_empty, finds_refs_empty, .nil, fun _ => .nil⟩

theorem InStep.enter (h : InStep c uris bound lookUp lookUp' scopes scopes')
    {binding other : ScopedBinding} (hsame : SameBinding lookUp lookUp' binding other)
    (huris : uris binding.uri other.uri) (hbound : bound binding other) :
    InStep c uris bound lookUp lookUp' (scopes.enter binding) (scopes'.enter other) where
  finds := finds_refs_enter h.finds hsame.finds.1
  finds' := finds_refs_enter h.finds' hsame.finds.2
  pending := .cons hsame h.pending
  bindings hc := .cons ⟨hsame, huris, hbound⟩ (h.bindings hc)

/-- Two renderings stay in step when scopes end that are bound to each other. This is where a
binding has to have one counterpart only. -/
theorem InStep.leave (hone : c → Relator.BiUnique bound)
    (h : InStep c uris bound lookUp lookUp' scopes scopes') {binding other : ScopedBinding}
    (hbound : bound binding other) :
    InStep c uris bound lookUp lookUp' (scopes.leave binding) (scopes'.leave other) where
  finds := finds_refs_leave h.finds binding
  finds' := finds_refs_leave h.finds' other
  pending := h.pending
  -- the same scope is closed on both sides
  bindings hc := rel_erase (h.bindings hc) fun _ _ hb => Relator.rel_eq (hone hc) hb.2.2 hbound

theorem InStep.declared (h : InStep c uris bound lookUp lookUp' scopes scopes') :
    InStep c uris bound lookUp lookUp' scopes.declared scopes'.declared where
  finds := finds_refs_declared h.finds
  finds' := finds_refs_declared h.finds'
  pending := .nil
  bindings := h.bindings

/-! ### Names and values -/

/-- Where the open scopes are related one to one, the same one is the innermost of a uri. -/
theorem qualifierOf_congr (hone : Relator.BiUnique uris)
    (h : List.Forall₂ (fun b b' => SameBinding lookUp lookUp' b b' ∧ uris b.uri b'.uri ∧ bound b b')
      scopes.bindings scopes'.bindings) {i j : UInt32} (hsame : SameString lookUp lookUp' i j)
    (huris : uris i j) : qualifierOf lookUp scopes i = qualifierOf lookUp' scopes' j := by
  -- the search stops at the same place on both sides
  have hfind : Option.Rel _ (scopes.bindings.find? (·.uri = i))
      (scopes'.bindings.find? (·.uri = j)) :=
    rel_find? h fun b b' hb => decide_eq_decide.mpr (Relator.rel_eq hone hb.2.1 huris)
  -- without an open scope the uri itself decides
  have hnone : (do let uri ← lookUp i; return if uri = xmlNamespaceUri then xmlPrefix else "")
      = (do let uri ← lookUp' j; return if uri = xmlNamespaceUri then xmlPrefix else "") := by
    rw [hsame.lookUp_eq]
  have hprefix : Option.Rel (SameString lookUp lookUp') (scopes.prefixFor? i)
      (scopes'.prefixFor? j) := by
    unfold Scopes.prefixFor?
    generalize scopes.bindings.find? _ = found, scopes'.bindings.find? _ = found' at hfind
    cases hfind with
    | none => exact .none
    | some hb => exact hb.1.1
  unfold qualifierOf
  generalize scopes.prefixFor? i = index, scopes'.prefixFor? j = index' at hprefix
  cases hprefix with
  | none => exact hnone
  | some hname => exact hname.lookUp_eq

/-- A name gets the same local part on both sides, and the same prefix if uris correspond one to
one. -/
theorem exists_qualifiedName_of_inStep (hone : c → Relator.BiUnique uris)
    (h : InStep c uris bound lookUp lookUp' scopes scopes') {uri uri' : Option UInt32}
    {name name' : UInt32} (huri : Option.Rel (SameString lookUp lookUp') uri uri')
    (huris : ∀ p ∈ uri.toList.zip uri'.toList, uris p.1 p.2)
    (hname : SameString lookUp lookUp' name name') :
    ∃ written written', qualifiedName lookUp scopes uri name = .ok written ∧
      qualifiedName lookUp' scopes' uri' name' = .ok written' ∧
      NamesAlike written written' ∧ (c → written = written') := by
  obtain ⟨localName, hlocal, hlocal'⟩ := hname
  unfold qualifiedName
  rw [hlocal, hlocal']
  cases huri with
  | none => exact ⟨localName, localName, rfl, rfl, ⟨"", "", localName, rfl, rfl⟩, fun _ => rfl⟩
  | @some i j hij =>
    obtain ⟨hi, hj⟩ := exists_lookUp_of_same hij
    obtain ⟨qualifier, hqualifier⟩ := exists_qualifierOf h.finds (List.forall_mem_singleton.mpr hi)
    obtain ⟨qualifier', hqualifier'⟩ :=
      exists_qualifierOf h.finds' (List.forall_mem_singleton.mpr hj)
    refine ⟨qualify qualifier localName, qualify qualifier' localName, ?_, ?_,
      ⟨qualifier, qualifier', localName, rfl, rfl⟩, fun hc => ?_⟩
    · show (do let qualifier ← qualifierOf lookUp scopes i; return _) = _
      rw [hqualifier]
      rfl
    · show (do let qualifier ← qualifierOf lookUp' scopes' j; return _) = _
      rw [hqualifier']
      rfl
    · -- only here the condition is used: it makes the two prefixes one
      have hequal := qualifierOf_congr (hone hc) (h.bindings hc) hij (huris _ List.mem_cons_self)
      rw [hqualifier, hqualifier', Except.ok.injEq] at hequal
      rw [hequal]

theorem declaredName_congr {name other : Option UInt32}
    (h : Option.Rel (SameString lookUp lookUp') name other) :
    declaredName lookUp name = declaredName lookUp' other := by
  cases h with
  | none => rfl
  | some h => rw [declaredName, declaredName, h.lookUp_eq]

/-- Bindings that are the same are declared by the same attributes. No index is compared here, so
this needs no correspondence of uris. -/
theorem declarationsOnto_congr {bindings others : List ScopedBinding}
    (h : List.Forall₂ (SameBinding lookUp lookUp') bindings others)
    (done : List (String × String)) :
    declarationsOnto lookUp done bindings = declarationsOnto lookUp' done others := by
  induction h generalizing done with
  | nil => rfl
  | @cons binding other bindings others hsame _ ih =>
    obtain ⟨hname, huri⟩ := hsame
    rw [declarationsOnto, declarationsOnto, declaredName_congr hname, huri.lookUp_eq]
    simp only [ih]

/-- Two renderings in step make the same declarations. -/
theorem exists_declarations_of_inStep (h : InStep c uris bound lookUp lookUp' scopes scopes') :
    ∃ declared, declarations lookUp scopes = .ok declared ∧
      declarations lookUp' scopes' = .ok declared := by
  have hpending : ∀ binding ∈ scopes.pending.reverse, Finds lookUp binding.refs := fun b hb =>
    (finds_refs_iff.mp h.finds).2 b (List.mem_reverse.mp hb)
  obtain ⟨declared, hdeclared⟩ := exists_declarationsOnto_of_finds hpending []
  refine ⟨declared, hdeclared, ?_⟩
  rw [declarations, ← declarationsOnto_congr (List.forall₂_reverse_iff.mpr h.pending)]
  exact hdeclared

/-- Attributes that are alike have one value as text. -/
theorem exists_attributeValue_of_alike {attr other : Attribute}
    (h : attr.Alike (SameString lookUp lookUp') other) :
    ∃ value, attributeValue lookUp attr = .ok value ∧ attributeValue lookUp' other = .ok value := by
  obtain ⟨uri, name, rawValue, value⟩ := attr
  obtain ⟨uri', name', rawValue', value'⟩ := other
  obtain ⟨-, -, hraw, hvalue⟩ := h
  unfold attributeValue
  dsimp only at hraw hvalue ⊢
  -- a raw text takes precedence over the typed value
  cases hraw with
  | some hraw => exact hraw
  | none =>
    cases hvalue with
    | string hvalue => exact hvalue
    | plain hplain =>
      rw [hplain]
      exact ⟨_, rfl, rfl⟩

/-- Attributes that agree in everything but the prefixes of their names, and in these under the
condition. -/
def AttributesInStep (c : Prop) (own others : List (String × String)) : Prop :=
  List.Forall₂ (fun a b => NamesAlike a.1 b.1 ∧ a.2 = b.2) own others ∧ (c → own = others)

/-- The attributes of two tags are written in step. -/
theorem exists_mapM_renderAttribute_of_inStep (hone : c → Relator.BiUnique uris)
    (h : InStep c uris bound lookUp lookUp' scopes scopes') {attributes others : List Attribute}
    (hattributes : List.Forall₂ (fun attr other => attr.Alike (SameString lookUp lookUp') other ∧
      ∀ p ∈ attr.uri.toList.zip other.uri.toList, uris p.1 p.2) attributes others) :
    ∃ own own', attributes.mapM (renderAttribute lookUp scopes) = .ok own ∧
      others.mapM (renderAttribute lookUp' scopes') = .ok own' ∧ AttributesInStep c own own' := by
  induction hattributes with
  | nil => exact ⟨[], [], rfl, rfl, .nil, fun _ => rfl⟩
  | @cons attr other attributes others hattr _ ih =>
    obtain ⟨halike, huris⟩ := hattr
    obtain ⟨own, own', hown, hown', hall, hequal⟩ := ih
    obtain ⟨name, name', hname, hname', hnames, hsame⟩ :=
      exists_qualifiedName_of_inStep hone h halike.uri huris halike.name
    obtain ⟨value, hvalue, hvalue'⟩ := exists_attributeValue_of_alike halike
    refine ⟨(name, value) :: own, (name', value) :: own', ?_, ?_, .cons ⟨hnames, rfl⟩ hall,
      fun hc => by rw [hsame hc, hequal hc]⟩
    · rw [List.mapM_cons, renderAttribute, hname, hvalue, hown]
      rfl
    · rw [List.mapM_cons, renderAttribute, hname', hvalue', hown']
      rfl

/-- Two start tags are written in step, with the same declarations. -/
theorem exists_renderStartTag_of_inStep (hone : c → Relator.BiUnique uris)
    (h : InStep c uris bound lookUp lookUp' scopes scopes') {tag other : StartTag}
    (halike : tag.Alike (SameString lookUp lookUp') other)
    (huris : ∀ p ∈ (Chunk.startTag tag).uriRefs.zip (Chunk.startTag other).uriRefs,
      uris p.1 p.2) :
    ∃ name name' declared own own',
      renderStartTag lookUp scopes tag = .ok (name, declared ++ own) ∧
      renderStartTag lookUp' scopes' other = .ok (name', declared ++ own') ∧
      NamesAlike name name' ∧ (c → name = name') ∧ AttributesInStep c own own' := by
  rw [Chunk.uriRefs, Chunk.uriRefs, List.zip_append (length_toList_of_rel halike.uri),
    List.forall_mem_append] at huris
  obtain ⟨name, name', hname, hname', hnames, hsame⟩ :=
    exists_qualifiedName_of_inStep hone h halike.uri huris.1 halike.name
  obtain ⟨declared, hdeclared, hdeclared'⟩ := exists_declarations_of_inStep h
  obtain ⟨own, own', hown, hown', hstep⟩ := exists_mapM_renderAttribute_of_inStep hone h
    (forall₂_zip_of_flatMap halike.attributes (fun _ _ ha => length_toList_of_rel ha.uri) huris.2)
  refine ⟨name, name', declared, own, own', ?_, ?_, hnames, hsame, hstep⟩
  · rw [renderStartTag, hname, hdeclared, hown]
    rfl
  · rw [renderStartTag, hname', hdeclared', hown']
    rfl

/-! ### Chunks -/

/-- The chunks are alike, and what they match namespaces by is related. -/
structure Linked (lookUp lookUp' : LookUp) (uris : UInt32 → UInt32 → Prop)
    (bound : ScopedBinding → ScopedBinding → Prop) (chunk other : Chunk) : Prop where
  alike : chunk.Alike (SameString lookUp lookUp') other
  uris : ∀ p ∈ chunk.uriRefs.zip other.uriRefs, uris p.1 p.2
  bound : ∀ p ∈ chunk.bindingRefs.zip other.bindingRefs, bound p.1 p.2

/-- Events that agree in everything but the prefixes of names, and in these under the condition. -/
def EventInStep (c : Prop) (event other : RenderEvent) : Prop :=
  event.Alike other ∧ (c → event = other)

/-- **Two renderings stay in step.** -/
theorem renderOnto_inStep (huris : c → Relator.BiUnique uris) (hbound : c → Relator.BiUnique bound)
    {chunks others : List Chunk} (h : List.Forall₂ (Linked lookUp lookUp' uris bound) chunks others)
    {scopes scopes' : Scopes} (hscopes : InStep c uris bound lookUp lookUp' scopes scopes')
    {done done' : List RenderEvent} (hdone : List.Forall₂ (EventInStep c) done done') :
    ∃ events events', renderOnto lookUp done scopes chunks = ⟨events, none⟩ ∧
      renderOnto lookUp' done' scopes' others = ⟨events', none⟩ ∧
      List.Forall₂ (EventInStep c) events events' := by
  cases h with
  | nil => exact ⟨_, _, rfl, rfl, List.forall₂_reverse_iff.mpr hdone⟩
  | @cons _ _ rest rest' hchunk hrest =>
  obtain ⟨halike, hu, hb⟩ := hchunk
  cases halike with
  | startNamespace hscope =>
    rw [renderOnto, renderOnto]
    exact renderOnto_inStep huris hbound hrest (hscopes.enter ⟨hscope.name, hscope.uri⟩
      (hu _ List.mem_cons_self) (hb _ List.mem_cons_self)) hdone
  | endNamespace hscope =>
    rw [renderOnto, renderOnto]
    exact renderOnto_inStep huris hbound hrest
      (hscopes.leave hbound (hb _ List.mem_cons_self)) hdone
  | startTag htag =>
    obtain ⟨name, name', declared, own, own', hstart, hstart', hnames, hsame, hown, hequal⟩ :=
      exists_renderStartTag_of_inStep huris hscopes htag hu
    by_cases hempty : ∃ finish behind, rest = .endTag finish :: behind
    · -- the other tag has an end tag behind it as well
      obtain ⟨finish, behind, rfl⟩ := hempty
      cases hrest with | cons hnext hbehind =>
      obtain ⟨hend, -, -⟩ := hnext
      cases hend
      rw [renderOnto_startTag_endTag hstart, renderOnto_startTag_endTag hstart']
      exact renderOnto_inStep huris hbound hbehind hscopes.declared
        (.cons ⟨.empty hnames declared hown, fun hc => by rw [hsame hc, hequal hc]⟩ hdone)
    · have hnot : ∀ finish behind, rest ≠ .endTag finish :: behind := fun finish behind hend =>
        hempty ⟨finish, behind, hend⟩
      have hnot' : ∀ finish behind, rest' ≠ .endTag finish :: behind := by
        rintro finish behind rfl
        cases hrest with | cons hnext _ =>
        obtain ⟨hend, -, -⟩ := hnext
        cases hend
        exact hnot _ _ rfl
      rw [renderOnto_startTag hstart hnot, renderOnto_startTag hstart' hnot']
      exact renderOnto_inStep huris hbound hrest hscopes.declared
        (.cons ⟨.start hnames declared hown, fun hc => by rw [hsame hc, hequal hc]⟩ hdone)
  | endTag htag =>
    obtain ⟨name, name', hname, hname', hnames, hsame⟩ :=
      exists_qualifiedName_of_inStep huris hscopes htag.uri hu htag.name
    rw [renderOnto, renderOnto, hname, hname']
    exact renderOnto_inStep huris hbound hrest hscopes
      (.cons ⟨.finish hnames, fun hc => by rw [hsame hc]⟩ hdone)
  | characterData hdata =>
    obtain ⟨content, hcontent, hcontent'⟩ := hdata.data
    rw [renderOnto, renderOnto, hcontent, hcontent']
    exact renderOnto_inStep huris hbound hrest hscopes (.cons ⟨.text content, fun _ => rfl⟩ hdone)
  -- chunks of the other kinds are passed over
  | stringPool pool other => exact renderOnto_inStep huris hbound hrest hscopes hdone
  | resourceMap ids => exact renderOnto_inStep huris hbound hrest hscopes hdone
  | other chunk => exact renderOnto_inStep huris hbound hrest hscopes hdone
termination_by chunks.length

end Render

/-! ## Documents -/

variable {file other : ChunkFile}

/-- The chunks of two documents are linked by the pairs of references that stand at equal places in
the two. -/
theorem linked_of_alike (h : file.Alike other) :
    List.Forall₂ (Linked file.string other.string
        (fun i j => (i, j) ∈ file.uriRefs.zip other.uriRefs)
        fun b b' => (b, b') ∈ file.bindingRefs.zip other.bindingRefs)
      file.chunks other.chunks := by
  -- pair the uris first, then the bindings of the chunks so paired
  have huris := forall₂_zip_of_flatMap h (fun _ _ => Chunk.Alike.length_uriRefs_eq)
    (S := (· ∈ file.uriRefs.zip other.uriRefs)) fun _ hp => hp
  have hboth := forall₂_zip_of_flatMap huris (fun _ _ ha => ha.1.length_bindingRefs_eq)
    (S := (· ∈ file.bindingRefs.zip other.bindingRefs)) fun _ hp => hp
  exact hboth.imp fun _ _ ha => ⟨ha.1.1, ha.1.2, ha.2⟩

/-- **What documents that differ in string indices are rendered as.** Nothing stops either
rendering, and the events agree in everything but the prefixes of names. Where the uris and the
bindings of the two correspond one to one, the texts are the same. -/
theorem rendering_of_alike (h : file.Alike other) :
    (file.rendering.failure = none ∧ other.rendering.failure = none ∧
      List.Forall₂ RenderEvent.Alike file.rendering.events other.rendering.events) ∧
    (OneToOne file.uriRefs other.uriRefs → OneToOne file.bindingRefs other.bindingRefs →
      ∃ text, file.toXml = .ok text ∧ other.toXml = .ok text) := by
  obtain ⟨events, events', hevents, hevents', hall⟩ := renderOnto_inStep
    (c := OneToOne file.uriRefs other.uriRefs ∧ OneToOne file.bindingRefs other.bindingRefs)
    (fun hc => hc.1.biUnique) (fun hc => hc.2.biUnique) (linked_of_alike h) InStep.empty .nil
  have hrendering : file.rendering = ⟨events, none⟩ := hevents
  have hrendering' : other.rendering = ⟨events', none⟩ := hevents'
  constructor
  · rw [hrendering, hrendering']
    exact ⟨rfl, rfl, hall.imp fun _ _ hevent => hevent.1⟩
  · intro huris hbound
    -- under the condition the events are not only alike but equal
    have hequal : List.Forall₂ Eq events events' :=
      hall.imp fun _ _ hevent => hevent.2 ⟨huris, hbound⟩
    rw [List.forall₂_eq_eq_eq] at hequal
    subst hequal
    rw [ChunkFile.toXml, ChunkFile.toXml, hrendering, hrendering']
    exact ⟨_, rfl, rfl⟩

/-! ## A repeat in the pool -/

/-- A pool that holds a uri twice, as one that is read from bytes may. -/
def repeatedUri : StringPool where
  encoding := .utf8
  strings := #["A", "a", "u", "x", "1", "u"]
  offsets := #[0, 4, 8, 12, 16, 20]
  firstIndex := [("A", 0), ("a", 1), ("u", 2), ("x", 3), ("1", 4), ("u", 5)].foldl
    (fun indices (s, index) => indices.insertIfNew s index) ∅
  dataSize := 24

theorem built_repeatedUri : repeatedUri.Built :=
  .append (.append (.append (.append (.append (.append (.empty .utf8)
    (show StringPool.append "A" _ = .ok (0, _) from rfl))
    (show StringPool.append "a" _ = .ok (1, _) from rfl))
    (show StringPool.append "u" _ = .ok (2, _) from rfl))
    (show StringPool.append "x" _ = .ok (3, _) from rfl))
    (show StringPool.append "1" _ = .ok (4, _) from rfl))
    (show StringPool.append "u" _ = .ok (5, _) from rfl)

/-- An element with an attribute in a namespace. The scope has one index of the uri and the
attribute another. -/
def inNamespace (bound used : UInt32) : ChunkFile where
  chunks := [
    .stringPool repeatedUri,
    .startNamespace ⟨1, none, some 1, bound⟩,
    .startTag ⟨1, none, none, 0, [⟨some used, 3, some 4, .string 4⟩], 0, 0, 0⟩,
    .endTag ⟨1, none, none, 0⟩,
    .endNamespace ⟨1, none, some 1, bound⟩]

/-- Whatever the indices of the uri are, the documents are alike when these are indices of it. -/
theorem alike_inNamespace {bound used bound' used' : UInt32}
    (hbound : SameString (inNamespace bound used).string (inNamespace bound' used').string
      bound bound')
    (hused : SameString (inNamespace bound used).string (inNamespace bound' used').string
      used used') :
    (inNamespace bound used).Alike (inNamespace bound' used') := by
  have hscope : NamespaceScope.Alike
      (SameString (inNamespace bound used).string (inNamespace bound' used').string)
      ⟨1, none, some 1, bound⟩ ⟨1, none, some 1, bound'⟩ :=
    ⟨rfl, .none, .some ⟨"a", rfl, rfl⟩, hbound⟩
  have hattr : Attribute.Alike
      (SameString (inNamespace bound used).string (inNamespace bound' used').string)
      ⟨some used, 3, some 4, .string 4⟩ ⟨some used', 3, some 4, .string 4⟩ :=
    ⟨.some hused, ⟨"x", rfl, rfl⟩, .some ⟨"1", rfl, rfl⟩, .string ⟨"1", rfl, rfl⟩⟩
  exact .cons (.stringPool _ _) <| .cons (.startNamespace hscope) <|
    .cons (.startTag ⟨rfl, .none, .none, ⟨"A", rfl, rfl⟩, .cons hattr .nil, rfl, rfl, rfl⟩) <|
    .cons (.endTag ⟨rfl, .none, .none, ⟨"A", rfl, rfl⟩⟩) <| .cons (.endNamespace hscope) .nil

/-- The uri has one index in each document, another in the second, and the texts are the same. -/
theorem rendering_of_alike_inNamespace :
    (inNamespace 2 2).Alike (inNamespace 5 5) ∧
      OneToOne (inNamespace 2 2).uriRefs (inNamespace 5 5).uriRefs ∧
      OneToOne (inNamespace 2 2).bindingRefs (inNamespace 5 5).bindingRefs ∧
      ∃ text, (inNamespace 2 2).toXml = .ok text ∧ (inNamespace 5 5).toXml = .ok text := by
  have halike : (inNamespace 2 2).Alike (inNamespace 5 5) :=
    alike_inNamespace ⟨"u", rfl, rfl⟩ ⟨"u", rfl, rfl⟩
  have huris : OneToOne (inNamespace 2 2).uriRefs (inNamespace 5 5).uriRefs := by decide
  have hbound : OneToOne (inNamespace 2 2).bindingRefs (inNamespace 5 5).bindingRefs := by decide
  exact ⟨halike, huris, hbound, (rendering_of_alike halike).2 huris hbound⟩

/-- **A repeat in the pool can cost a prefix.** The documents are valid and alike, and the one whose
scope and attribute have different indices of the uri writes the attribute without the prefix. -/
theorem toXml_ne_of_alike :
    repeatedUri.Built ∧ (inNamespace 2 2).validate = .ok () ∧
      (inNamespace 2 5).validate = .ok () ∧ (inNamespace 2 2).Alike (inNamespace 2 5) ∧
      (inNamespace 2 2).toXml ≠ (inNamespace 2 5).toXml := by
  refine ⟨built_repeatedUri, rfl, rfl, alike_inNamespace ⟨"u", rfl, rfl⟩ ⟨"u", rfl, rfl⟩, ?_⟩
  decide +kernel

end BinaryXml
