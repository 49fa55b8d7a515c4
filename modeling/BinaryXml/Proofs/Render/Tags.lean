import BinaryXml.Render.Event
import BinaryXml.Proofs.Document.Names
import BinaryXml.Proofs.Except
import BinaryXml.Proofs.File.Forest

/-!
# The tags that a file is rendered as

When scopes open before the first tag and close behind the last, the tags are rendered one by one
with the same bindings, the first of them with the declarations (`renderOnto_of_renderTags`). Of the
declarations of one prefix the first is written (`exists_declarationsOnto`).
-/

namespace BinaryXml

/-- The name and the attributes of the tag that starts an element. -/
def RenderEvent.tag? : RenderEvent → Option (String × List (String × String))
  | .start name attributes => some (name, attributes)
  | .empty name attributes => some (name, attributes)
  | .finish _ => none
  | .text _ => none

namespace Render

/-- The tags written, in order. -/
def Rendering.tags (rendering : Rendering) : List (String × List (String × String)) :=
  rendering.events.filterMap RenderEvent.tag?

/-- The declarations in the tags written, as they are read back. -/
def Rendering.declarations (rendering : Rendering) : List (String × String) :=
  rendering.tags.flatMap fun (name, attributes) =>
    (OpenTag.ofElement name attributes 0).declarations

variable {lookUp : LookUp}

/-! ## Declarations -/

/-- A declaration as an attribute. -/
def keyed (declared : String × String) : String × String :=
  (declaredKey declared.1, declared.2)

/-- The binding is one of a prefix to a uri. -/
def Binds (lookUp : LookUp) (binding : ScopedBinding) (declared : String × String) : Prop :=
  declaredName lookUp binding.name = .ok (declaredKey declared.1) ∧
    lookUp binding.uri = .ok declared.2

/-- **The first declaration of a prefix is the one that is written.** -/
theorem exists_declarationsOnto {bindings : List ScopedBinding}
    {declared : List (String × String)} (h : List.Forall₂ (Binds lookUp) bindings declared)
    (done : List (String × String)) :
    ∃ written : List (String × String),
      declarationsOnto lookUp done bindings = .ok (done.reverse ++ written.map keyed) ∧
      ∀ key, (done.reverse ++ written.map keyed).find? (·.1 = key)
        = (done.reverse ++ declared.map keyed).find? (·.1 = key) := by
  induction h generalizing done with
  | nil => exact ⟨[], by rw [declarationsOnto, List.map_nil, List.append_nil], fun key => rfl⟩
  | @cons binding first bindings declared hbinds _ ih =>
    obtain ⟨hname, huri⟩ := hbinds
    rw [declarationsOnto, hname]
    dsimp only [bind, Except.bind]
    by_cases hdone : done.any (·.1 = declaredKey first.1) = true
    · obtain ⟨written, hwritten, hfind⟩ := ih done
      refine ⟨written, by rw [if_pos hdone, hwritten], fun key => ?_⟩
      rw [hfind, List.map_cons, List.find?_append, List.find?_append, List.find?_cons]
      by_cases hkey : (keyed first).1 = key
      · -- what is declared already is found before the repeat
        obtain ⟨earlier, hmem, hsame⟩ := List.any_eq_true.mp hdone
        have hfound : (done.reverse.find? (·.1 = key)).isSome = true :=
          List.find?_isSome.mpr ⟨earlier, List.mem_reverse.mpr hmem, hkey ▸ hsame⟩
        obtain ⟨found, hfound⟩ := Option.isSome_iff_exists.mp hfound
        rw [hfound, Option.some_or, Option.some_or]
      · rw [decide_eq_false hkey]
    · obtain ⟨written, hwritten, hfind⟩ := ih (keyed first :: done)
      refine ⟨first :: written, ?_, fun key => ?_⟩
      · rw [if_neg hdone, huri]
        simpa [keyed] using hwritten
      · simpa using hfind key

theorem keyed_injective : Function.Injective keyed := by
  rintro ⟨name, uri⟩ ⟨other, uri'⟩ h
  obtain ⟨hkey, huri⟩ := Prod.mk.inj h
  exact Prod.ext (AttributeRole.declaredKey_injective hkey) huri

/-- A prefix is declared by the attribute with its key. -/
theorem find?_map_keyed (declared : List (String × String)) (name : String) :
    (declared.map keyed).find? (·.1 = declaredKey name)
      = (declared.find? (·.1 = name)).map keyed := by
  rw [List.find?_map]
  congr 2
  funext d
  -- keys are equal when the prefixes are
  refine decide_eq_decide.mpr ⟨fun h => AttributeRole.declaredKey_injective h, fun h => ?_⟩
  rw [keyed, h]

/-- Declarations that are written as attributes are read back, ahead of those of the element. -/
theorem declarations_ofElement_keyed (name : String) (declared own : List (String × String)) :
    (OpenTag.ofElement name (declared.map keyed ++ own) 0).declarations
      = declared ++ (OpenTag.ofElement name own 0).declarations := by
  rw [OpenTag.declarations_ofElement, OpenTag.declarations_ofElement, List.filterMap_append,
    List.filterMap_map]
  congr 1
  refine Eq.trans (List.filterMap_congr fun d _ => ?_) List.filterMap_some
  rw [Function.comp_apply, keyed, AttributeRole.classify_declaredKey]

/-! ## One tag after the other -/

/-- The tags that start tags are rendered as. -/
def renderTags (lookUp : LookUp) (scopes : Scopes) :
    List StartTag → Except Error (List (String × List (String × String)))
  | [] => .ok []
  | tag :: rest => do
    let first ← renderStartTag lookUp scopes tag
    let others ← renderTags lookUp scopes.declared rest
    return first :: others

/-- Starts of scopes put their bindings ahead of the open ones and of the pending ones, the last
start first. -/
theorem renderOnto_startNamespace (done : List RenderEvent) (opened : List NamespaceScope)
    (rest : List Chunk) (scopes : Scopes) :
    renderOnto lookUp done scopes (opened.map .startNamespace ++ rest)
      = renderOnto lookUp done
        ⟨(opened.map fun scope => ⟨scope.name, scope.uri⟩).reverse ++ scopes.bindings,
          (opened.map fun scope => ⟨scope.name, scope.uri⟩).reverse ++ scopes.pending⟩ rest := by
  -- each start goes in front of what the starts before it have left
  induction opened generalizing scopes with
  | nil => rfl
  | cons scope others ih =>
    rw [List.map_cons, List.cons_append, renderOnto, ih]
    simp [Scopes.enter]

theorem renderOnto_endNamespace (done : List RenderEvent) (closed : List NamespaceScope)
    (scopes : Scopes) :
    renderOnto lookUp done scopes (closed.map .endNamespace) = ⟨done.reverse, none⟩ := by
  induction closed generalizing scopes with
  | nil => rfl
  | cons scope others ih => rw [List.map_cons, renderOnto, ih]

/-- A start tag that no end tag follows is written as a start. -/
theorem renderOnto_startTag {done : List RenderEvent} {scopes : Scopes} {tag : StartTag}
    {name : String} {attributes : List (String × String)} {rest : List Chunk}
    (htag : renderStartTag lookUp scopes tag = .ok (name, attributes))
    (hrest : ∀ finish others, rest ≠ .endTag finish :: others) :
    renderOnto lookUp done scopes (.startTag tag :: rest)
      = renderOnto lookUp (.start name attributes :: done) scopes.declared rest := by
  rw [renderOnto, htag]
  exact fun finish others h => hrest finish others h

/-- A tag, the one that ends it directly behind it among them, is one event. -/
theorem renderOnto_startTag_endTag {done : List RenderEvent} {scopes : Scopes} {tag : StartTag}
    {finish : EndTag} {name : String} {attributes : List (String × String)} {rest : List Chunk}
    (htag : renderStartTag lookUp scopes tag = .ok (name, attributes)) :
    renderOnto lookUp done scopes (.startTag tag :: .endTag finish :: rest)
      = renderOnto lookUp (.empty name attributes :: done) scopes.declared rest := by
  rw [renderOnto, htag]

/-- An end tag without a namespace is written with its name alone. -/
theorem renderOnto_endTag {done : List RenderEvent} {scopes : Scopes} {tag : EndTag}
    {name : String} {rest : List Chunk} (huri : tag.uri = none)
    (hname : lookUp tag.name = .ok name) :
    renderOnto lookUp done scopes (.endTag tag :: rest)
      = renderOnto lookUp (.finish name :: done) scopes rest := by
  have hqualified : qualifiedName lookUp scopes tag.uri tag.name = .ok name := by
    rw [huri, qualifiedName, hname]
    rfl
  rw [renderOnto, hqualified]

/-- Tags are written when the first is and the others are behind its declarations. -/
theorem renderTags_cons_eq_ok_iff {scopes : Scopes} {tag : StartTag} {rest : List StartTag}
    {written : List (String × List (String × String))} :
    renderTags lookUp scopes (tag :: rest) = .ok written ↔
      ∃ first others, renderStartTag lookUp scopes tag = .ok first ∧
        renderTags lookUp scopes.declared rest = .ok others ∧ written = first :: others := by
  rw [renderTags]
  simp only [bind_eq_ok_iff, pure_eq_ok_iff]
  constructor
  · rintro ⟨first, hfirst, others, hothers, rfl⟩
    exact ⟨first, others, hfirst, hothers, rfl⟩
  · rintro ⟨first, others, hfirst, hothers, rfl⟩
    exact ⟨first, hfirst, others, hothers, rfl⟩

/-- What holds of the chunks of a row of tags. -/
structure TagRow (lookUp : LookUp) (tags : List Chunk) : Prop where
  isTag : ∀ chunk ∈ tags, chunk.isTag = true
  endTag : ∀ tag, .endTag tag ∈ tags → tag.uri = none ∧ ∃ name, lookUp tag.name = .ok name

theorem TagRow.tail {chunk : Chunk} {rest : List Chunk} (h : TagRow lookUp (chunk :: rest)) :
    TagRow lookUp rest where
  isTag c hc := h.isTag c (List.mem_cons_of_mem _ hc)
  endTag tag htag := h.endTag tag (List.mem_cons_of_mem _ htag)

/-- **Tags are rendered one after the other.** When all the start tags can be rendered and the end
tags have names, nothing stops the rendering. -/
theorem renderOnto_of_renderTags (closed : List NamespaceScope) (tags : List Chunk)
    (done : List RenderEvent) {scopes : Scopes} {written : List (String × List (String × String))}
    (htags : TagRow lookUp tags)
    (hwritten : renderTags lookUp scopes (ChunkFile.startTags ⟨tags⟩) = .ok written) :
    ∃ events, renderOnto lookUp done scopes (tags ++ closed.map .endNamespace) = ⟨events, none⟩ ∧
      events.filterMap RenderEvent.tag? = done.reverse.filterMap RenderEvent.tag? ++ written := by
  match tags with
  | [] =>
    cases hwritten
    rw [List.nil_append, renderOnto_endNamespace, List.append_nil]
    exact ⟨_, rfl, rfl⟩
  | .endTag tag :: rest =>
    obtain ⟨huri, name, hname⟩ := htags.endTag tag List.mem_cons_self
    obtain ⟨events, hevents, hlist⟩ := renderOnto_of_renderTags closed rest
      (.finish name :: done) htags.tail hwritten
    rw [List.cons_append, renderOnto_endTag huri hname]
    refine ⟨events, hevents, ?_⟩
    rw [hlist, List.reverse_cons, List.filterMap_append]
    simp [RenderEvent.tag?]
  | .startTag tag :: rest =>
    obtain ⟨⟨name, attributes⟩, others, hfirst, hothers, rfl⟩ :=
      renderTags_cons_eq_ok_iff.mp hwritten
    by_cases hempty : ∃ finish behind, rest = .endTag finish :: behind
    · obtain ⟨finish, behind, rfl⟩ := hempty
      obtain ⟨events, hevents, hlist⟩ := renderOnto_of_renderTags closed behind
        (.empty name attributes :: done) htags.tail.tail hothers
      rw [List.cons_append, List.cons_append, renderOnto_startTag_endTag hfirst]
      refine ⟨events, hevents, ?_⟩
      rw [hlist, List.reverse_cons, List.filterMap_append]
      simp [RenderEvent.tag?]
    · obtain ⟨events, hevents, hlist⟩ := renderOnto_of_renderTags closed rest
        (.start name attributes :: done) htags.tail hothers
      rw [List.cons_append, renderOnto_startTag hfirst]
      · refine ⟨events, hevents, ?_⟩
        rw [hlist, List.reverse_cons, List.filterMap_append]
        simp [RenderEvent.tag?]
      · -- the scopes behind the tags are no end tags either
        intro finish behind hrest
        cases rest with
        | nil => cases closed <;> cases hrest
        | cons chunk rest =>
          obtain ⟨rfl, -⟩ := List.cons.inj hrest
          exact hempty ⟨finish, rest, rfl⟩
  | .stringPool _ :: _ | .resourceMap _ :: _ | .startNamespace _ :: _ | .endNamespace _ :: _
  | .characterData _ :: _ | .other _ :: _ => cases htags.isTag _ List.mem_cons_self
termination_by tags.length

end Render

end BinaryXml
