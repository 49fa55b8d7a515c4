import BinaryXml.Proofs.Compile.Rendering
import BinaryXml.Proofs.Compile.Sound
import BinaryXml.Proofs.Render.Lookups
import BinaryXml.Proofs.Render.Tree

/-!
# Rendering keeps the tree of a compiled file

A start tag and the end tag directly behind it are rendered as one empty tag, without a look at
their names. In a compiled file this is right: behind the start tag of an element comes the start
tag of the first element in it, or its own end tag (`buildAll_traceAll_cases`). So the events of a
compiled file are those of the document (`rendersTree_of_compile`), its first tag with the
declarations.
-/

namespace BinaryXml

open Render

/-- The file is rendered as the elements of the document. -/
structure ChunkFile.RendersTree (document : Document) (file : ChunkFile) : Prop where
  /-- Nothing stops the rendering. -/
  failure_eq : file.rendering.failure = none
  balanced : RenderEvent.Balanced file.rendering.events
  /-- The events are those of the document. The first tag has the declarations of the file ahead of
  its own attributes, and they are those of the document, of each prefix the first. -/
  events : ∃ (renamed : String → String) (declared : List (String × String)),
    file.rendering.events
        = (document.events renamed).modifyHead (RenderEvent.declaring (declared.map keyed)) ∧
      declarationsOnto (lookUp file.stringPool?) []
          (file.namespaces.map fun scope => ⟨scope.name, scope.uri⟩) = .ok (declared.map keyed) ∧
      ∀ name, declared.find? (·.1 = name) = document.declarations.find? (·.1 = name)

namespace Compile

variable {unbound : UnboundPolicy} {encoding : StringEncoding} {document : Document}
  {collected : Collection} {scopes : Scopes} {renamed : String → String}

/-! ## Single tags -/

/-- Every prefix that is resolved at all is written as another. -/
def Renames (unbound : UnboundPolicy) (collected : Collection) (scopes : Scopes)
    (renamed : String → String) : Prop :=
  ∀ element name uri, resolve unbound collected.namespaces element name = .ok uri →
    0 < collected.pool.size →
    qualifierOf (ChunkFile.lookUp (some collected.pool)) scopes uri = .ok (renamed name)

/-- Under either policy a prefix is resolved to the same index on every element. -/
theorem exists_renames (unbound : UnboundPolicy) (h : collection encoding document = .ok collected)
    (hscopes : Finds (ChunkFile.lookUp (some collected.pool)) scopes.refs) :
    ∃ renamed, Renames unbound collected scopes renamed := by
  refine ⟨fun name => ((qualifierOf (ChunkFile.lookUp (some collected.pool)) scopes
    ((collected.namespaces.resolve name).getD UnboundPolicy.sentinelIndex)).toOption).getD "", ?_⟩
  intro element name uri huri hsome
  have hindex : (collected.namespaces.resolve name).getD UnboundPolicy.sentinelIndex = uri := by
    -- a prefix that is bound nowhere has the sentinel on every element
    rcases resolve_eq_ok_iff.mp huri with hbound | ⟨hunbound, -, rfl⟩
    · rw [hbound, Option.getD_some]
    · rw [hunbound, Option.getD_none]
  have hlt : uri.toNat < collected.pool.strings.size := lt_size_of_resolve h hsome huri
  have hget : collected.pool.get? uri = some collected.pool.strings[uri.toNat] :=
    Array.getElem?_eq_getElem hlt
  obtain ⟨qualifier, hqualifier⟩ := exists_qualifierOf hscopes
    (List.forall_mem_singleton.mpr ⟨_, ChunkFile.lookUp_eq_ok hget⟩)
  dsimp only
  rw [hindex, hqualifier]
  rfl

/-- A built attribute is written as the attribute that it is built of, up to its prefix. -/
theorem renderAttribute_of_build (hpool : collected.pool.WellFormed)
    (hrenames : Renames unbound collected scopes renamed) {element : String}
    {ordinary : Option String × String × String} {attr : Attribute}
    (h : buildAttribute unbound collected element ordinary = .ok attr) :
    renderAttribute (ChunkFile.lookUp (some collected.pool)) scopes attr
      = .ok (writtenAttribute renamed ordinary) := by
  obtain ⟨qualifier, localName, value⟩ := ordinary
  obtain ⟨uri, valueIndex, nameIndex, huri, hvalue, hname, rfl⟩ := buildAttribute_eq_ok_iff.mp h
  have hgetValue := hpool.get?_of_indexOf? hvalue
  have hlookName := ChunkFile.lookUp_eq_ok (hpool.get?_of_indexOf? hname)
  have hlookValue := ChunkFile.lookUp_eq_ok hgetValue
  -- a name without a namespace is written bare
  have hqualified : qualifiedName (ChunkFile.lookUp (some collected.pool)) scopes uri nameIndex
      = .ok (writtenAttribute renamed (qualifier, localName, value)).1 := by
    rw [qualifiedName, hlookName]
    cases qualifier with
    | none =>
      cases huri
      rfl
    | some name =>
      obtain ⟨found, hfound, rfl⟩ := map_eq_ok_iff.mp huri
      -- the pool holds the value at least
      have hsome : 0 < collected.pool.size :=
        Nat.zero_lt_of_lt (StringPool.lt_size_of_get? hgetValue)
      dsimp only [bind, Except.bind]
      rw [hrenames element name found hfound hsome]
      rfl
  have hwritten : attributeValue (ChunkFile.lookUp (some collected.pool))
      ⟨uri, nameIndex, some valueIndex, .string valueIndex⟩ = .ok value := hlookValue
  rw [renderAttribute, hqualified, hwritten]
  cases qualifier <;> rfl

/-- A built start tag is written with the name and the attributes of its element, behind what is to
be declared. -/
theorem renderStartTag_of_build (hpool : collected.pool.WellFormed)
    (hrenames : Renames unbound collected scopes renamed) {tag : OpenTag} {built : StartTag}
    (h : buildStartTag unbound collected tag = .ok built) {declared : List (String × String)}
    (hdeclared : declarations (ChunkFile.lookUp (some collected.pool)) scopes = .ok declared) :
    renderStartTag (ChunkFile.lookUp (some collected.pool)) scopes built
      = .ok (tag.name, declared ++ tag.written renamed) := by
  obtain ⟨attributes, name, hattributes, -, hname, rfl⟩ := buildStartTag_eq_ok_iff.mp h
  have hrendered : attributes.mapM (renderAttribute (ChunkFile.lookUp (some collected.pool)) scopes)
      = .ok (tag.written renamed) := by
    rw [mapM_eq_ok_iff, OpenTag.written, List.forall₂_map_right_iff]
    exact hattributes.flip.imp fun made attr hmade => renderAttribute_of_build hpool hrenames hmade
  rw [renderStartTag, qualifiedName, ChunkFile.lookUp_eq_ok (hpool.get?_of_indexOf? hname),
    hdeclared, hrendered]
  rfl

/-! ## The tree -/

/-- Nodes without elements among them are built into nothing, others into tags of which the first is
a start tag. -/
theorem buildAll_traceAll_cases {nodes : List Node} {chunks : List Chunk}
    (h : buildAll unbound collected (traceAll nodes) = .ok chunks) :
    nodes.any Node.isElement = false ∧ chunks = [] ∨
      nodes.any Node.isElement = true ∧ ∃ tag rest, chunks = .startTag tag :: rest := by
  induction nodes generalizing chunks with
  | nil =>
    cases h
    exact .inl ⟨rfl, rfl⟩
  | cons node nodes ih =>
    cases node with
    | element name attributes children line =>
      obtain ⟨front, back, hfront, -, rfl⟩ := buildAll_append_eq_ok_iff.mp h
      obtain ⟨built, inner, index, -, -, -, rfl⟩ := buildAll_element_eq_ok_iff.mp hfront
      exact .inr ⟨rfl, built, _, rfl⟩
    | text content => exact ih h
    | comment content => exact ih h

/-- An element is rendered as its events when its children are. It makes what declarations there are
to make and leaves none to the elements in it. -/
theorem renderOnto_of_buildAll_element (hpool : collected.pool.WellFormed)
    (hrenames : Renames unbound collected scopes renamed) {declared : List (String × String)}
    (hdeclared : declarations (ChunkFile.lookUp (some collected.pool)) scopes = .ok declared)
    {name : String} {attributes : List (String × String)} {children : List Node} {line : UInt32}
    (hchildren : ∀ {inner}, buildAll unbound collected (traceAll children) = .ok inner →
      ∀ done rest,
        renderOnto (ChunkFile.lookUp (some collected.pool)) done scopes.declared (inner ++ rest)
          = renderOnto (ChunkFile.lookUp (some collected.pool))
              ((eventsAll renamed children).reverse ++ done) scopes.declared rest)
    {chunks : List Chunk}
    (h : buildAll unbound collected (Node.element name attributes children line).trace = .ok chunks)
    (done : List RenderEvent) (rest : List Chunk) :
    renderOnto (ChunkFile.lookUp (some collected.pool)) done scopes (chunks ++ rest)
      = renderOnto (ChunkFile.lookUp (some collected.pool))
          ((((Node.element name attributes children line).events renamed).modifyHead
            (RenderEvent.declaring declared)).reverse ++ done) scopes.declared rest := by
  obtain ⟨built, inner, index, hbuilt, hinner, hindex, rfl⟩ := buildAll_element_eq_ok_iff.mp h
  have hstart := renderStartTag_of_build hpool hrenames hbuilt hdeclared
  have hname := ChunkFile.lookUp_eq_ok (hpool.get?_of_indexOf? hindex)
  have hfirst := hchildren hinner
  rw [Node.events]
  -- what stands behind the start tag decides whether it takes the end tag along
  rcases buildAll_traceAll_cases hinner with ⟨hnone, rfl⟩ | ⟨hsome, tag, others, rfl⟩
  · rw [if_neg (by rw [hnone]; decide)]
    exact renderOnto_startTag_endTag hstart
  · have hmore : ∀ finish behind, .startTag tag :: others
        ++ ([.endTag ⟨line, none, none, index⟩] ++ rest) ≠ .endTag finish :: behind := nofun
    rw [if_pos hsome, List.append_assoc, List.cons_append, renderOnto_startTag hstart hmore, hfirst,
      List.singleton_append, renderOnto_endTag rfl hname]
    simp [RenderEvent.declaring, OpenTag.ofElement]

mutual

/-- Once the declarations are made, the tags of a node are rendered as its events. -/
theorem renderOnto_of_buildAll_trace (hpool : collected.pool.WellFormed)
    (hrenames : Renames unbound collected scopes renamed) : ∀ (node : Node) {chunks : List Chunk},
    buildAll unbound collected node.trace = .ok chunks → ∀ done rest,
    renderOnto (ChunkFile.lookUp (some collected.pool)) done scopes.declared (chunks ++ rest)
      = renderOnto (ChunkFile.lookUp (some collected.pool)) ((node.events renamed).reverse ++ done)
          scopes.declared rest
  | .element name attributes children line, chunks, h, done, rest => by
    have hbare : (Node.element name attributes children line).events renamed
        = ((Node.element name attributes children line).events renamed).modifyHead
          (RenderEvent.declaring []) := by
      rw [funext RenderEvent.declaring_nil]
      exact congrFun List.modifyHead_id.symm _
    -- with nothing left to declare, the same prefixes are found
    have hdone : declarations (ChunkFile.lookUp (some collected.pool)) scopes.declared = .ok [] :=
      rfl
    have hsettled : Renames unbound collected scopes.declared renamed := hrenames
    have helement := renderOnto_of_buildAll_element hpool hsettled hdone
      (renderOnto_of_buildAll_traceAll hpool hrenames children) h done rest
    rw [hbare]
    exact helement
  | .text _, chunks, h, done, rest => by
    cases h
    rfl
  | .comment _, chunks, h, done, rest => by
    cases h
    rfl

/-- The same for nodes in a row. -/
theorem renderOnto_of_buildAll_traceAll (hpool : collected.pool.WellFormed)
    (hrenames : Renames unbound collected scopes renamed) :
    ∀ (nodes : List Node) {chunks : List Chunk},
    buildAll unbound collected (traceAll nodes) = .ok chunks → ∀ done rest,
    renderOnto (ChunkFile.lookUp (some collected.pool)) done scopes.declared (chunks ++ rest)
      = renderOnto (ChunkFile.lookUp (some collected.pool))
          ((eventsAll renamed nodes).reverse ++ done) scopes.declared rest
  | [], chunks, h, done, rest => by
    cases h
    rfl
  | node :: nodes, chunks, h, done, rest => by
    rw [traceAll] at h
    obtain ⟨front, back, hfront, hback, rfl⟩ := buildAll_append_eq_ok_iff.mp h
    rw [List.append_assoc, renderOnto_of_buildAll_trace hpool hrenames node hfront,
      renderOnto_of_buildAll_traceAll hpool hrenames nodes hback, eventsAll, List.reverse_append,
      List.append_assoc]

end

/-- **The tags of a document are rendered as its events**, the first of them with the declarations.
-/
theorem renderOnto_of_buildAll (hpool : collected.pool.WellFormed)
    (hrenames : Renames unbound collected scopes renamed) {declared : List (String × String)}
    (hdeclared : declarations (ChunkFile.lookUp (some collected.pool)) scopes = .ok declared)
    {nodes : List Node} {chunks : List Chunk}
    (h : buildAll unbound collected (traceAll nodes) = .ok chunks) (closed : List NamespaceScope) :
    renderOnto (ChunkFile.lookUp (some collected.pool)) [] scopes
        (chunks ++ closed.map .endNamespace)
      = ⟨(eventsAll renamed nodes).modifyHead (RenderEvent.declaring declared), none⟩ := by
  induction nodes generalizing chunks with
  | nil =>
    cases h
    exact renderOnto_endNamespace [] closed scopes
  | cons node nodes ih =>
    cases node with
    | text content => exact ih h
    | comment content => exact ih h
    | element name attributes children line =>
      rw [traceAll] at h
      obtain ⟨front, back, hfront, hback, rfl⟩ := buildAll_append_eq_ok_iff.mp h
      rw [List.append_assoc, renderOnto_of_buildAll_element hpool hrenames hdeclared
          (renderOnto_of_buildAll_traceAll hpool hrenames children) hfront,
        renderOnto_of_buildAll_traceAll hpool hrenames nodes hback, renderOnto_endNamespace,
        eventsAll]
      -- the element has an event, which is the first of all
      have hhead : ∀ events : List RenderEvent,
          ((Node.element name attributes children line).events renamed ++ events).modifyHead
              (RenderEvent.declaring declared)
            = ((Node.element name attributes children line).events renamed).modifyHead
              (RenderEvent.declaring declared) ++ events := by
        intro events
        rw [Node.events]
        split <;> rfl
      rw [hhead]
      simp

/-! ## The file -/

/-- The strings of the scopes ahead of the first tag are those of declarations, so they are
there. -/
theorem finds_refs_openScopes (h : collection encoding document = .ok collected) :
    Finds (ChunkFile.lookUp (some collected.pool))
      (openScopes collected.pool.place document).refs := by
  have hboth : ∀ binding ∈ (scopedBindings collected.pool.place document).reverse,
      Finds (ChunkFile.lookUp (some collected.pool)) binding.refs := by
    intro binding hbinding
    obtain ⟨declared, hdeclared, rfl⟩ := List.mem_map.mp (List.mem_reverse.mp hbinding)
    obtain ⟨hname, huri⟩ := declared_mem_stringsOf (List.mem_eraseDups.mp hdeclared)
    exact List.forall_mem_cons.mpr ⟨⟨_, ChunkFile.lookUp_eq_ok (get?_place h hname)⟩,
      List.forall_mem_singleton.mpr ⟨_, ChunkFile.lookUp_eq_ok (get?_place h huri)⟩⟩
  exact finds_refs_iff.mpr ⟨hboth, hboth⟩

/-- The scopes that a file starts are those of its bindings. -/
theorem namespaces_assemble {tags : List Chunk} (htags : ∀ chunk ∈ tags, chunk.isTag = true) :
    (assemble collected tags.toArray).namespaces = collected.namespaces.bindings.map scopeOf := by
  have hstarts : ∀ scopes : List NamespaceScope,
      ChunkFile.namespaces ⟨scopes.map .startNamespace⟩ = scopes := by
    intro scopes
    rw [ChunkFile.namespaces, List.filterMap_map]
    exact List.filterMap_some
  have hends : ∀ scopes : List NamespaceScope,
      ChunkFile.namespaces ⟨scopes.map .endNamespace⟩ = [] := by
    intro scopes
    rw [ChunkFile.namespaces, List.filterMap_map]
    exact List.filterMap_eq_nil_iff.mpr fun scope _ => rfl
  have hnone : ChunkFile.namespaces ⟨tags⟩ = [] := by
    -- no tag starts a scope
    refine List.filterMap_eq_nil_iff.mpr fun chunk hchunk => ?_
    have htag := htags chunk hchunk
    cases chunk <;> first | rfl | cases htag
  rw [ChunkFile.namespaces] at hnone
  rw [ChunkFile.namespaces, assemble, List.filterMap_append, List.filterMap_append, hnone,
    List.filterMap_cons]
  show ChunkFile.namespaces ⟨_⟩ ++ [] ++ ChunkFile.namespaces ⟨_⟩ = _
  rw [hstarts, hends, List.append_nil, List.append_nil]

/-- **Rendering keeps the tree of a compiled file.** The events are balanced and are the elements of
the document, each attribute under its local name, alone or behind a prefix; only the first tag has
the declarations, ahead of its own attributes. -/
theorem rendersTree_of_compile {options : Options} {file : ChunkFile}
    (h : compile options document = .ok file) : file.RendersTree document := by
  obtain ⟨collected, chunks, hcollected, hchunks, rfl⟩ := compile_eq_ok_iff.mp h
  obtain ⟨renamed, hrenames⟩ :=
    exists_renames options.unbound hcollected (finds_refs_openScopes hcollected)
  obtain ⟨declared, hdeclared, hfind⟩ := exists_declarations_openScopes hcollected
  -- what stands behind the tags is the ends of the scopes, which write nothing
  have hrendering : (assemble collected chunks.toArray).rendering
      = ⟨(document.events renamed).modifyHead (RenderEvent.declaring (declared.map keyed)),
          none⟩ := by
    rw [rendering_assemble hcollected]
    exact renderOnto_of_buildAll (built_of_collection hcollected).wellFormed hrenames hdeclared
      hchunks _
  refine ⟨by rw [hrendering], ?_, renamed, declared, by rw [hrendering], ?_, hfind⟩
  · rw [hrendering]
    exact document.balanced_events.modifyHead _
  · rw [namespaces_assemble (isTag_of_buildAll hchunks), bindings_scopeOf hcollected]
    rw [declarations, openScopes, List.reverse_reverse] at hdeclared
    exact hdeclared

/-- The head tag has the declarations and then its own attributes, and the two elements in it, one
with a comment and one with nothing, are empty tags. -/
theorem rendersTree_of_compile_nested :
    ∃ file, compile { unbound := .sentinel } nested = .ok file ∧ file.RendersTree nested ∧
      ∃ (renamed : String → String) (declared : List (String × String)),
        file.rendering.events =
          [.start "a" (declared.map keyed ++ [(qualify (renamed "p") "k", "v"),
              (qualify (renamed "xml") "lang", "en"), (qualify (renamed "q") "k", "v"),
              ("n", "v")]),
            .empty "b" [], .empty "b" [], .finish "a"] := by
  obtain ⟨file, hfile⟩ := exists_compile_nested
  have hrenders := rendersTree_of_compile hfile
  obtain ⟨renamed, declared, hevents, -⟩ := hrenders.events
  exact ⟨file, hfile, hrenders, renamed, declared, hevents⟩

end Compile

end BinaryXml
