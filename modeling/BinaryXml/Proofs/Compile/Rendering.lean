import BinaryXml.Proofs.Compile.Hoisting
import BinaryXml.Proofs.Render.Tags
import Mathlib.Data.List.Find

/-!
# What a compiled file is rendered as

Nothing stops the rendering of a compiled file. Its first tag declares the prefixes of the document,
and an attribute in a namespace is written with the prefix of the *last* declaration of its uri
(`rendering_of_compile`).
-/

namespace BinaryXml

/-- The uri that a prefix is bound to by the first of its declarations; `xmlPrefix` is bound to its
own uri. -/
def uriAmong? (declarations : List (String × String)) (name : String) : Option String :=
  if name = xmlPrefix then some xmlNamespaceUri
  else (declarations.find? (·.1 = name)).map (·.2)

/-- The prefix that stands for a uri once the document is compiled: that of the last declaration of
the uri which is no repeat. -/
def Document.prefixOf (document : Document) (uri : String) : String :=
  match document.declarations.eraseDups.reverse.find? (·.2 = uri) with
  | some declared => declared.1
  | none => if uri = xmlNamespaceUri then xmlPrefix else ""

/-- The attribute is written with the prefix that stands for its namespace, or without one. -/
structure Attribute.WrittenAs (document : Document) (pool : StringPool) (attr : Attribute)
    (written : String × String) : Prop where
  bare : attr.uri = none →
    AttributeRole.classify written.1 written.2 = .ordinary none written.1 written.2
  qualified : ∀ index, attr.uri = some index → ∃ localName uri,
    pool.get? attr.name = some localName ∧ pool.get? index = some uri ∧
      written.1 = Render.qualify (document.prefixOf uri) localName

theorem ChunkFile.lookUp_eq_ok {pool : StringPool} {index : UInt32} {s : String}
    (h : pool.get? index = some s) : lookUp (some pool) index = .ok s := by
  rw [lookUp, h]

namespace Compile

open Render

variable {encoding : StringEncoding} {document : Document} {collected : Collection}

/-! ## What is written -/

/-- The bindings of the scopes that a compiled file opens. -/
def scopedBindings (place : String → UInt32) (document : Document) : List ScopedBinding :=
  document.declarations.eraseDups.map fun declared => ⟨some (place declared.1), place declared.2⟩

/-- The scopes that are opened bind the declarations of the document without their repeats. -/
theorem bindings_scopeOf (h : collection encoding document = .ok collected) :
    (collected.namespaces.bindings.map scopeOf).map
        (fun scope => (⟨scope.name, scope.uri⟩ : ScopedBinding))
      = scopedBindings collected.pool.place document := by
  rw [NamespaceTable.bindings, declared_of_collection h, List.map_map, List.map_map, List.map_map]
  rfl

/-- Under the policy `reject` every prefix is bound to the uri of its attribute. -/
theorem exists_uri_of_buildAttribute (h : collection encoding document = .ok collected)
    {tag : OpenTag} (htag : tag ∈ document.openTags) {attr : Option String × String × String}
    (hattr : attr ∈ tag.ordinary) {built : Attribute}
    (hbuilt : buildAttribute .reject collected tag.name attr = .ok built) :
    built.name = collected.pool.place attr.2.1 ∧
      built.rawValue = some (collected.pool.place attr.2.2) ∧
      (attr.1 = none ∧ built.uri = none ∨
        ∃ name uri, attr.1 = some name ∧ uriAmong? document.declarations name = some uri ∧
          uri ∈ stringsOf document ∧ built.uri = some (collected.pool.place uri)) := by
  obtain ⟨qualifier, localName, value⟩ := attr
  have hstrings := ordinary_mem_stringsOf htag hattr
  obtain ⟨uri, valueIndex, nameIndex, huri, hvalue, hname, rfl⟩ :=
    buildAttribute_eq_ok_iff.mp hbuilt
  rw [indexOf?_eq_place h hstrings.2] at hvalue
  rw [indexOf?_eq_place h hstrings.1] at hname
  cases hvalue
  cases hname
  refine ⟨rfl, rfl, ?_⟩
  cases qualifier with
  | none =>
    cases huri
    exact .inl ⟨rfl, rfl⟩
  | some name =>
    obtain ⟨index, hindex, rfl⟩ := map_eq_ok_iff.mp huri
    refine .inr ⟨name, ?_⟩
    -- under this policy the table has resolved the prefix
    rcases resolve_eq_ok_iff.mp hindex with hresolve | ⟨-, hsentinel, -⟩
    · by_cases hxml : name = xmlPrefix
      · subst hxml
        have huses : document.UsesXml := ⟨tag, htag, _, hattr, rfl⟩
        rw [resolve_xmlPrefix h huses] at hresolve
        cases hresolve
        exact ⟨_, rfl, if_pos rfl, xmlNamespaceUri_mem_stringsOf (bindXml_mem_steps huses), rfl⟩
      · rw [resolve_of_ne_xmlPrefix h hxml] at hresolve
        obtain ⟨declared, hfind, rfl⟩ := Option.map_eq_some_iff.mp hresolve
        refine ⟨declared.2, rfl, ?_, ?_, rfl⟩
        · rw [uriAmong?, if_neg hxml, hfind, Option.map_some]
        · exact (declared_mem_stringsOf (List.mem_of_find?_eq_some hfind)).2
    · cases hsentinel

/-- The innermost scope of a uri is that of its last declaration. -/
theorem qualifierOf_place (h : collection encoding document = .ok collected) {scopes : Scopes}
    (hscopes : scopes.bindings = (scopedBindings collected.pool.place document).reverse)
    {uri : String} (huri : uri ∈ stringsOf document) :
    qualifierOf (ChunkFile.lookUp (some collected.pool)) scopes (collected.pool.place uri)
      = .ok (document.prefixOf uri) := by
  have hdeclared : ∀ declared ∈ document.declarations.eraseDups.reverse,
      declared ∈ document.declarations := fun declared hmem =>
    List.mem_eraseDups.mp (List.mem_reverse.mp hmem)
  have hprefix : scopes.prefixFor? (collected.pool.place uri)
      = (document.declarations.eraseDups.reverse.find? (·.2 = uri)).map
        fun declared => collected.pool.place declared.1 := by
    -- places are equal where the uris are, so both searches stop at one declaration
    have hfind : document.declarations.eraseDups.reverse.find?
          (fun declared => collected.pool.place declared.2 = collected.pool.place uri)
        = document.declarations.eraseDups.reverse.find? (·.2 = uri) := by
      refine List.find?_congr fun declared hmem => decide_eq_decide.mpr ⟨fun hplace => ?_, ?_⟩
      · exact place_injective h (declared_mem_stringsOf (hdeclared declared hmem)).2 huri hplace
      · exact congrArg collected.pool.place
    rw [Scopes.prefixFor?, hscopes, scopedBindings, ← List.map_reverse, List.find?_map, ← hfind,
      Option.bind_map, Option.map_eq_bind]
    rfl
  rw [qualifierOf, hprefix, Document.prefixOf]
  cases hlast : document.declarations.eraseDups.reverse.find? (·.2 = uri) with
  | none =>
    rw [Option.map_none, ChunkFile.lookUp_eq_ok (get?_place h huri)]
    rfl
  | some declared =>
    have hmem := hdeclared declared (List.mem_of_find?_eq_some hlast)
    exact ChunkFile.lookUp_eq_ok (get?_place h (declared_mem_stringsOf hmem).1)

/-- The local name of an attribute without a prefix is its whole name. -/
theorem classify_of_mem_ordinary {tag : OpenTag} (htag : tag ∈ document.openTags)
    {localName value : String} (hattr : (none, localName, value) ∈ tag.ordinary) :
    AttributeRole.classify localName value = .ordinary none localName value := by
  obtain ⟨name, attributes, line, rfl⟩ := exists_ofElement_of_mem_openTagsAll htag
  rw [OpenTag.ordinary_ofElement] at hattr
  obtain ⟨written, -, hsome⟩ := List.mem_filterMap.mp hattr
  split at hsome
  · rename_i hclassify
    cases hsome
    obtain ⟨rfl, rfl⟩ := AttributeRole.eq_of_classify_eq_ordinary_none hclassify
    exact hclassify
  · cases hsome

/-- A built attribute is written with the prefix that stands for its namespace. -/
theorem exists_renderAttribute (h : collection encoding document = .ok collected)
    {tag : OpenTag} (htag : tag ∈ document.openTags) {attr : Option String × String × String}
    (hattr : attr ∈ tag.ordinary) {built : Attribute}
    (hbuilt : buildAttribute .reject collected tag.name attr = .ok built) {scopes : Scopes}
    (hscopes : scopes.bindings = (scopedBindings collected.pool.place document).reverse) :
    ∃ written, renderAttribute (ChunkFile.lookUp (some collected.pool)) scopes built = .ok written ∧
      built.WrittenAs document collected.pool written := by
  obtain ⟨qualifier, localName, value⟩ := attr
  have hstrings := ordinary_mem_stringsOf htag hattr
  have hlocal := get?_place h hstrings.1
  obtain ⟨hname, hraw, huri⟩ := exists_uri_of_buildAttribute h htag hattr hbuilt
  have hvalue : attributeValue (ChunkFile.lookUp (some collected.pool)) built = .ok value := by
    rw [attributeValue, hraw]
    exact ChunkFile.lookUp_eq_ok (get?_place h hstrings.2)
  rw [renderAttribute, hvalue, qualifiedName, hname, ChunkFile.lookUp_eq_ok hlocal]
  -- without a namespace the local name stands alone
  rcases huri with ⟨rfl, hnone⟩ | ⟨name, uri, rfl, -, hmem, hsome⟩
  · rw [hnone]
    refine ⟨(localName, value), rfl, fun _ => classify_of_mem_ordinary htag hattr, ?_⟩
    intro index hindex
    rw [hnone] at hindex
    cases hindex
  · rw [hsome]
    dsimp only [bind, Except.bind]
    rw [qualifierOf_place h hscopes hmem]
    refine ⟨(qualify (document.prefixOf uri) localName, value), rfl, fun hnone => ?_, ?_⟩
    · rw [hsome] at hnone
      cases hnone
    · intro index hindex
      rw [hsome] at hindex
      cases hindex
      exact ⟨localName, uri, hname ▸ hlocal, get?_place h hmem, rfl⟩

/-- The attributes are written as a start tag has them, behind the declarations. -/
def WritesAttributes (document : Document) (pool : StringPool) (tag : StartTag)
    (written : String × List (String × String)) : Prop :=
  ∃ declared own, written.2 = declared ++ own ∧
    List.Forall₂ (Attribute.WrittenAs document pool) tag.attributes own

/-- A built start tag is written with its attributes behind what is to be declared. -/
theorem exists_renderStartTag (h : collection encoding document = .ok collected)
    {tag : OpenTag} (htag : tag ∈ document.openTags) {built : StartTag}
    (hbuilt : buildStartTag .reject collected tag = .ok built) {scopes : Scopes}
    (hscopes : scopes.bindings = (scopedBindings collected.pool.place document).reverse)
    {declared : List (String × String)}
    (hdeclared : declarations (ChunkFile.lookUp (some collected.pool)) scopes = .ok declared) :
    ∃ name own,
      renderStartTag (ChunkFile.lookUp (some collected.pool)) scopes built
        = .ok (name, declared ++ own) ∧
      List.Forall₂ (Attribute.WrittenAs document collected.pool) built.attributes own := by
  obtain ⟨attributes, name, hattributes, -, hname, rfl⟩ := buildStartTag_eq_ok_iff.mp hbuilt
  rw [indexOf?_eq_place h (name_mem_stringsOf htag)] at hname
  cases hname
  obtain ⟨own, hown⟩ : ∃ own, List.Forall₂ (fun attr written =>
      renderAttribute (ChunkFile.lookUp (some collected.pool)) scopes attr = .ok written ∧
        attr.WrittenAs document collected.pool written) attributes own := by
    refine exists_forall₂_of_forall fun attr hattr => ?_
    obtain ⟨ordinary, hordinary, hmade⟩ := exists_mem_left_of_forall₂ hattributes attr hattr
    exact exists_renderAttribute h htag hordinary hmade hscopes
  have hrendered := mapM_eq_ok_iff.mpr (hown.imp fun _ _ hboth => hboth.1)
  refine ⟨tag.name, own, ?_, hown.imp fun _ _ hboth => hboth.2⟩
  rw [renderStartTag, qualifiedName,
    ChunkFile.lookUp_eq_ok (get?_place h (name_mem_stringsOf htag)), hdeclared, hrendered]
  rfl

/-- All the start tags can be rendered. The first of them makes the declarations. -/
theorem exists_renderTags (h : collection encoding document = .ok collected)
    {built : List StartTag} (hbuilt : ∀ b ∈ built, ∃ tag ∈ document.openTags,
      buildStartTag .reject collected tag = .ok b) {scopes : Scopes}
    (hscopes : scopes.bindings = (scopedBindings collected.pool.place document).reverse)
    {declared : List (String × String)}
    (hdeclared : declarations (ChunkFile.lookUp (some collected.pool)) scopes = .ok declared) :
    ∃ written, renderTags (ChunkFile.lookUp (some collected.pool)) scopes built = .ok written ∧
      List.Forall₂ (WritesAttributes document collected.pool) built written ∧
      ∀ first ∈ written.head?, ∃ own, first.2 = declared ++ own := by
  induction built generalizing scopes declared with
  | nil => exact ⟨[], rfl, .nil, fun first hfirst => nomatch hfirst⟩
  | cons b rest ih =>
    rw [List.forall_mem_cons] at hbuilt
    obtain ⟨⟨tag, htag, hb⟩, hrest⟩ := hbuilt
    obtain ⟨name, own, hwritten, hown⟩ := exists_renderStartTag h htag hb hscopes hdeclared
    -- the others find the same scopes open and have nothing to declare
    have hopen : scopes.declared.bindings
        = (scopedBindings collected.pool.place document).reverse := hscopes
    have hdone : declarations (ChunkFile.lookUp (some collected.pool)) scopes.declared = .ok [] :=
      rfl
    obtain ⟨others, hothers, hforall, -⟩ := ih hrest hopen hdone
    refine ⟨(name, declared ++ own) :: others,
      renderTags_cons_eq_ok_iff.mpr ⟨_, others, hwritten, hothers, rfl⟩,
      .cons ⟨declared, own, rfl, hown⟩ hforall, ?_⟩
    rintro _ ⟨⟩
    exact ⟨own, rfl⟩

/-! ## The rendering of a compiled file -/

theorem binds_scopedBindings (h : collection encoding document = .ok collected) :
    List.Forall₂ (Binds (ChunkFile.lookUp (some collected.pool)))
      (scopedBindings collected.pool.place document) document.declarations.eraseDups := by
  rw [scopedBindings, List.forall₂_map_left_iff, List.forall₂_same]
  intro declared hdeclared
  obtain ⟨hname, huri⟩ := declared_mem_stringsOf (List.mem_eraseDups.mp hdeclared)
  refine ⟨?_, ChunkFile.lookUp_eq_ok (get?_place h huri)⟩
  rw [declaredName, ChunkFile.lookUp_eq_ok (get?_place h hname)]
  rfl

/-- The tags that are built are a row of tags, the ends with names that are found. -/
theorem tagRow_of_buildAll (h : collection encoding document = .ok collected)
    {unbound : UnboundPolicy} {events : List WalkEvent} {chunks : List Chunk}
    (hchunks : buildAll unbound collected events = .ok chunks) :
    TagRow (ChunkFile.lookUp (some collected.pool)) chunks where
  isTag := isTag_of_buildAll hchunks
  endTag tag htag := by
    rcases eq_startTag_or_endTag_of_mem hchunks htag with
      ⟨_, _, -, htag⟩ | ⟨name, line, index, hindex, htag⟩
    · cases htag
    · cases htag
      have hget := (built_of_collection h).wellFormed.get?_of_indexOf? hindex
      exact ⟨rfl, name, ChunkFile.lookUp_eq_ok hget⟩

/-- Read back from the first tag, a prefix of the document is bound as it is in the document. -/
theorem uriAmong?_declarations {rendering : Rendering} {written own : List (String × String)}
    {name : String} {others : List (String × List (String × String))}
    (htags : rendering.tags = (name, written.map keyed ++ own) :: others)
    (hfind : ∀ key, written.find? (·.1 = key) = document.declarations.find? (·.1 = key))
    {bound : String} (hbound : Bound document bound) :
    uriAmong? rendering.declarations bound = uriAmong? document.declarations bound := by
  unfold uriAmong?
  by_cases hxml : bound = xmlPrefix
  · rw [if_pos hxml, if_pos hxml]
  · rw [if_neg hxml, if_neg hxml]
    obtain ⟨declared, hdeclared, hname⟩ := hbound.resolve_left hxml
    -- the first tag declares the prefix, so the search ends there
    have hsome : (document.declarations.find? (·.1 = bound)).isSome = true :=
      List.find?_isSome.mpr ⟨declared, hdeclared, decide_eq_true hname⟩
    obtain ⟨found, hfound⟩ := Option.isSome_iff_exists.mp hsome
    rw [Rendering.declarations, htags, List.flatMap_cons]
    dsimp only
    rw [declarations_ofElement_keyed, List.append_assoc, List.find?_append, hfind, hfound,
      Option.some_or]

/-- The scopes that are open when the tags of a compiled file come, none of them declared. -/
def openScopes (place : String → UInt32) (document : Document) : Scopes :=
  ⟨(scopedBindings place document).reverse, (scopedBindings place document).reverse⟩

/-- Every scope is open when the tags come, and stays open until they are through. -/
theorem rendering_assemble (h : collection encoding document = .ok collected)
    (chunks : List Chunk) :
    (assemble collected chunks.toArray).rendering
      = renderOnto (ChunkFile.lookUp (some collected.pool)) []
          (openScopes collected.pool.place document)
          (chunks ++ (collected.namespaces.bindings.map scopeOf).reverse.map .endNamespace) := by
  show renderOnto (ChunkFile.lookUp (some collected.pool)) [] {}
    ((collected.namespaces.bindings.map scopeOf).map .startNamespace ++ chunks
      ++ (collected.namespaces.bindings.map scopeOf).reverse.map .endNamespace) = _
  rw [List.append_assoc, renderOnto_startNamespace, bindings_scopeOf h, List.append_nil]
  rfl

/-- What is declared first binds every prefix as the document does. -/
theorem exists_declarations_openScopes (h : collection encoding document = .ok collected) :
    ∃ written : List (String × String), declarations (ChunkFile.lookUp (some collected.pool))
        (openScopes collected.pool.place document) = .ok (written.map keyed) ∧
      ∀ name, written.find? (·.1 = name) = document.declarations.find? (·.1 = name) := by
  obtain ⟨written, hwritten, hfind⟩ := exists_declarationsOnto (binds_scopedBindings h) []
  refine ⟨written, ?_, fun name => ?_⟩
  · rw [declarations, openScopes, List.reverse_reverse, hwritten]
    rfl
  · have hkey := hfind (declaredKey name)
    rw [List.reverse_nil, List.nil_append, List.nil_append, find?_map_keyed,
      find?_map_keyed] at hkey
    rw [Option.map_injective keyed_injective hkey, find?_eraseDups]

/-- **What a compiled file is rendered as**: nothing stops the rendering, the attributes of every
tag are written with the prefixes that stand for their namespaces, and the prefixes of the document
are declared as they are there. -/
theorem rendering_of_compile {options : Options} {file : ChunkFile}
    (hreject : options.unbound = .reject) (h : compile options document = .ok file) :
    ∃ pool, file.stringPool? = some pool ∧ file.rendering.failure = none ∧
      List.Forall₂ (WritesAttributes document pool) file.startTags file.rendering.tags ∧
      ∀ name, Bound document name →
        uriAmong? file.rendering.declarations name = uriAmong? document.declarations name := by
  obtain ⟨collected, chunks, hcollected, hchunks, rfl⟩ := compile_eq_ok_iff.mp h
  rw [hreject] at hchunks
  have htags := startTags_of_buildAll hchunks
  rw [document.filterMap_tag?_trace] at htags
  obtain ⟨written, hdeclared, hfind⟩ := exists_declarations_openScopes hcollected
  have hscopes : (openScopes collected.pool.place document).bindings
      = (scopedBindings collected.pool.place document).reverse := rfl
  obtain ⟨tags, hrendered, hforall, hfirst⟩ := exists_renderTags hcollected
    (exists_mem_left_of_forall₂ htags) hscopes hdeclared
  obtain ⟨events, hevents, hlist⟩ := renderOnto_of_renderTags
    (collected.namespaces.bindings.map scopeOf).reverse chunks []
    (tagRow_of_buildAll hcollected hchunks) hrendered
  rw [← rendering_assemble hcollected] at hevents
  have hwhole : (assemble collected chunks.toArray).rendering.tags = tags := by
    rw [hevents]
    exact hlist
  refine ⟨collected.pool, rfl, by rw [hevents], ?_, fun name hbound => ?_⟩
  · rw [startTags_assemble, hwhole]
    exact hforall
  · cases tags with
    | nil =>
      -- without tags there are no elements, so nothing but `xmlPrefix` is bound
      rw [List.forall₂_nil_right_iff.mp hforall, List.forall₂_nil_right_iff] at htags
      rcases hbound with rfl | ⟨declared, hdeclared, -⟩
      · rfl
      · rw [Document.declarations, htags] at hdeclared
        cases hdeclared
    | cons first others =>
      obtain ⟨own, hown⟩ := hfirst first rfl
      have hparts : (assemble collected chunks.toArray).rendering.tags
          = (first.1, written.map keyed ++ own) :: others := by
        rw [hwhole, ← hown]
      exact uriAmong?_declarations hparts hfind hbound

end Compile

end BinaryXml
