import BinaryXml.Proofs.Compile.Failing

/-!
# Namespaces of a compiled file

Wherever a document declares a namespace, the compiled file opens its scope before the first tag and
closes it behind the last. An attribute's prefix is resolved over the declarations of the whole
document: the first declaration of the prefix counts, also for attributes that stand before it or
outside the element that it is on.
-/

namespace BinaryXml

/-- The index is the one at which the pool finds the string, and the string stands there. -/
def StringPool.Denotes (pool : StringPool) (index : UInt32) (s : String) : Prop :=
  pool.indexOf? s = some index ∧ pool.get? index = some s

/-- The scope is that of a declared prefix and its uri. -/
structure NamespaceScope.Declares (pool : StringPool) (scope : NamespaceScope)
    (declared : String × String) : Prop where
  line_eq : scope.line = 0
  comment_eq : scope.comment = none
  name_eq : ∃ index, scope.name = some index ∧ pool.Denotes index declared.1
  uri_eq : pool.Denotes scope.uri declared.2

/-- The uri of the first declaration of a prefix in a document. -/
def Document.uriOf? (document : Document) (name : String) : Option String :=
  (document.declarations.find? (·.1 = name)).map (·.2)

/-- The built attribute has the namespace that its prefix is bound to in the document. -/
structure Attribute.ResolvedIn (document : Document) (pool : StringPool)
    (attr : Option String × String × String) (built : Attribute) : Prop where
  /-- The prefix `xmlPrefix` has its own uri. -/
  xml : attr.1 = some xmlPrefix →
    ∃ index, built.uri = some index ∧ pool.Denotes index xmlNamespaceUri
  /-- Any other prefix has the uri of its first declaration. -/
  declared : ∀ name uri, attr.1 = some name → name ≠ xmlPrefix →
    document.uriOf? name = some uri → ∃ index, built.uri = some index ∧ pool.Denotes index uri

namespace Compile

variable {encoding : StringEncoding} {document : Document} {collected : Collection}
  {unbound : UnboundPolicy}

theorem denotes_place (h : collection encoding document = .ok collected) {s : String}
    (hs : s ∈ stringsOf document) :
    collected.pool.Denotes (collected.pool.place s) s :=
  ⟨indexOf?_eq_place h hs, get?_place h hs⟩

/-- The scopes are those of the declarations without their repeats. -/
theorem declares_scopes (h : collection encoding document = .ok collected) :
    List.Forall₂ (NamespaceScope.Declares collected.pool)
      (collected.namespaces.bindings.map scopeOf) document.declarations.eraseDups := by
  have hscopes : collected.namespaces.bindings.map scopeOf
      = document.declarations.eraseDups.map fun declared =>
        scopeOf (bindingAt collected.pool.place declared).2 := by
    rw [NamespaceTable.bindings, declared_of_collection h, List.map_map, List.map_map]
    rfl
  rw [hscopes, List.forall₂_map_left_iff, List.forall₂_same]
  intro declared hdeclared
  obtain ⟨hname, huri⟩ := declared_mem_stringsOf (List.mem_eraseDups.mp hdeclared)
  exact ⟨rfl, rfl, ⟨_, rfl, denotes_place h hname⟩, denotes_place h huri⟩

/-- An attribute is built with the namespace that its prefix is bound to in the document. -/
theorem resolvedIn_of_build (h : collection encoding document = .ok collected) {tag : OpenTag}
    (htag : tag ∈ document.openTags) {attr : Option String × String × String}
    (hattr : attr ∈ tag.ordinary) {built : Attribute}
    (hbuilt : buildAttribute unbound collected tag.name attr = .ok built) :
    built.ResolvedIn document collected.pool attr := by
  obtain ⟨qualifier, localName, value⟩ := attr
  obtain ⟨uri, valueIndex, nameIndex, huri, -, -, rfl⟩ := buildAttribute_eq_ok_iff.mp hbuilt
  -- a prefix that the table binds gets the index it is bound to
  have hresolved : ∀ name index, qualifier = some name →
      collected.namespaces.resolve name = some index → uri = some index := by
    rintro name index rfl hresolve
    obtain ⟨found, hfound, rfl⟩ := map_eq_ok_iff.mp huri
    rw [resolve_eq_ok_iff.mpr (.inl hresolve)] at hfound
    cases hfound
    rfl
  constructor
  · -- as `xmlPrefix` is used here, the first walk has bound it
    intro hname
    have huses : document.UsesXml := ⟨tag, htag, _, hattr, hname⟩
    have hmem := xmlNamespaceUri_mem_stringsOf (bindXml_mem_steps huses)
    exact ⟨_, hresolved _ _ hname (resolve_xmlPrefix h huses), denotes_place h hmem⟩
  · intro name declaredUri hname hother hdeclared
    obtain ⟨declared, hfind, rfl⟩ := Option.map_eq_some_iff.mp hdeclared
    have hresolve := resolve_of_ne_xmlPrefix h hother
    rw [hfind, Option.map_some] at hresolve
    have hmem := declared_mem_stringsOf (List.mem_of_find?_eq_some hfind)
    exact ⟨_, hresolved _ _ hname hresolve, denotes_place h hmem.2⟩

theorem resolvedIn_of_buildStartTag (h : collection encoding document = .ok collected)
    {tag : OpenTag} (htag : tag ∈ document.openTags) {built : StartTag}
    (hbuilt : buildStartTag unbound collected tag = .ok built) :
    List.Forall₂ (Attribute.ResolvedIn document collected.pool) tag.ordinary built.attributes := by
  obtain ⟨attributes, name, hattributes, -, -, rfl⟩ := buildStartTag_eq_ok_iff.mp hbuilt
  have hboth := (List.forall₂_and_left _ _).mpr ⟨fun attr hattr => hattr, hattributes⟩
  refine hboth.imp fun attr made hmade => ?_
  exact resolvedIn_of_build h htag hmade.1 hmade.2

/-- The start tags of the file are those that were built. -/
theorem startTags_assemble {tags : List Chunk} :
    (assemble collected tags.toArray).startTags = tags.filterMap startTag? := by
  -- the starts and the ends of scopes are no tags
  have hnone : ∀ (f : NamespaceScope → Chunk) (scopes : List NamespaceScope),
      (∀ scope, startTag? (f scope) = none) → (scopes.map f).filterMap startTag? = [] := by
    intro f scopes hf
    rw [List.filterMap_map, List.filterMap_eq_nil_iff]
    exact fun scope _ => hf scope
  show List.filterMap startTag? (_ :: _ ++ tags ++ _) = _
  rw [List.filterMap_append, List.filterMap_append, hnone _ _ fun _ => rfl, List.append_nil,
    List.filterMap_cons, hnone _ _ fun _ => rfl]
  rfl

/-- **Namespaces of a compiled file.** The file is its pool, one scope for each distinct pair of a
prefix and a uri that the document declares, opened in the order of the first declarations, the
tags, and the scopes closed in the opposite order. Every attribute whose prefix is bound has the
namespace that the prefix is bound to by its first declaration in the document, or by itself if it
is `xmlPrefix`. -/
theorem namespaces_of_compile {options : Options} {file : ChunkFile}
    (h : compile options document = .ok file) :
    ∃ pool scopes tags,
      file.chunks = .stringPool pool :: scopes.map .startNamespace ++ tags
        ++ scopes.reverse.map .endNamespace ∧
      (∀ chunk ∈ tags, chunk.isTag = true) ∧
      List.Forall₂ (NamespaceScope.Declares pool) scopes document.declarations.eraseDups ∧
      List.Forall₂ (fun tag built =>
          List.Forall₂ (Attribute.ResolvedIn document pool) tag.ordinary built.attributes)
        document.openTags file.startTags := by
  obtain ⟨collected, chunks, hcollected, hchunks, rfl⟩ := compile_eq_ok_iff.mp h
  refine ⟨collected.pool, collected.namespaces.bindings.map scopeOf, chunks, rfl,
    isTag_of_buildAll hchunks, declares_scopes hcollected, ?_⟩
  have htags := startTags_of_buildAll hchunks
  rw [document.filterMap_tag?_trace] at htags
  -- the tags that are built are those of the document, one for one
  have hboth := (List.forall₂_and_left _ _).mpr ⟨fun tag htag => htag, htags⟩
  rw [startTags_assemble]
  refine hboth.imp fun tag built hbuilt => ?_
  exact resolvedIn_of_buildStartTag hcollected hbuilt.1 hbuilt.2

/-- The prefix `p` is declared for two uris and each is hoisted, without the repeat of the first.
The default namespace has an empty prefix. -/
theorem namespaces_of_compile_nested :
    ∃ file, compile { unbound := .sentinel } nested = .ok file ∧
      ∃ pool scopes tags,
        file.chunks = .stringPool pool :: scopes.map .startNamespace ++ tags
          ++ scopes.reverse.map .endNamespace ∧
        (∀ chunk ∈ tags, chunk.isTag = true) ∧
        List.Forall₂ (NamespaceScope.Declares pool) scopes [("p", "u"), ("", "w"), ("p", "w")] ∧
        List.Forall₂ (fun ordinary built =>
            List.Forall₂ (Attribute.ResolvedIn nested pool) ordinary built.attributes)
          [[(some "p", "k", "v"), (some "xml", "lang", "en"), (some "q", "k", "v"),
            (none, "n", "v")], [], []] file.startTags := by
  obtain ⟨file, hfile⟩ := exists_compile_nested
  have hdeclarations : (Document.declarations nested).eraseDups
      = [("p", "u"), ("", "w"), ("p", "w")] := by decide +kernel
  have hordinary : (Document.openTags nested).map OpenTag.ordinary
      = [[(some "p", "k", "v"), (some "xml", "lang", "en"), (some "q", "k", "v"),
        (none, "n", "v")], [], []] := by decide +kernel
  obtain ⟨pool, scopes, tags, hchunks, htags, hscopes, hresolved⟩ := namespaces_of_compile hfile
  rw [hdeclarations] at hscopes
  refine ⟨file, hfile, pool, scopes, tags, hchunks, htags, hscopes, ?_⟩
  rw [← hordinary, List.forall₂_map_left_iff]
  exact hresolved

end Compile

end BinaryXml
