import BinaryXml.Proofs.Compile.Rendering

/-!
# Which namespaces a rendered file keeps

An attribute in a namespace is written with the prefix of the *last* declaration of its uri. Read
back, a prefix means the uri of its *first* declaration, and an empty prefix means none. So the
attributes keep their namespaces when these two ways around agree for every namespace in use
(`keepsNamespaces_iff`), and not otherwise.
-/

namespace BinaryXml

/-- The written name and value of an attribute are read back with its namespace and its local name.
-/
structure Attribute.KeptBy (pool : StringPool) (declarations : List (String × String))
    (attr : Attribute) (written : String × String) : Prop where
  /-- Without a namespace there is no prefix. -/
  bare : attr.uri = none →
    AttributeRole.classify written.1 written.2 = .ordinary none written.1 written.2
  /-- The prefix is bound to the namespace. -/
  qualified : ∀ index, attr.uri = some index → ∃ qualifier localName uri,
    AttributeRole.classify written.1 written.2 = .ordinary (some qualifier) localName written.2 ∧
      pool.get? attr.name = some localName ∧ uriAmong? declarations qualifier = some uri ∧
      pool.get? index = some uri

/-- Rendering the file keeps the namespaces of all attributes. On every tag they are written in
order, behind the declarations. -/
def ChunkFile.KeepsNamespaces (file : ChunkFile) : Prop :=
  ∃ pool, file.stringPool? = some pool ∧ file.rendering.failure = none ∧
    List.Forall₂ (fun tag written => ∃ declared own, written.2 = declared ++ own ∧
        List.Forall₂ (Attribute.KeptBy pool file.rendering.declarations) tag.attributes own)
      file.startTags file.rendering.tags

/-- The prefix that stands for a uri leads back to it. -/
structure Document.Recovers (document : Document) (uri : String) : Prop where
  ne_empty : document.prefixOf uri ≠ ""
  ne_xmlns : document.prefixOf uri ≠ "xmlns"
  colon_not_mem : ':' ∉ (document.prefixOf uri).toList
  uriAmong?_eq : uriAmong? document.declarations (document.prefixOf uri) = some uri

instance Document.decidableRecovers (document : Document) (uri : String) :
    Decidable (document.Recovers uri) :=
  decidable_of_iff (document.prefixOf uri ≠ "" ∧ document.prefixOf uri ≠ "xmlns" ∧
      ':' ∉ (document.prefixOf uri).toList ∧
      uriAmong? document.declarations (document.prefixOf uri) = some uri)
    ⟨fun ⟨h₁, h₂, h₃, h₄⟩ => ⟨h₁, h₂, h₃, h₄⟩, fun ⟨h₁, h₂, h₃, h₄⟩ => ⟨h₁, h₂, h₃, h₄⟩⟩

namespace Compile

open Render

variable {document : Document}

/-! ## One attribute -/

theorem qualify_of_ne_empty {qualifier localName : String} (h : qualifier ≠ "") :
    qualify qualifier localName = qualifier ++ ":" ++ localName := by
  rw [qualify, if_neg (fun hempty => h (String.isEmpty_iff.mp hempty))]

/-- The prefix of a name can be read off it. -/
theorem eq_of_qualify_eq {qualifier other localName : String}
    (h : qualify qualifier localName = other ++ ":" ++ localName) : qualifier = other := by
  by_cases hempty : qualifier = ""
  · -- a local name alone is shorter than one behind a prefix
    rw [hempty, qualify, if_pos (by rfl)] at h
    have hlength := congrArg String.length h
    rw [String.length_append, String.length_append] at hlength
    have hcolon : ":".length = 1 := rfl
    omega
  · rw [qualify_of_ne_empty hempty] at h
    have hlist := congrArg String.toList h
    rw [AttributeRole.toList_append_colon, AttributeRole.toList_append_colon] at hlist
    exact String.toList_inj.mp (List.append_cancel_right hlist)

/-- The prefix that stands for a uri is bound in the document. -/
theorem bound_prefixOf {uri : String} (h : document.prefixOf uri ≠ "") :
    Bound document (document.prefixOf uri) := by
  unfold Document.prefixOf at h ⊢
  split
  · rename_i declared hfind
    have hmem := List.mem_reverse.mp (List.mem_of_find?_eq_some hfind)
    exact .inr ⟨declared, List.mem_eraseDups.mp hmem, rfl⟩
  · rename_i hfind
    rw [hfind] at h
    dsimp only at h
    split
    · exact .inl rfl
    · rename_i huri
      rw [if_neg huri] at h
      exact absurd rfl h

/-- An attribute keeps its namespace when the prefix that stands for it leads back to it. -/
theorem keptBy_iff {pool : StringPool} {declarations : List (String × String)} {attr : Attribute}
    {written : String × String} (hwritten : attr.WrittenAs document pool written)
    (hread : ∀ name, Bound document name →
      uriAmong? declarations name = uriAmong? document.declarations name) :
    attr.KeptBy pool declarations written ↔
      ∀ index uri, attr.uri = some index → pool.get? index = some uri → document.Recovers uri := by
  constructor
  · rintro ⟨-, hkept⟩ index uri hindex huri
    obtain ⟨qualifier, localName, uri', hclassify, hlocal, hamong, huri'⟩ := hkept index hindex
    obtain ⟨localName', uri'', hlocal', huri'', hname⟩ := hwritten.qualified index hindex
    rw [huri] at huri' huri''
    rw [hlocal] at hlocal'
    cases huri'
    cases huri''
    cases hlocal'
    obtain ⟨hparts, -, hempty, hxmlns, hcolon⟩ :=
      AttributeRole.classify_eq_ordinary_some_iff.mp hclassify
    -- the name read back has the prefix that it was written with
    obtain rfl := eq_of_qualify_eq (hname.symm.trans hparts)
    rw [hread _ (bound_prefixOf hempty)] at hamong
    exact ⟨hempty, hxmlns, hcolon, hamong⟩
  · intro hrecovers
    refine ⟨hwritten.bare, fun index hindex => ?_⟩
    obtain ⟨localName, uri, hlocal, huri, hname⟩ := hwritten.qualified index hindex
    obtain ⟨hempty, hxmlns, hcolon, hamong⟩ := hrecovers index uri hindex huri
    refine ⟨document.prefixOf uri, localName, uri, ?_, hlocal, ?_, huri⟩
    · rw [qualify_of_ne_empty hempty] at hname
      exact AttributeRole.classify_eq_ordinary_some_iff.mpr ⟨hname, rfl, hempty, hxmlns, hcolon⟩
    · rw [hread _ (bound_prefixOf hempty), hamong]

/-! ## The whole file -/

/-- The namespaces of the attributes of a compiled file are those of the prefixes in the document.
-/
theorem exists_namespace_iff {options : Options} {file : ChunkFile} {pool : StringPool}
    {uri : String} (hreject : options.unbound = .reject) (h : compile options document = .ok file)
    (hpool : file.stringPool? = some pool) :
    (∃ tag ∈ file.startTags, ∃ attr ∈ tag.attributes, ∃ index, attr.uri = some index ∧
        pool.get? index = some uri) ↔
      ∃ tag ∈ document.openTags, ∃ attr ∈ tag.ordinary, ∃ name, attr.1 = some name ∧
        uriAmong? document.declarations name = some uri := by
  obtain ⟨collected, chunks, hcollected, hchunks, rfl⟩ := compile_eq_ok_iff.mp h
  rw [hreject] at hchunks
  cases hpool
  have htags := startTags_of_buildAll hchunks
  rw [document.filterMap_tag?_trace] at htags
  rw [startTags_assemble]
  constructor
  · -- a built attribute has a namespace exactly where the ordinary one has a prefix
    rintro ⟨built, hbuilt, attr, hattr, index, hindex, hget⟩
    obtain ⟨tag, htag, hmade⟩ := exists_mem_left_of_forall₂ htags built hbuilt
    obtain ⟨attributes, name, hattributes, -, -, rfl⟩ := buildStartTag_eq_ok_iff.mp hmade
    obtain ⟨ordinary, hordinary, hmade⟩ := exists_mem_left_of_forall₂ hattributes attr hattr
    rcases (exists_uri_of_buildAttribute hcollected htag hordinary hmade).2.2 with
      ⟨-, hnone⟩ | ⟨name, uri', hname, hamong, hmem, hsome⟩
    · rw [hindex] at hnone
      cases hnone
    · rw [hindex] at hsome
      cases hsome
      rw [get?_place hcollected hmem] at hget
      cases hget
      exact ⟨tag, htag, ordinary, hordinary, name, hname, hamong⟩
  · rintro ⟨tag, htag, ordinary, hordinary, name, hname, hamong⟩
    obtain ⟨built, hbuilt, hmade⟩ := exists_mem_right_of_forall₂ htags tag htag
    obtain ⟨attributes, tagName, hattributes, -, -, rfl⟩ := buildStartTag_eq_ok_iff.mp hmade
    obtain ⟨attr, hattr, hmade⟩ := exists_mem_right_of_forall₂ hattributes ordinary hordinary
    refine ⟨_, hbuilt, attr, hattr, ?_⟩
    rcases (exists_uri_of_buildAttribute hcollected htag hordinary hmade).2.2 with
      ⟨hnone, -⟩ | ⟨name', uri', hname', hamong', hmem, hsome⟩
    · rw [hname] at hnone
      cases hnone
    · rw [hname] at hname'
      cases hname'
      rw [hamong] at hamong'
      cases hamong'
      exact ⟨_, hsome, get?_place hcollected hmem⟩

/-- The namespaces are kept when every namespace in use is recovered. -/
theorem keepsNamespaces_iff_startTags {options : Options} {file : ChunkFile}
    (hreject : options.unbound = .reject) (h : compile options document = .ok file) :
    file.KeepsNamespaces ↔ ∃ pool, file.stringPool? = some pool ∧
      ∀ tag ∈ file.startTags, ∀ attr ∈ tag.attributes, ∀ index uri, attr.uri = some index →
        pool.get? index = some uri → document.Recovers uri := by
  obtain ⟨pool, hpool, hfailure, hwritten, hread⟩ := rendering_of_compile hreject h
  -- tag by tag, and on each tag attribute by attribute
  have htags : List.Forall₂ (fun tag written => ∃ declared own, written.2 = declared ++ own ∧
        List.Forall₂ (Attribute.KeptBy pool file.rendering.declarations) tag.attributes own)
      file.startTags file.rendering.tags ↔
      ∀ tag ∈ file.startTags, ∀ attr ∈ tag.attributes, ∀ index uri, attr.uri = some index →
        pool.get? index = some uri → document.Recovers uri := by
    refine forall₂_iff_forall hwritten fun tag written ⟨declared, own, hparts, hown⟩ => ?_
    have hattributes : List.Forall₂ (Attribute.KeptBy pool file.rendering.declarations)
          tag.attributes own ↔ ∀ attr ∈ tag.attributes, ∀ index uri, attr.uri = some index →
            pool.get? index = some uri → document.Recovers uri :=
      forall₂_iff_forall hown fun attr written hattr => keptBy_iff hattr hread
    rw [← hattributes]
    constructor
    · rintro ⟨declared', own', hparts', hkept⟩
      -- there are as many attributes of its own either way
      rw [hparts] at hparts'
      have hlength := hown.length_eq.symm.trans hkept.length_eq
      rwa [(List.append_inj' hparts' hlength).2]
    · intro hkept
      exact ⟨declared, own, hparts, hkept⟩
  constructor
  · rintro ⟨pool', hpool', -, hkept⟩
    rw [hpool] at hpool'
    cases hpool'
    exact ⟨pool, hpool, htags.mp hkept⟩
  · rintro ⟨pool', hpool', hrecovers⟩
    rw [hpool] at hpool'
    cases hpool'
    exact ⟨pool, hpool, hfailure, htags.mpr hrecovers⟩

/-- When they are kept, every uri that a prefix in use is resolved to is recovered. -/
theorem recovers_of_keepsNamespaces {options : Options} {file : ChunkFile}
    (hreject : options.unbound = .reject) (h : compile options document = .ok file)
    (hkept : file.KeepsNamespaces) {tag : OpenTag} (htag : tag ∈ document.openTags)
    {attr : Option String × String × String} (hattr : attr ∈ tag.ordinary) {name uri : String}
    (hname : attr.1 = some name) (huri : uriAmong? document.declarations name = some uri) :
    document.Recovers uri := by
  obtain ⟨pool, hpool, hrecovers⟩ := (keepsNamespaces_iff_startTags hreject h).mp hkept
  obtain ⟨built, hbuilt, attr', hattr', index, hindex, hget⟩ :=
    (exists_namespace_iff hreject h hpool).mpr ⟨tag, htag, attr, hattr, name, hname, huri⟩
  exact hrecovers built hbuilt attr' hattr' index uri hindex hget

/-- **Which compiled files keep the namespaces of their attributes when they are rendered**: those
whose document has, for the uri of every prefix in use, a last declaration with a prefix that is
written and read back as one and whose first declaration is of the same uri. -/
theorem keepsNamespaces_iff {options : Options} {file : ChunkFile}
    (hreject : options.unbound = .reject) (h : compile options document = .ok file) :
    file.KeepsNamespaces ↔
      ∀ tag ∈ document.openTags, ∀ attr ∈ tag.ordinary, ∀ name ∈ attr.1,
        ∀ uri ∈ uriAmong? document.declarations name, document.Recovers uri := by
  constructor
  · intro hkept tag htag attr hattr name hname uri huri
    exact recovers_of_keepsNamespaces hreject h hkept htag hattr hname huri
  · intro hrecovers
    obtain ⟨pool, hpool, -⟩ := rendering_of_compile hreject h
    refine (keepsNamespaces_iff_startTags hreject h).mpr ⟨pool, hpool, ?_⟩
    intro built hbuilt attr hattr index uri hindex hget
    obtain ⟨tag, htag, attr, hattr, name, hname, huri⟩ :=
      (exists_namespace_iff hreject h hpool).mp ⟨built, hbuilt, attr, hattr, index, hindex, hget⟩
    exact hrecovers tag htag attr hattr name hname uri huri

/-- Two prefixes for two uris, used on the element that declares them and below it. -/
def distinctPrefixes : Document :=
  [.element "A" [("xmlns:a", "u"), ("xmlns:b", "v"), ("a:x", "1"), ("xml:lang", "en"), ("y", "2")]
    [.element "B" [("b:x", "3")] [] 2] 1]

/-- Different prefixes for different uris keep all namespaces. -/
theorem keepsNamespaces_iff_distinctPrefixes :
    ∃ file, compile {} distinctPrefixes = .ok file ∧ file.KeepsNamespaces := by
  obtain ⟨file, hfile⟩ : ∃ file, compile {} distinctPrefixes = .ok file :=
    exists_compile (by decide +kernel) (by decide +kernel) (by decide +kernel)
  exact ⟨file, hfile, (keepsNamespaces_iff rfl hfile).mpr (by decide +kernel)⟩

/-- A uri has a prefix and then also stands for names without one. -/
def shadowedPrefix : Document :=
  [.element "A" [("xmlns:a", "u"), ("xmlns", "u"), ("a:x", "1")] [] 1]

/-- The attribute with the prefix is written without one. -/
theorem not_keepsNamespaces_shadowedPrefix :
    ∃ file, compile {} shadowedPrefix = .ok file ∧ ¬ file.KeepsNamespaces := by
  obtain ⟨file, hfile⟩ : ∃ file, compile {} shadowedPrefix = .ok file :=
    exists_compile (by decide +kernel) (by decide +kernel) (by decide +kernel)
  refine ⟨file, hfile, fun hkept => ?_⟩
  have htag : .ofElement "A" [("xmlns:a", "u"), ("xmlns", "u"), ("a:x", "1")] 1
      ∈ Document.openTags shadowedPrefix := by decide +kernel
  have hattr : (some "a", "x", "1") ∈ (OpenTag.ofElement "A"
      [("xmlns:a", "u"), ("xmlns", "u"), ("a:x", "1")] 1).ordinary := by decide +kernel
  have hrecovers : Document.Recovers shadowedPrefix "u" :=
    recovers_of_keepsNamespaces rfl hfile hkept htag hattr rfl (by decide +kernel)
  revert hrecovers
  decide +kernel

end Compile

end BinaryXml
