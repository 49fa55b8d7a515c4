import BinaryXml.Proofs.Compile.Building

/-!
# When compiling fails

The first walk fails on a string that is too long for an entry, and then the rest of the document
does not matter. Otherwise the second walk fails on the first element at fault, one with a prefix
that is bound nowhere or with too many attributes (`failure?_compile`).
-/

namespace BinaryXml

/-- The strings of an ordinary attribute. -/
def attributeStrings : Option String × String × String → List String
  | (qualifier, localName, value) => localName :: qualifier.toList ++ [value]

/-- The strings on the start of an element. -/
def OpenTag.strings (tag : OpenTag) : List String :=
  tag.name :: (tag.declarations.flatMap fun (name, uri) => [name, uri])
    ++ tag.ordinary.flatMap attributeStrings

/-- The strings that an ordinary attribute brings. One with the prefix `xmlPrefix` brings the uri of
that prefix as well. -/
def collectedStrings (attr : Option String × String × String) : List String :=
  attributeStrings attr ++ if attr.1 = some xmlPrefix then [xmlNamespaceUri] else []

/-- The strings that the start of an element brings, in order. -/
def OpenTag.collected (tag : OpenTag) : List String :=
  tag.name :: (tag.declarations.flatMap fun (name, uri) => [name, uri])
    ++ tag.ordinary.flatMap collectedStrings

namespace Compile

variable {unbound : UnboundPolicy} {collected : Collection} {document : Document}
  {encoding : StringEncoding}

/-! ## The first walk meets the strings of the elements -/

theorem strings_attributeSteps (attr : Option String × String × String) :
    (attributeSteps attr).flatMap Step.strings = collectedStrings attr := by
  obtain ⟨qualifier, localName, value⟩ := attr
  cases qualifier with
  | none => rfl
  | some name =>
    by_cases hxml : name = xmlPrefix <;>
      simp [attributeSteps, collectedStrings, attributeStrings, Step.strings, hxml]

/-- At the start of an element it meets the strings of the element. -/
theorem strings_startSteps (tag : OpenTag) :
    (startSteps tag).flatMap Step.strings = tag.collected := by
  have hdeclarations :
      (tag.declarations.flatMap fun (name, uri) => [Step.string name, .string uri]).flatMap
        Step.strings = tag.declarations.flatMap fun (name, uri) => [name, uri] := by
    rw [List.flatMap_assoc]
    rfl
  have hordinary : (tag.ordinary.flatMap attributeSteps).flatMap Step.strings
      = tag.ordinary.flatMap collectedStrings := by
    rw [List.flatMap_assoc]
    simp only [strings_attributeSteps]
  rw [startSteps, List.flatMap_append, List.flatMap_cons, hdeclarations, hordinary]
  rfl

/-- The strings met at the start of an element are those that stand on it, and the uri of
`xmlPrefix` where that prefix is used. -/
theorem mem_collected_iff {tag : OpenTag} {s : String} :
    s ∈ tag.collected ↔
      s ∈ tag.strings ∨ (∃ attr ∈ tag.ordinary, attr.1 = some xmlPrefix) ∧ s = xmlNamespaceUri := by
  have hordinary : s ∈ tag.ordinary.flatMap collectedStrings ↔
      s ∈ tag.ordinary.flatMap attributeStrings ∨
        (∃ attr ∈ tag.ordinary, attr.1 = some xmlPrefix) ∧ s = xmlNamespaceUri := by
    -- one attribute: its own strings and perhaps the uri
    have hbrings (attr : Option String × String × String) : s ∈ collectedStrings attr ↔
        s ∈ attributeStrings attr ∨ attr.1 = some xmlPrefix ∧ s = xmlNamespaceUri := by
      by_cases hxml : attr.1 = some xmlPrefix <;> simp [collectedStrings, hxml]
    rw [List.mem_flatMap, List.mem_flatMap]
    simp only [hbrings]
    constructor
    · rintro ⟨attr, hattr, hs | ⟨hxml, rfl⟩⟩
      · exact .inl ⟨attr, hattr, hs⟩
      · exact .inr ⟨⟨attr, hattr, hxml⟩, rfl⟩
    · rintro (⟨attr, hattr, hs⟩ | ⟨⟨attr, hattr, hxml⟩, rfl⟩)
      · exact ⟨attr, hattr, .inl hs⟩
      · exact ⟨attr, hattr, .inr ⟨hxml, rfl⟩⟩
  rw [OpenTag.collected, OpenTag.strings, List.mem_append, List.mem_append, hordinary, or_assoc]

/-- Apart from the uri of `xmlPrefix`, the strings collected are those of the elements. -/
theorem exists_mem_strings_of_mem_stringsOf {s : String} (hs : s ∈ stringsOf document) :
    s = xmlNamespaceUri ∨ ∃ tag ∈ document.openTags, s ∈ tag.strings := by
  rw [stringsOf, steps, List.flatMap_assoc, List.mem_flatMap] at hs
  obtain ⟨event, hevent, hs⟩ := hs
  cases event with
  | start tag =>
    -- its declarations are events of their own, and the end repeats its name
    have hs : s ∈ (startSteps tag).flatMap Step.strings := hs
    rw [strings_startSteps] at hs
    rcases mem_collected_iff.mp hs with hs | ⟨-, rfl⟩
    · exact .inr ⟨tag, start_mem_trace_iff.mp hevent, hs⟩
    · exact .inl rfl
  | declaration name uri =>
    have hdeclared : (name, uri) ∈ document.declarations := by
      rw [← document.filterMap_declaration?_trace]
      exact List.mem_filterMap.mpr ⟨_, hevent, rfl⟩
    obtain ⟨tag, htag, hdeclared⟩ := List.mem_flatMap.mp hdeclared
    refine .inr ⟨tag, htag, List.mem_append_left _ (List.mem_cons_of_mem _ ?_)⟩
    exact List.mem_flatMap.mpr ⟨_, hdeclared, hs⟩
  | finish name line =>
    obtain rfl := List.mem_singleton.mp hs
    obtain ⟨tag, htag, rfl⟩ := exists_openTag_of_finish_all hevent
    exact .inr ⟨tag, htag, List.mem_cons_self⟩

theorem mem_stringsOf_of_mem_strings {tag : OpenTag} (htag : tag ∈ document.openTags) {s : String}
    (hs : s ∈ tag.strings) : s ∈ stringsOf document := by
  refine mem_stringsOf_of_event (start_mem_trace_iff.mpr htag) ?_
  show s ∈ (startSteps tag).flatMap Step.strings
  rw [strings_startSteps]
  exact mem_collected_iff.mpr (.inl hs)

theorem not_tooLong_xmlNamespaceUri (encoding : StringEncoding) :
    ¬ StringEntry.TooLong encoding xmlNamespaceUri := by
  cases encoding <;> decide +kernel

/-- A string that is too long stands on an element. -/
theorem exists_tooLong_iff :
    (∃ s ∈ stringsOf document, StringEntry.TooLong encoding s) ↔
      ∃ tag ∈ document.openTags, ∃ s ∈ tag.strings, StringEntry.TooLong encoding s := by
  constructor
  · rintro ⟨s, hs, hlong⟩
    rcases exists_mem_strings_of_mem_stringsOf hs with rfl | ⟨tag, htag, hs⟩
    · exact absurd hlong (not_tooLong_xmlNamespaceUri encoding)
    · exact ⟨tag, htag, s, hs, hlong⟩
  · rintro ⟨tag, htag, s, hs, hlong⟩
    exact ⟨s, mem_stringsOf_of_mem_strings htag hs, hlong⟩

/-! ## Faults of an element -/

/-- The prefix is bound in the document, by a declaration or as `xmlPrefix`. -/
def Bound (document : Document) (name : String) : Prop :=
  name = xmlPrefix ∨ ∃ declared ∈ document.declarations, declared.1 = name

instance decidableBound (document : Document) (name : String) : Decidable (Bound document name) :=
  inferInstanceAs (Decidable (_ ∨ _))

/-- The prefix of an attribute, if the policy does not let it pass. -/
def unboundPrefix? (unbound : UnboundPolicy) (document : Document)
    (attr : Option String × String × String) : Option String :=
  attr.1.filter fun name => unbound = .reject ∧ ¬ Bound document name

/-- What is wrong with an element: its first prefix that is bound nowhere, or else the number of its
attributes. -/
def fault? (unbound : UnboundPolicy) (document : Document) (tag : OpenTag) : Option Error :=
  match tag.ordinary.findSome? (unboundPrefix? unbound document) with
  | some name => some (.unboundPrefix name tag.name)
  | none =>
    if Chunk.greatestAttributeCount < tag.ordinary.length then
      some (.tooManyAttributes tag.name tag.ordinary.length)
    else none

/-- A fault is a prefix that is bound nowhere, under the policy that rejects it, or too many
attributes. -/
theorem eq_of_fault? {tag : OpenTag} {error : Error}
    (h : fault? unbound document tag = some error) :
    (∃ name, error = .unboundPrefix name tag.name ∧ unbound = .reject ∧ ¬ Bound document name) ∨
      ∃ count, error = .tooManyAttributes tag.name count ∧
        Chunk.greatestAttributeCount < count := by
  unfold fault? at h
  split at h
  · rename_i name hname
    obtain ⟨attr, -, hattr⟩ := List.exists_of_findSome?_eq_some hname
    have hpolicy := of_decide_eq_true (Option.filter_eq_some_iff.mp hattr).2
    exact .inl ⟨name, (Option.some.inj h).symm, hpolicy⟩
  · split at h
    · exact .inr ⟨_, (Option.some.inj h).symm, ‹_›⟩
    · cases h

/-- A prefix that an attribute uses is resolved when it is bound, and only then. -/
theorem resolve_eq_none_iff (h : collection encoding document = .ok collected) {tag : OpenTag}
    (htag : tag ∈ document.openTags) {attr : Option String × String × String}
    (hattr : attr ∈ tag.ordinary) {name : String} (hname : attr.1 = some name) :
    collected.namespaces.resolve name = none ↔ ¬ Bound document name := by
  by_cases hxml : name = xmlPrefix
  · subst hxml
    rw [resolve_xmlPrefix h ⟨tag, htag, attr, hattr, hname⟩]
    exact ⟨(nomatch ·), fun hbound => absurd (.inl rfl) hbound⟩
  · rw [resolve_of_ne_xmlPrefix h hxml, Option.map_eq_none_iff, List.find?_eq_none, Bound]
    simp only [hxml, false_or, decide_eq_true_eq, not_exists, not_and]

theorem indexIn_place (h : collection encoding document = .ok collected) {s : String}
    (hs : s ∈ stringsOf document) : indexIn collected.pool s = .ok (collected.pool.place s) :=
  indexIn_eq_ok_iff.mpr (indexOf?_eq_place h hs)

theorem failure?_resolve (namespaces : NamespaceTable) (element name : String) :
    failure? (resolve unbound namespaces element name)
      = if unbound = .reject ∧ namespaces.resolve name = none then
          some (.unboundPrefix name element)
        else none := by
  unfold resolve
  cases namespaces.resolve name <;> cases unbound <;> rfl

/-- An attribute fails by its prefix only, since its strings are there. -/
theorem failure?_buildAttribute (h : collection encoding document = .ok collected) {tag : OpenTag}
    (htag : tag ∈ document.openTags) {attr : Option String × String × String}
    (hattr : attr ∈ tag.ordinary) :
    failure? (buildAttribute unbound collected tag.name attr)
      = (unboundPrefix? unbound document attr).map (.unboundPrefix · tag.name) := by
  obtain ⟨qualifier, localName, value⟩ := attr
  have hstrings := ordinary_mem_stringsOf htag hattr
  rw [buildAttribute_eq, indexIn_place h hstrings.2, indexIn_place h hstrings.1,
    failure?_bind fun _ => rfl]
  cases qualifier with
  | none => rfl
  | some name =>
    rw [namespaceOf, failure?_map, failure?_resolve, unboundPrefix?, Option.filter_some]
    simp only [resolve_eq_none_iff h htag hattr rfl, decide_eq_true_eq]
    split <;> rfl

/-- A start tag fails on the fault of its element. -/
theorem failure?_buildStartTag (h : collection encoding document = .ok collected) {tag : OpenTag}
    (htag : tag ∈ document.openTags) :
    failure? (buildStartTag unbound collected tag) = fault? unbound document tag := by
  have hattributes : failure? (tag.ordinary.mapM (buildAttribute unbound collected tag.name))
      = (tag.ordinary.findSome? (unboundPrefix? unbound document)).map
        (.unboundPrefix · tag.name) := by
    rw [List.map_findSome?]
    exact failure?_mapM fun attr hattr => failure?_buildAttribute h htag hattr
  have hname := indexIn_place h (name_mem_stringsOf htag)
  unfold buildStartTag
  rw [fault?, hname]
  cases hmade : tag.ordinary.mapM (buildAttribute unbound collected tag.name) with
  | error error =>
    rw [hmade] at hattributes
    obtain ⟨name, hfirst, rfl⟩ := Option.map_eq_some_iff.mp hattributes.symm
    rw [hfirst]
    rfl
  | ok attributes =>
    -- every prefix has passed, so the count is all that is left to be wrong
    rw [hmade] at hattributes
    have hlength := (mapM_eq_ok_iff.mp hmade).length_eq
    rw [Option.map_eq_none_iff.mp hattributes.symm, hlength]
    show failure? (if _ then _ else _) = _
    dsimp only
    split <;> rfl

/-! ## The first fault of a document -/

/-- An event fails by the fault of the element it starts. -/
theorem failure?_build (h : collection encoding document = .ok collected) {event : WalkEvent}
    (hevent : event ∈ document.trace) :
    failure? (build unbound collected event) = event.tag?.bind (fault? unbound document) := by
  cases event with
  | start tag =>
    rw [build, failure?_map]
    exact failure?_buildStartTag h (start_mem_trace_iff.mp hevent)
  | declaration name uri => rfl
  | finish name line =>
    rw [build, indexIn_place h (mem_stringsOf_of_event hevent List.mem_cons_self)]
    rfl

/-- Events fail as the first of them that fails. -/
theorem failure?_buildAll {fault : OpenTag → Option Error} {events : List WalkEvent}
    (h : ∀ event ∈ events, failure? (build unbound collected event) = event.tag?.bind fault) :
    failure? (buildAll unbound collected events)
      = (events.filterMap WalkEvent.tag?).findSome? fault := by
  induction events with
  | nil => rfl
  | cons event rest ih =>
    have hevent := h event List.mem_cons_self
    have hrest := ih fun e he => h e (List.mem_cons_of_mem _ he)
    rw [buildAll]
    -- a first event that fails decides, and otherwise the rest does
    cases hfront : build unbound collected event with
    | error error =>
      rw [hfront] at hevent
      obtain ⟨tag, htag, hfault⟩ := Option.bind_eq_some_iff.mp hevent.symm
      rw [List.filterMap_cons_some htag, List.findSome?_cons, hfault]
      rfl
    | ok front =>
      show failure? (buildAll unbound collected rest >>= fun back => pure (front ++ back)) = _
      rw [failure?_bind fun _ => rfl, hrest]
      rw [hfront] at hevent
      cases htag : event.tag? with
      | none => rw [List.filterMap_cons_none htag]
      | some tag =>
        rw [htag, Option.bind_some] at hevent
        rw [List.filterMap_cons_some htag, List.findSome?_cons, ← hevent]
        rfl

/-- The second walk fails on the first element at fault. -/
theorem failure?_tags (h : collection encoding document = .ok collected) :
    failure? (tags unbound collected document)
      = document.openTags.findSome? (fault? unbound document) := by
  rw [tags_eq, failure?_map, failure?_buildAll fun event hevent => failure?_build h hevent,
    document.filterMap_tag?_trace]

/-- The first walk succeeds when its strings have entries that fit together. -/
theorem exists_collection (hsized : ∀ s ∈ stringsOf document, ¬ StringEntry.TooLong encoding s)
    (hfits : StringPool.entriesSize encoding (stringsOf document).eraseDups < UInt32.size) :
    ∃ collected, collection encoding document = .ok collected := by
  obtain ⟨pool, hpool⟩ := StringPool.exists_addAll_iff.mpr
    ⟨fun s hs => StringEntry.not_tooLong_iff.mp (hsized s hs), hfits⟩
  exact ⟨⟨pool, bindingsOf pool.place document⟩, collection_eq_ok_iff.mpr ⟨hpool, rfl⟩⟩

/-- **Which error a document is refused with**, when its strings have entries that fit together:
that of the first element at fault. -/
theorem failure?_compile {options : Options} {document : Document}
    (hsized : ∀ s ∈ stringsOf document, ¬ StringEntry.TooLong options.encoding s)
    (hfits : StringPool.entriesSize options.encoding (stringsOf document).eraseDups < UInt32.size) :
    failure? (compile options document)
      = document.openTags.findSome? (fault? options.unbound document) := by
  obtain ⟨collected, hcollected⟩ := exists_collection hsized hfits
  rw [compile, hcollected]
  show failure? (tags _ _ _ >>= fun tags => pure (assemble _ tags)) = _
  rw [failure?_bind fun _ => rfl, failure?_tags hcollected]

/-- **When compiling succeeds**: the strings have entries that fit together, the prefixes are bound
unless the policy does without, and no element has too many attributes. -/
theorem exists_compile {options : Options} {document : Document}
    (hsized : ∀ s ∈ stringsOf document, ¬ StringEntry.TooLong options.encoding s)
    (hfits : StringPool.entriesSize options.encoding (stringsOf document).eraseDups < UInt32.size)
    (hsound : ∀ tag ∈ document.openTags, fault? options.unbound document tag = none) :
    ∃ file, compile options document = .ok file := by
  rw [← failure?_eq_none_iff, failure?_compile hsized hfits]
  exact List.findSome?_eq_none_iff.mpr hsound

/-- An element inside another. A prefix is used before and outside the element that declares it,
declared twice, and used on an element of the prefix that is bound without a declaration; one prefix
is declared nowhere. -/
def nested : Document :=
  [.element "a" [("p:k", "v"), ("xml:lang", "en"), ("q:k", "v"), ("n", "v")]
    [.text "t", .element "b" [("xmlns:p", "u"), ("xmlns", "w")] [.comment "c"] 2,
      .element "b" [("xmlns:p", "w"), ("xmlns:p", "u")] [] 3] 1]

/-- The strings of the document as they are met. -/
theorem stringsOf_nested : stringsOf nested
    = ["a", "k", "p", "v", "lang", "xml", "en", xmlNamespaceUri, "k", "q", "v", "n", "v",
      "b", "p", "u", "", "w", "p", "u", "", "w", "b",
      "b", "p", "w", "p", "u", "p", "w", "p", "u", "b", "a"] :=
  rfl

theorem not_tooLong_of_mem_nested : ∀ s ∈ stringsOf nested, ¬ StringEntry.TooLong .utf8 s := by
  rw [stringsOf_nested]
  decide +kernel

theorem entriesSize_nested_lt :
    StringPool.entriesSize .utf8 (stringsOf nested).eraseDups < UInt32.size := by
  rw [stringsOf_nested]
  decide +kernel

/-- The document compiles when prefixes that are declared nowhere are let pass. -/
theorem exists_compile_nested : ∃ file, compile { unbound := .sentinel } nested = .ok file :=
  exists_compile not_tooLong_of_mem_nested entriesSize_nested_lt (by decide +kernel)

/-! ## Every failure -/

/-- Only the events of the walk count. -/
theorem compile_congr {options : Options} {document other : Document}
    (h : document.trace = other.trace) : compile options document = compile options other := by
  simp only [compile, collection, tags, Document.walk_eq_forM_trace, h]

/-- No fault of an element is a string that is too long. -/
theorem fault?_ne_stringTooLong {tag : OpenTag} {length : Nat} :
    fault? unbound document tag ≠ some (.stringTooLong length) := by
  intro h
  rcases eq_of_fault? h with ⟨name, herror, -⟩ | ⟨count, herror, -⟩
  · cases herror
  · cases herror

/-- **When compiling fails, and with what.** A string that is too long makes it fail whatever else
is wrong; otherwise the first element at fault does, and nothing else. Texts and comments never do.
-/
theorem failure_of_compile {options : Options} {document : Document}
    (hfits : StringPool.entriesSize options.encoding
      ((stringsOf document).eraseDups.filter (¬ StringEntry.TooLong options.encoding ·))
        < UInt32.size) :
    ((∃ length, compile options document = .error (.stringTooLong length)) ↔
      ∃ tag ∈ document.openTags, ∃ s ∈ tag.strings, StringEntry.TooLong options.encoding s) ∧
    ((∀ tag ∈ document.openTags, ∀ s ∈ tag.strings, ¬ StringEntry.TooLong options.encoding s) →
      ∀ error, compile options document = .error error ↔
        document.openTags.findSome? (fault? options.unbound document) = some error) ∧
    compile options document.withoutText = compile options document := by
  have hshort : (∀ tag ∈ document.openTags, ∀ s ∈ tag.strings,
      ¬ StringEntry.TooLong options.encoding s) →
      failure? (compile options document)
        = document.openTags.findSome? (fault? options.unbound document) := by
    intro hnone
    have hsized : ∀ s ∈ stringsOf document, ¬ StringEntry.TooLong options.encoding s := by
      intro s hs hlong
      obtain ⟨tag, htag, t, ht, hlong⟩ := exists_tooLong_iff.mp ⟨s, hs, hlong⟩
      exact hnone tag htag t ht hlong
    have hkept : (stringsOf document).eraseDups.filter (¬ StringEntry.TooLong options.encoding ·)
        = (stringsOf document).eraseDups :=
      List.filter_eq_self.mpr fun s hs => decide_eq_true (hsized s (List.mem_eraseDups.mp hs))
    rw [hkept] at hfits
    exact failure?_compile hsized hfits
  refine ⟨⟨?_, ?_⟩, ?_, compile_congr document.trace_withoutText⟩
  · -- without a string that is too long the error is the fault of an element, which is another one
    rintro ⟨length, herror⟩
    by_contra hnone
    have hfault := hshort fun tag htag s hs hlong => hnone ⟨tag, htag, s, hs, hlong⟩
    rw [herror] at hfault
    obtain ⟨tag, -, htag⟩ := List.exists_of_findSome?_eq_some hfault.symm
    exact fault?_ne_stringTooLong htag
  · intro hlong
    obtain ⟨length, hadd⟩ :=
      StringPool.addAll_eq_stringTooLong (exists_tooLong_iff.mpr hlong) hfits
    refine ⟨length, ?_⟩
    rw [compile, collection_eq, ← stringsOf, hadd]
    rfl
  · intro hnone error
    rw [← failure?_eq_some_iff, hshort hnone]

/-- When they are not let pass, the prefix `q` on the first element is reported. -/
theorem failure_of_compile_nested :
    compile {} nested = .error (.unboundPrefix "q" "a") := by
  have hfits : StringPool.entriesSize .utf8
      ((stringsOf nested).eraseDups.filter (¬ StringEntry.TooLong .utf8 ·)) < UInt32.size := by
    rw [stringsOf_nested]
    decide +kernel
  have hshort : ∀ tag ∈ nested.openTags, ∀ s ∈ tag.strings, ¬ StringEntry.TooLong .utf8 s :=
    fun tag htag s hs => not_tooLong_of_mem_nested s (mem_stringsOf_of_mem_strings htag hs)
  exact ((failure_of_compile hfits).2.1 hshort _).mpr (by decide +kernel)

end Compile

end BinaryXml
