import BinaryXml.Proofs.Compile.Hoisting

/-!
# The two policies for unbound prefixes

The policy is asked at one place, where a prefix is resolved, and there the policy `sentinel` gives
an index where `reject` fails. Everything around that place is the same program, so the two runs
agree until the first prefix that is bound nowhere (`relaxes_compile`). What `sentinel` compiles
beyond `reject` are the documents with such prefixes, and it gives the sentinel to the attributes
that have one and to no others.
-/

namespace BinaryXml.Compile

variable {α β : Type} {encoding : StringEncoding} {document : Document} {collected : Collection}
  {unbound : UnboundPolicy}

/-! ## Programs that agree up to a refused prefix -/

/-- The lenient program comes to the same as the strict one, unless the strict one refuses a prefix.
-/
def Relaxes (strict lenient : Except Error α) : Prop :=
  lenient = strict ∨ ∃ name element, strict = .error (.unboundPrefix name element)

namespace Relaxes

theorem refl (x : Except Error α) : Relaxes x x :=
  .inl rfl

/-- Programs in a row relax when each step does. -/
theorem bind {x x' : Except Error α} {f f' : α → Except Error β} (h : Relaxes x x')
    (hnext : ∀ a, Relaxes (f a) (f' a)) : Relaxes (x >>= f) (x' >>= f') := by
  rcases h with rfl | ⟨name, element, rfl⟩
  · cases x' with
    | error error => exact refl _
    | ok a => exact hnext a
  · exact .inr ⟨name, element, rfl⟩

theorem map {x x' : Except Error α} (f : α → β) (h : Relaxes x x') :
    Relaxes (f <$> x) (f <$> x') := by
  rcases h with rfl | ⟨name, element, rfl⟩
  · exact refl _
  · exact .inr ⟨name, element, rfl⟩

theorem mapM {f f' : α → Except Error β} (h : ∀ a, Relaxes (f a) (f' a)) (l : List α) :
    Relaxes (l.mapM f) (l.mapM f') := by
  induction l with
  | nil => exact refl _
  | cons a rest ih =>
    rw [List.mapM_cons, List.mapM_cons]
    exact (h a).bind fun b => ih.bind fun made => refl _

/-- What the strict program comes to the lenient one comes to as well. -/
theorem eq_ok {x x' : Except Error α} (h : Relaxes x x') {a : α} (hx : x = .ok a) :
    x' = .ok a := by
  rcases h with rfl | ⟨name, element, herror⟩
  · exact hx
  · rw [hx] at herror
    cases herror

theorem eq_error {x x' : Except Error α} (h : Relaxes x x') {error : Error} (hx : x = .error error)
    (hother : ∀ name element, error ≠ .unboundPrefix name element) : x' = .error error := by
  rcases h with rfl | ⟨name, element, herror⟩
  · exact hx
  · rw [hx, Except.error.injEq] at herror
    exact absurd herror (hother name element)

end Relaxes

/-! ## The two runs -/

/-- The one place where the policies differ. -/
theorem relaxes_resolve (namespaces : NamespaceTable) (element name : String) :
    Relaxes (resolve .reject namespaces element name)
      (resolve .sentinel namespaces element name) := by
  unfold resolve
  cases namespaces.resolve name with
  | some uri => exact .refl _
  | none => exact .inr ⟨name, element, rfl⟩

/-- The policy matters to an attribute through its prefix only. -/
theorem relaxes_buildAttribute (element : String) (attr : Option String × String × String) :
    Relaxes (buildAttribute .reject collected element attr)
      (buildAttribute .sentinel collected element attr) := by
  obtain ⟨qualifier, localName, value⟩ := attr
  rw [buildAttribute_eq, buildAttribute_eq]
  refine .bind ?_ fun uri => .refl _
  cases qualifier with
  | none => exact .refl _
  | some name => exact (relaxes_resolve _ element name).map some

theorem relaxes_buildStartTag (tag : OpenTag) :
    Relaxes (buildStartTag .reject collected tag) (buildStartTag .sentinel collected tag) := by
  unfold buildStartTag
  exact .bind (.mapM (relaxes_buildAttribute tag.name) _) fun attributes => .refl _

theorem relaxes_build (event : WalkEvent) :
    Relaxes (build .reject collected event) (build .sentinel collected event) := by
  cases event with
  | start tag => exact (relaxes_buildStartTag tag).map _
  | declaration name uri => exact .refl _
  | finish name line => exact .refl _

/-- The policy matters to no event before the first prefix that is refused. -/
theorem relaxes_buildAll (events : List WalkEvent) :
    Relaxes (buildAll .reject collected events) (buildAll .sentinel collected events) := by
  induction events with
  | nil => exact .refl _
  | cons event rest ih =>
    rw [buildAll, buildAll]
    exact (relaxes_build event).bind fun front => ih.bind fun back => .refl _

/-- **The runs agree until a prefix is refused.** What the first walk collects does not depend on
the policy. -/
theorem relaxes_compile (encoding : StringEncoding) (document : Document) :
    Relaxes (compile { encoding, unbound := .reject } document)
      (compile { encoding, unbound := .sentinel } document) := by
  rw [compile, compile]
  refine .bind (.refl _) fun collected => .bind ?_ fun tags => .refl _
  rw [tags_eq, tags_eq]
  exact (relaxes_buildAll _).map _

/-! ## Unbound prefixes -/

/-- The attribute has a prefix that the document binds nowhere. -/
def UnboundIn (document : Document) (attr : Option String × String × String) : Prop :=
  ∃ name, attr.1 = some name ∧ ¬ Bound document name

/-- The attribute has the sentinel for its namespace since no binding resolves its prefix. -/
def BySentinel (namespaces : NamespaceTable) (attr : Option String × String × String)
    (built : Attribute) : Prop :=
  ∃ name, attr.1 = some name ∧ namespaces.resolve name = none ∧
    built.uri = some UnboundPolicy.sentinelIndex

/-- The namespace of the built attribute is settled by the bindings of the document, or else by the
sentinel. -/
structure SettledIn (document : Document) (collected : Collection)
    (attr : Option String × String × String) (built : Attribute) : Prop where
  /-- The sentinel stands for the prefixes that are bound nowhere, and for no others. -/
  bySentinel_iff : BySentinel collected.namespaces attr built ↔ UnboundIn document attr
  /-- Without such a prefix the namespace is what the prefix is resolved to, or none at all. -/
  uri_eq : ¬ UnboundIn document attr → built.uri = attr.1.bind collected.namespaces.resolve
  /-- What it is resolved to is the uri of the first declaration. -/
  resolvedIn : built.ResolvedIn document collected.pool attr

/-- Under the policy `sentinel` an attribute is built with what its prefix is resolved to, or with
the sentinel. -/
theorem settledIn_of_build (h : collection encoding document = .ok collected) {tag : OpenTag}
    (htag : tag ∈ document.openTags) {attr : Option String × String × String}
    (hattr : attr ∈ tag.ordinary) {built : Attribute}
    (hbuilt : buildAttribute .sentinel collected tag.name attr = .ok built) :
    SettledIn document collected attr built := by
  have hresolved := resolvedIn_of_build h htag hattr hbuilt
  obtain ⟨qualifier, localName, value⟩ := attr
  obtain ⟨uri, valueIndex, nameIndex, huri, -, -, rfl⟩ := buildAttribute_eq_ok_iff.mp hbuilt
  cases qualifier with
  | none =>
    -- there is no prefix to be bound or unbound
    cases huri
    constructor
    · constructor
      · rintro ⟨_, ⟨⟩, -⟩
      · rintro ⟨_, ⟨⟩, -⟩
    · exact fun _ => rfl
    · exact hresolved
  | some name =>
    -- the table resolves the prefixes that the document binds, and no others
    have hnone := resolve_eq_none_iff h htag hattr rfl
    obtain ⟨index, hindex, rfl⟩ := map_eq_ok_iff.mp huri
    constructor
    · constructor
      · rintro ⟨_, ⟨⟩, hunresolved, -⟩
        exact ⟨name, rfl, hnone.mp hunresolved⟩
      · rintro ⟨_, ⟨⟩, hunbound⟩
        have hunresolved := hnone.mpr hunbound
        rcases resolve_eq_ok_iff.mp hindex with hbound | ⟨-, -, rfl⟩
        · rw [hunresolved] at hbound
          cases hbound
        · exact ⟨name, rfl, hunresolved, rfl⟩
    · intro hbound
      rcases resolve_eq_ok_iff.mp hindex with hresolve | ⟨hunresolved, -, -⟩
      · exact hresolve.symm
      · exact absurd ⟨name, rfl, hnone.mp hunresolved⟩ hbound
    · exact hresolved

/-! ## When either policy compiles -/

/-- The prefix of an attribute passes when it is bound or the policy does not reject it. -/
theorem unboundPrefix?_eq_none_iff {attr : Option String × String × String} :
    unboundPrefix? unbound document attr = none ↔
      (unbound = .reject → ¬ UnboundIn document attr) := by
  rw [unboundPrefix?, Option.filter_eq_none_iff]
  simp only [decide_eq_true_eq]
  constructor
  · rintro h hreject ⟨name, hname, hunbound⟩
    exact h name hname ⟨hreject, hunbound⟩
  · rintro h name hname ⟨hreject, hunbound⟩
    exact h hreject ⟨name, hname, hunbound⟩

/-- An element has no fault when all its prefixes pass and its attributes are not too many. -/
theorem fault?_eq_none_iff {tag : OpenTag} :
    fault? unbound document tag = none ↔
      (∀ attr ∈ tag.ordinary, unboundPrefix? unbound document attr = none) ∧
        tag.ordinary.length ≤ Chunk.greatestAttributeCount := by
  rw [← List.findSome?_eq_none_iff, fault?]
  cases tag.ordinary.findSome? (unboundPrefix? unbound document) with
  | some name => simp
  | none => simp

/-- Once the strings are collected, it is the elements that decide. -/
theorem exists_compile_iff {options : Options}
    (h : collection options.encoding document = .ok collected) :
    (∃ file, compile options document = .ok file) ↔
      ∀ tag ∈ document.openTags, fault? options.unbound document tag = none := by
  rw [← List.findSome?_eq_none_iff, ← failure?_tags h, ← failure?_eq_none_iff, compile, h]
  show failure? (tags _ _ _ >>= fun tags => pure (assemble _ tags)) = none ↔ _
  rw [failure?_bind fun _ => rfl]

/-- A name that an entry cannot hold is refused under either policy. -/
theorem compile_eq_stringTooLong (unbound : UnboundPolicy) {name : String}
    (h : StringEntry.TooLong encoding name) (line : UInt32) :
    ∃ length, compile { encoding, unbound } [.element name [] [] line]
      = .error (.stringTooLong length) := by
  have hnone : ([name, name].eraseDups.filter (¬ StringEntry.TooLong encoding ·)) = [] := by
    -- the name is the only string, and it has no entry
    refine List.filter_eq_nil_iff.mpr fun s hs => ?_
    obtain rfl : s = name := by simpa using List.mem_eraseDups.mp hs
    simpa using h
  have hfits : StringPool.entriesSize encoding
      ([name, name].eraseDups.filter (¬ StringEntry.TooLong encoding ·)) < UInt32.size := by
    rw [hnone, StringPool.entriesSize]
    decide
  obtain ⟨length, hadd⟩ :=
    StringPool.addAll_eq_stringTooLong ⟨name, List.mem_cons_self, h⟩ hfits
  have hstrings : stringsOf [.element name [] [] line] = [name, name] := rfl
  refine ⟨length, ?_⟩
  rw [compile, collection_eq, ← stringsOf, hstrings, hadd]
  rfl

/-- A document whose only prefix is bound. -/
def declaredPrefix : Document :=
  [.element "a" [("p:k", "v"), ("xmlns:p", "u")] [] 1]

/-- A name of that many letters. -/
def longName (length : Nat) : String :=
  String.ofList (List.replicate length 'a')

/-- A name of more letters than an entry can count is too long. -/
theorem tooLong_longName {length : Nat} (h : StringEntry.greatestUtf8Length < length) :
    StringEntry.TooLong .utf8 (longName length) := by
  have hbytes : ∀ n, String.utf8Len (List.replicate n 'a') = n := by
    intro n
    induction n with
    | zero => rfl
    | succ n ih =>
      rw [List.replicate_succ, String.utf8Len_cons, ih]
      rfl
  show StringEntry.greatestUtf8Length < (longName length).utf8ByteSize
  rwa [longName, String.utf8ByteSize_ofList, hbytes]

/-- **The policy `sentinel` extends the policy `reject`.** It compiles the same file wherever
`reject` compiles one, and fails as `reject` does unless that refuses a prefix. In all it compiles,
the prefixes that are bound nowhere have the sentinel and the others the namespace that they are
bound to; `reject` compiles the same exactly when there are none of the former. -/
theorem sentinel_extends_reject (encoding : StringEncoding) (document : Document) :
    (∀ file, compile { encoding, unbound := .reject } document = .ok file →
      compile { encoding, unbound := .sentinel } document = .ok file) ∧
    (∀ error, compile { encoding, unbound := .reject } document = .error error →
      (∀ name element, error ≠ .unboundPrefix name element) →
      compile { encoding, unbound := .sentinel } document = .error error) ∧
    ∀ file, compile { encoding, unbound := .sentinel } document = .ok file →
      (∃ collected, collection encoding document = .ok collected ∧
        file.stringPool? = some collected.pool ∧
        List.Forall₂ (fun tag built =>
            List.Forall₂ (SettledIn document collected) tag.ordinary built.attributes)
          document.openTags file.startTags) ∧
      ((∃ strict, compile { encoding, unbound := .reject } document = .ok strict) ↔
        ∀ tag ∈ document.openTags, ∀ attr ∈ tag.ordinary, ¬ UnboundIn document attr) := by
  have hrelaxes := relaxes_compile encoding document
  refine ⟨fun file => hrelaxes.eq_ok, fun error => hrelaxes.eq_error, fun file h => ?_⟩
  obtain ⟨collected, chunks, hcollected, hchunks, rfl⟩ := compile_eq_ok_iff.mp h
  constructor
  · refine ⟨collected, hcollected, rfl, ?_⟩
    have htags := startTags_of_buildAll hchunks
    rw [document.filterMap_tag?_trace] at htags
    have hboth := (List.forall₂_and_left _ _).mpr ⟨fun tag htag => htag, htags⟩
    rw [startTags_assemble]
    refine hboth.imp fun tag built hbuilt => ?_
    obtain ⟨attributes, name, hattributes, -, -, rfl⟩ := buildStartTag_eq_ok_iff.mp hbuilt.2
    have hown := (List.forall₂_and_left _ _).mpr ⟨fun attr hattr => hattr, hattributes⟩
    exact hown.imp fun attr made hmade => settledIn_of_build hcollected hbuilt.1 hmade.1 hmade.2
  · -- no element has too many attributes, so prefixes are all that `reject` can find fault with
    have hcounts := (exists_compile_iff hcollected).mp ⟨_, h⟩
    have hstrict : (∃ strict, compile { encoding, unbound := .reject } document = .ok strict) ↔
        ∀ tag ∈ document.openTags, fault? .reject document tag = none :=
      exists_compile_iff hcollected
    rw [hstrict]
    simp only [fault?_eq_none_iff, unboundPrefix?_eq_none_iff] at hcounts ⊢
    exact ⟨fun hbound tag htag attr hattr => (hbound tag htag).1 attr hattr trivial,
      fun hbound tag htag => ⟨fun attr hattr _ => hbound tag htag attr hattr, (hcounts tag htag).2⟩⟩

/-- A document that both policies compile, one that both refuse, and one that only `sentinel`
compiles. -/
theorem sentinel_extends_reject_nested :
    (∃ file, compile { unbound := .reject } declaredPrefix = .ok file ∧
      compile { unbound := .sentinel } declaredPrefix = .ok file) ∧
    (∃ length, compile { unbound := .reject } [.element (longName 0x8000) [] [] 1]
        = .error (.stringTooLong length) ∧
      compile { unbound := .sentinel } [.element (longName 0x8000) [] [] 1]
        = .error (.stringTooLong length)) ∧
    ∃ file, compile { unbound := .sentinel } nested = .ok file ∧
      (∃ collected, collection .utf8 nested = .ok collected ∧
        file.stringPool? = some collected.pool ∧
        List.Forall₂ (fun tag built =>
            List.Forall₂ (SettledIn nested collected) tag.ordinary built.attributes)
          (Document.openTags nested) file.startTags) ∧
      ¬ ∃ strict, compile { unbound := .reject } nested = .ok strict := by
  refine ⟨?_, ?_, ?_⟩
  · obtain ⟨file, hfile⟩ : ∃ file, compile { unbound := .reject } declaredPrefix = .ok file :=
      exists_compile (by decide +kernel) (by decide +kernel) (by decide +kernel)
    exact ⟨file, hfile, (sentinel_extends_reject .utf8 declaredPrefix).1 file hfile⟩
  · have hlong : StringEntry.TooLong .utf8 (longName 0x8000) := tooLong_longName (by decide)
    obtain ⟨length, herror⟩ := compile_eq_stringTooLong .reject hlong 1
    exact ⟨length, herror, (sentinel_extends_reject .utf8 _).2.1 _ herror nofun⟩
  · obtain ⟨file, hfile⟩ := exists_compile_nested
    obtain ⟨hsettled, hstrict⟩ := (sentinel_extends_reject .utf8 nested).2.2 file hfile
    refine ⟨file, hfile, hsettled, fun hok => ?_⟩
    have hunbound : UnboundIn nested (some "q", "k", "v") := ⟨"q", rfl, by decide +kernel⟩
    exact hstrict.mp hok _ List.mem_cons_self (some "q", "k", "v") (by decide +kernel) hunbound

end BinaryXml.Compile
