import BinaryXml.Proofs.Compile.Failing

/-!
# The order of the strings

The pool of a compiled document lists the strings of its elements, depth first and in order, each
where it first comes. The other events of the first walk add strings too, but only such as the start
of an element has brought before (`Introduced`), so none of them shows in the pool.
-/

namespace BinaryXml

/-- The strings that the elements of a document bring, depth first and in order. -/
def Document.collected (document : Document) : List String :=
  document.openTags.flatMap OpenTag.collected

namespace Compile

/-! ## The strings of an event -/

/-- The strings that the first walk adds at an event, in order. -/
def eventStrings (event : WalkEvent) : List String :=
  (eventSteps event).flatMap Step.strings

theorem eventStrings_start (tag : OpenTag) : eventStrings (.start tag) = tag.collected :=
  strings_startSteps tag

theorem stringsOf_eq_flatMap_eventStrings (document : Document) :
    stringsOf document = document.trace.flatMap eventStrings :=
  List.flatMap_assoc

/-! ## Only starts bring strings -/

/-- The strings that an event brings when it is the start of an element. -/
def brought : WalkEvent → List String
  | .start tag => tag.collected
  | _ => []

/-- Every event that does not start an element adds only strings which have come before, among those
`seen` or at the start of an element. -/
inductive Introduced : List String → List WalkEvent → Prop
  | nil (seen : List String) : Introduced seen []
  | start {seen : List String} {tag : OpenTag} {rest : List WalkEvent}
      (hrest : Introduced (seen ++ tag.collected) rest) : Introduced seen (.start tag :: rest)
  | later {seen : List String} {event : WalkEvent} {rest : List WalkEvent}
      (hevent : event.tag? = none) (hstrings : eventStrings event ⊆ seen)
      (hrest : Introduced seen rest) : Introduced seen (event :: rest)

theorem brought_of_tag?_eq_none {event : WalkEvent} (h : event.tag? = none) :
    brought event = [] := by
  cases event with
  | start tag => cases h
  | _ => rfl

/-- What an event brings it also adds. -/
theorem brought_subset (event : WalkEvent) : brought event ⊆ eventStrings event := by
  cases event with
  | start tag =>
    rw [eventStrings_start]
    exact List.Subset.refl _
  | _ => exact List.nil_subset _

namespace Introduced

/-- Events behind others may repeat what the others have brought. -/
theorem append {seen : List String} {first second : List WalkEvent} (hfirst : Introduced seen first)
    (hsecond : Introduced (seen ++ first.flatMap brought) second) :
    Introduced seen (first ++ second) := by
  induction hfirst with
  | nil seen => rwa [List.flatMap_nil, List.append_nil] at hsecond
  | start hrest ih =>
    rw [List.flatMap_cons, ← List.append_assoc] at hsecond
    exact .start (ih hsecond)
  | later hevent hstrings hrest ih =>
    -- an event of another kind brings nothing that the second part could build on
    rw [List.flatMap_cons, brought_of_tag?_eq_none hevent] at hsecond
    exact .later hevent hstrings (ih hsecond)

/-- Wherever the events are split, what does not start an element adds nothing new. -/
theorem eventStrings_subset {seen : List String} {before after : List WalkEvent} {event : WalkEvent}
    (h : Introduced seen (before ++ event :: after)) (hevent : event.tag? = none) :
    eventStrings event ⊆ seen ++ before.flatMap brought := by
  induction before generalizing seen with
  | nil =>
    rw [List.flatMap_nil, List.append_nil]
    cases h with
    -- the event itself starts no element
    | start hrest => cases hevent
    | later _ hstrings _ => exact hstrings
  | cons first rest ih =>
    rw [List.flatMap_cons]
    cases h with
    | start hrest =>
      rw [← List.append_assoc]
      exact ih hrest
    | later hfirst _ hrest =>
      rw [brought_of_tag?_eq_none hfirst]
      exact ih hrest

/-- Without its repeats, all that is added is what the starts of the elements bring. -/
theorem eraseDups_eq {seen : List String} {events : List WalkEvent} (h : Introduced seen events) :
    (seen ++ events.flatMap eventStrings).eraseDups
      = (seen ++ events.flatMap brought).eraseDups := by
  induction h with
  | nil seen => rfl
  | start hrest ih =>
    rw [List.flatMap_cons, List.flatMap_cons, eventStrings_start, brought, ← List.append_assoc, ih,
      List.append_assoc]
  | later hevent hstrings hrest ih =>
    rw [List.flatMap_cons, List.flatMap_cons, brought_of_tag?_eq_none hevent,
      eraseDups_append_append_of_subset hstrings, ih, List.nil_append]

end Introduced

/-- Declarations add nothing when their strings have been seen. -/
theorem introduced_declarations {seen : List String} {declarations : List (String × String)}
    (h : (declarations.flatMap fun (name, uri) => [name, uri]) ⊆ seen) :
    Introduced seen (declarations.map fun (name, uri) => .declaration name uri) := by
  induction declarations with
  | nil => exact .nil seen
  | cons declared rest ih =>
    rw [List.flatMap_cons, List.append_subset] at h
    exact .later rfl h.1 (ih h.2)

theorem declarations_subset_collected (tag : OpenTag) :
    (tag.declarations.flatMap fun (name, uri) => [name, uri]) ⊆ tag.collected :=
  List.subset_append_of_subset_left _ (List.subset_cons_self _ _)

mutual

/-- The name of an element and the declarations on it stand on its start, in front of all that is
below it. -/
theorem introduced_trace (seen : List String) : ∀ node : Node, Introduced seen node.trace
  | .element name attributes children line => by
    have hdeclarations := introduced_declarations (List.subset_append_of_subset_right seen
      (declarations_subset_collected (.ofElement name attributes line)))
    have hname : [name] ⊆ OpenTag.collected (.ofElement name attributes line) :=
      List.cons_subset.mpr ⟨List.mem_cons_self, List.nil_subset _⟩
    have hbody := hdeclarations.append (introduced_traceAll _ children)
    refine .start (hbody.append (.later rfl ?_ (.nil _)))
    exact List.subset_append_of_subset_left _ (List.subset_append_of_subset_right seen hname)
  | .text _ => .nil seen
  | .comment _ => .nil seen

theorem introduced_traceAll (seen : List String) : ∀ nodes, Introduced seen (traceAll nodes)
  | [] => .nil seen
  | node :: rest => (introduced_trace seen node).append (introduced_traceAll _ rest)

end

/-- What the events bring are the strings that the elements bring. -/
theorem flatMap_brought_trace (document : Document) :
    document.trace.flatMap brought = document.collected := by
  refine flatMap_traceAll brought OpenTag.collected (fun tag => ?_) (fun _ _ => rfl) document
  rw [OpenTag.events, List.flatMap_cons, List.flatMap_map]
  simp [brought]

/-- Without repeats, the strings of the first walk are those of the elements. -/
theorem eraseDups_stringsOf (document : Document) :
    (stringsOf document).eraseDups = document.collected.eraseDups := by
  have hstarts := (introduced_traceAll [] document).eraseDups_eq
  rw [List.nil_append, List.nil_append] at hstarts
  rw [stringsOf_eq_flatMap_eventStrings, Document.trace, hstarts]
  exact congrArg _ (flatMap_brought_trace document)

/-! ## The pool -/

variable {document : Document} {encoding : StringEncoding}

/-- Steps whose strings find a place are performed. -/
theorem perform_of_addAll {steps : List Step} {c : Collection} {pool : StringPool}
    (h : c.pool.addAll (steps.flatMap Step.strings) = .ok pool) :
    perform steps c
      = .ok ((), ⟨pool, c.namespaces.run (steps.flatMap (Step.calls pool.place))⟩) := by
  rw [perform, h]

/-- A walk that gets through some events gets through those at the front. -/
theorem exists_forM_deliver {before after : List WalkEvent} {pool : StringPool}
    (h : StringPool.addAll ((before ++ after).flatMap eventStrings) { encoding } = .ok pool) :
    ∃ c : Collection, before.forM collector.deliver { pool := { encoding } } = .ok ((), c) ∧
      StringPool.addAll (before.flatMap eventStrings) { encoding } = .ok c.pool := by
  rw [List.flatMap_append, StringPool.addAll_append] at h
  cases hbefore : StringPool.addAll (before.flatMap eventStrings) { encoding } with
  | error error =>
    rw [hbefore] at h
    cases h
  | ok middle =>
    have hstrings : (before.flatMap eventSteps).flatMap Step.strings
        = before.flatMap eventStrings := List.flatMap_assoc
    rw [forM_eq_perform before fun event _ => deliver_collector event]
    rw [← hstrings] at hbefore
    exact ⟨_, perform_of_addAll hbefore, rfl⟩

/-- An event whose strings are all there leaves the pool as it is. -/
theorem exists_deliver_collector {event : WalkEvent} {c : Collection}
    (h : ∀ s ∈ eventStrings event, ∃ i, c.pool.indexOf? s = some i) :
    ∃ c' : Collection, collector.deliver event c = .ok ((), c') ∧ c'.pool = c.pool := by
  rw [deliver_collector]
  exact ⟨_, perform_of_addAll (StringPool.addAll_eq_self h), rfl⟩

/-- **The order of the strings.** The pool of a document that compiles lists the strings of its
elements without their repeats, depth first and in order: the name, the prefix and uri of every
declaration, and then of every other attribute the local name, the prefix and the value. Where the
first walk meets a declaration or the end of an element, the pool stays as it is. -/
theorem strings_of_compile {options : Options} {file : ChunkFile}
    (h : compile options document = .ok file) :
    ∃ pool, file.stringPool? = some pool ∧ pool.encoding = options.encoding ∧
      pool.strings.toList = document.collected.eraseDups ∧
      ∀ before event after, document.trace = before ++ event :: after → event.tag? = none →
        ∃ c c' : Collection,
          before.forM collector.deliver { pool := { encoding := options.encoding } }
            = .ok ((), c) ∧
          collector.deliver event c = .ok ((), c') ∧ c'.pool = c.pool := by
  obtain ⟨collected, chunks, hcollected, -, rfl⟩ := compile_eq_ok_iff.mp h
  have hadd := (collection_eq_ok_iff.mp hcollected).1
  have hintroduced := introduced_traceAll [] document
  rw [stringsOf_eq_flatMap_eventStrings] at hadd
  refine ⟨collected.pool, rfl, encoding_of_collection hcollected, ?_, ?_⟩
  · rw [strings_of_collection hcollected, eraseDups_stringsOf]
  · intro before event after htrace hevent
    rw [htrace] at hadd
    obtain ⟨c, hbefore, hpool⟩ := exists_forM_deliver hadd
    have hseen : eventStrings event ⊆ before.flatMap eventStrings := by
      -- what the event adds was brought by a start before it
      have hbrought := (htrace ▸ hintroduced : Introduced [] (before ++ event :: after))
        |>.eventStrings_subset hevent
      intro s hs
      obtain ⟨first, hfirst, hs⟩ := List.mem_flatMap.mp (hbrought hs)
      exact List.mem_flatMap.mpr ⟨first, hfirst, brought_subset first hs⟩
    obtain ⟨c', hdeliver, hsame⟩ := exists_deliver_collector fun s hs =>
      StringPool.exists_indexOf?_of_addAll hpool s (hseen hs)
    exact ⟨c, c', hbefore, hdeliver, hsame⟩

/-- Each string is in the pool once, where it is first met, and the uri of `xmlPrefix` behind the
value of the attribute that uses it. -/
theorem strings_of_compile_nested :
    ∃ file, compile { unbound := .sentinel } nested = .ok file ∧
      ∃ pool, file.stringPool? = some pool ∧ pool.encoding = .utf8 ∧
        pool.strings.toList = ["a", "k", "p", "v", "lang", "xml", "en", xmlNamespaceUri, "q", "n",
          "b", "u", "", "w"] ∧
        ∀ before event after, Document.trace nested = before ++ event :: after →
          event.tag? = none → ∃ c c' : Collection,
            before.forM collector.deliver { pool := { encoding := .utf8 } } = .ok ((), c) ∧
            collector.deliver event c = .ok ((), c') ∧ c'.pool = c.pool := by
  obtain ⟨file, hfile⟩ := exists_compile_nested
  have hcollected : (Document.collected nested).eraseDups
      = ["a", "k", "p", "v", "lang", "xml", "en", xmlNamespaceUri, "q", "n", "b", "u", "",
          "w"] := by
    decide +kernel
  have hstrings := strings_of_compile hfile
  rw [hcollected] at hstrings
  exact ⟨file, hfile, hstrings⟩

end Compile

end BinaryXml
