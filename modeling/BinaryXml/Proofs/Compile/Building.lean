import BinaryXml.Proofs.Compile.Bindings
import BinaryXml.Proofs.File.Forest

/-!
# The second walk, event by event

The second walk builds the tags of each event by themselves (`build`) and puts them in a row
(`tags_eq`). What is built, is built of strings at their places and of prefixes at their uris
(`buildAttribute_eq_ok_iff`, `buildStartTag_eq_ok_iff`).
-/

namespace BinaryXml.Compile

variable {unbound : UnboundPolicy} {collected : Collection}

/-! ## What is built -/

theorem indexIn_eq_ok_iff {pool : StringPool} {s : String} {index : UInt32} :
    indexIn pool s = .ok index ↔ pool.indexOf? s = some index := by
  unfold indexIn
  cases pool.indexOf? s with
  | none => exact ⟨fun h => (by cases h), fun h => (by cases h)⟩
  | some found =>
    show Except.ok found = Except.ok index ↔ _
    rw [Except.ok.injEq, Option.some.injEq]

/-- A prefix is resolved to the uri that it is bound to. The policy `sentinel` gives the others an
index as well. -/
theorem resolve_eq_ok_iff {namespaces : NamespaceTable} {element name : String} {uri : UInt32} :
    resolve unbound namespaces element name = .ok uri ↔
      namespaces.resolve name = some uri ∨
        namespaces.resolve name = none ∧ unbound = .sentinel ∧
          uri = UnboundPolicy.sentinelIndex := by
  unfold resolve
  cases namespaces.resolve name with
  | some found => simp
  | none => cases unbound <;> simp [eq_comm]

/-- The namespace index of an attribute with or without a prefix. -/
def namespaceOf (unbound : UnboundPolicy) (namespaces : NamespaceTable) (element : String) :
    Option String → Except Error (Option UInt32)
  | none => .ok none
  | some name => some <$> resolve unbound namespaces element name

/-- An attribute with a prefix and one without are built by the same steps. -/
theorem buildAttribute_eq (element : String) (qualifier : Option String)
    (localName value : String) :
    buildAttribute unbound collected element (qualifier, localName, value) = (do
      let uri ← namespaceOf unbound collected.namespaces element qualifier
      let valueIndex ← indexIn collected.pool value
      let nameIndex ← indexIn collected.pool localName
      return ⟨uri, nameIndex, some valueIndex, .string valueIndex⟩) := by
  cases qualifier <;> rfl

/-- An attribute is built when its prefix is resolved and its strings are found. The value is there
twice, as text and typed. -/
theorem buildAttribute_eq_ok_iff {element localName value : String} {qualifier : Option String}
    {attr : Attribute} :
    buildAttribute unbound collected element (qualifier, localName, value) = .ok attr ↔
      ∃ uri valueIndex nameIndex,
        namespaceOf unbound collected.namespaces element qualifier = .ok uri ∧
        collected.pool.indexOf? value = some valueIndex ∧
        collected.pool.indexOf? localName = some nameIndex ∧
        attr = ⟨uri, nameIndex, some valueIndex, .string valueIndex⟩ := by
  rw [buildAttribute_eq]
  simp only [bind_eq_ok_iff, pure_eq_ok_iff, indexIn_eq_ok_iff]
  constructor
  · rintro ⟨uri, huri, valueIndex, hvalue, nameIndex, hname, rfl⟩
    exact ⟨uri, valueIndex, nameIndex, huri, hvalue, hname, rfl⟩
  · rintro ⟨uri, valueIndex, nameIndex, huri, hvalue, hname, rfl⟩
    exact ⟨uri, huri, valueIndex, hvalue, nameIndex, hname, rfl⟩

/-- A start tag has the attributes of its element in order, and there are not too many of them. -/
theorem buildStartTag_eq_ok_iff {tag : OpenTag} {built : StartTag} :
    buildStartTag unbound collected tag = .ok built ↔
      ∃ attributes name,
        List.Forall₂ (fun attr made => buildAttribute unbound collected tag.name attr = .ok made)
          tag.ordinary attributes ∧
        attributes.length ≤ Chunk.greatestAttributeCount ∧
        collected.pool.indexOf? tag.name = some name ∧
        built = ⟨tag.line, none, none, name, attributes, 0, 0, 0⟩ := by
  unfold buildStartTag
  dsimp only
  simp only [throw_bind, bind_eq_ok_iff, guard_eq_ok_iff, pure_eq_ok_iff, mapM_eq_ok_iff,
    indexIn_eq_ok_iff, Nat.not_lt]
  constructor
  · rintro ⟨attributes, hattributes, hfew, name, hname, rfl⟩
    exact ⟨attributes, name, hattributes, hfew, hname, rfl⟩
  · rintro ⟨attributes, name, hattributes, hfew, hname, rfl⟩
    exact ⟨attributes, hattributes, hfew, name, hname, rfl⟩

/-! ## The events -/

/-- The tags that an event is built into. -/
def build (unbound : UnboundPolicy) (collected : Collection) : WalkEvent → Except Error (List Chunk)
  | .start tag => (fun built => [.startTag built]) <$> buildStartTag unbound collected tag
  | .declaration _ _ => .ok []
  | .finish name line =>
    (fun index => [.endTag ⟨line, none, none, index⟩]) <$> indexIn collected.pool name

/-- The tags that some events are built into. -/
def buildAll (unbound : UnboundPolicy) (collected : Collection) :
    List WalkEvent → Except Error (List Chunk)
  | [] => .ok []
  | event :: rest => do
    let front ← build unbound collected event
    let back ← buildAll unbound collected rest
    return front ++ back

/-- Events are built when the first is and the others are. -/
theorem buildAll_cons_eq_ok_iff {event : WalkEvent} {rest : List WalkEvent} {chunks : List Chunk} :
    buildAll unbound collected (event :: rest) = .ok chunks ↔
      ∃ front back, build unbound collected event = .ok front ∧
        buildAll unbound collected rest = .ok back ∧ chunks = front ++ back := by
  rw [buildAll]
  simp only [bind_eq_ok_iff, pure_eq_ok_iff]
  constructor
  · rintro ⟨front, hfront, back, hback, hchunks⟩
    exact ⟨front, back, hfront, hback, hchunks⟩
  · rintro ⟨front, back, hfront, hback, hchunks⟩
    exact ⟨front, hfront, back, hback, hchunks⟩

/-- Events in two parts are built part by part. -/
theorem buildAll_append_eq_ok_iff {first second : List WalkEvent} {chunks : List Chunk} :
    buildAll unbound collected (first ++ second) = .ok chunks ↔
      ∃ front back, buildAll unbound collected first = .ok front ∧
        buildAll unbound collected second = .ok back ∧ chunks = front ++ back := by
  induction first generalizing chunks with
  | nil =>
    -- without events in the first part it is built into nothing
    constructor
    · intro h
      exact ⟨[], chunks, rfl, h, rfl⟩
    · rintro ⟨front, back, hfront, hback, rfl⟩
      cases hfront
      exact hback
  | cons event rest ih =>
    rw [List.cons_append]
    simp only [buildAll_cons_eq_ok_iff, ih]
    constructor
    · rintro ⟨made, _, hmade, ⟨front, back, hfront, hback, rfl⟩, rfl⟩
      exact ⟨made ++ front, back, ⟨made, front, hmade, hfront, rfl⟩, hback,
        (List.append_assoc _ _ _).symm⟩
    · rintro ⟨_, back, ⟨made, front, hmade, hfront, rfl⟩, hback, rfl⟩
      exact ⟨made, front ++ back, hmade, ⟨front, back, hfront, hback, rfl⟩,
        List.append_assoc _ _ _⟩

theorem buildAll_singleton (event : WalkEvent) :
    buildAll unbound collected [event] = build unbound collected event := by
  rw [buildAll, buildAll]
  cases build unbound collected event with
  | error error => rfl
  | ok chunks =>
    show Except.ok (chunks ++ []) = Except.ok chunks
    rw [List.append_nil]

theorem buildAll_declarations (declared : List (String × String)) :
    buildAll unbound collected (declared.map fun (name, uri) => .declaration name uri)
      = .ok [] := by
  induction declared with
  | nil => rfl
  | cons first rest ih =>
    rw [List.map_cons, buildAll, ih]
    rfl

/-- The events at the start of an element are built into its start tag. -/
theorem buildAll_events_eq_ok_iff {tag : OpenTag} {chunks : List Chunk} :
    buildAll unbound collected tag.events = .ok chunks ↔
      ∃ built, buildStartTag unbound collected tag = .ok built ∧ chunks = [.startTag built] := by
  rw [OpenTag.events, buildAll_cons_eq_ok_iff, build, buildAll_declarations]
  simp only [map_eq_ok_iff]
  constructor
  · rintro ⟨_, _, ⟨built, hbuilt, rfl⟩, h, rfl⟩
    cases h
    exact ⟨built, hbuilt, rfl⟩
  · rintro ⟨built, hbuilt, rfl⟩
    exact ⟨_, [], ⟨built, hbuilt, rfl⟩, rfl, rfl⟩

/-- An element is built into its start tag, what its children are built into, and its end tag. -/
theorem buildAll_element_eq_ok_iff {name : String} {attributes : List (String × String)}
    {children : List Node} {line : UInt32} {chunks : List Chunk} :
    buildAll unbound collected (Node.element name attributes children line).trace = .ok chunks ↔
      ∃ built inner index,
        buildStartTag unbound collected (.ofElement name attributes line) = .ok built ∧
        buildAll unbound collected (traceAll children) = .ok inner ∧
        collected.pool.indexOf? name = some index ∧
        chunks = .startTag built :: inner ++ [.endTag ⟨line, none, none, index⟩] := by
  -- the trace of an element in three parts
  have htrace : (Node.element name attributes children line).trace
      = (OpenTag.ofElement name attributes line).events ++ traceAll children
        ++ [.finish name line] := by
    rw [Node.trace]
    rfl
  rw [htrace, buildAll_append_eq_ok_iff]
  simp only [buildAll_append_eq_ok_iff, buildAll_events_eq_ok_iff, buildAll_singleton, build,
    map_eq_ok_iff, indexIn_eq_ok_iff]
  constructor
  · rintro ⟨_, _, ⟨_, inner, ⟨built, hbuilt, rfl⟩, hinner, rfl⟩, ⟨index, hindex, rfl⟩, rfl⟩
    exact ⟨built, inner, index, hbuilt, hinner, hindex, rfl⟩
  · rintro ⟨built, inner, index, hbuilt, hinner, hindex, rfl⟩
    exact ⟨_, _, ⟨_, inner, ⟨built, hbuilt, rfl⟩, hinner, rfl⟩, ⟨index, hindex, rfl⟩, rfl⟩

/-- Every chunk is built of some event. -/
theorem exists_build_of_mem {events : List WalkEvent} {chunks : List Chunk}
    (h : buildAll unbound collected events = .ok chunks) {chunk : Chunk} (hchunk : chunk ∈ chunks) :
    ∃ event ∈ events, ∃ front, build unbound collected event = .ok front ∧ chunk ∈ front := by
  induction events generalizing chunks with
  | nil =>
    cases h
    cases hchunk
  | cons event rest ih =>
    obtain ⟨front, back, hfront, hback, rfl⟩ := buildAll_cons_eq_ok_iff.mp h
    rcases List.mem_append.mp hchunk with hchunk | hchunk
    · exact ⟨event, List.mem_cons_self, front, hfront, hchunk⟩
    · obtain ⟨other, hother, hbuilt⟩ := ih hback hchunk
      exact ⟨other, List.mem_cons_of_mem _ hother, hbuilt⟩

/-- **Nothing but tags is built**: start tags of elements, and end tags that have a name and no
more. -/
theorem eq_startTag_or_endTag_of_mem {events : List WalkEvent} {chunks : List Chunk}
    (h : buildAll unbound collected events = .ok chunks) {chunk : Chunk} (hchunk : chunk ∈ chunks) :
    (∃ tag built, buildStartTag unbound collected tag = .ok built ∧ chunk = .startTag built) ∨
      ∃ name line index, collected.pool.indexOf? name = some index ∧
        chunk = .endTag ⟨line, none, none, index⟩ := by
  obtain ⟨event, -, front, hfront, hchunk⟩ := exists_build_of_mem h hchunk
  cases event with
  | start tag =>
    obtain ⟨built, hbuilt, rfl⟩ := map_eq_ok_iff.mp hfront
    exact .inl ⟨tag, built, hbuilt, List.mem_singleton.mp hchunk⟩
  | declaration name uri =>
    cases hfront
    cases hchunk
  | finish name line =>
    obtain ⟨index, hindex, rfl⟩ := map_eq_ok_iff.mp hfront
    exact .inr ⟨name, line, index, indexIn_eq_ok_iff.mp hindex, List.mem_singleton.mp hchunk⟩

theorem isTag_of_buildAll {events : List WalkEvent} {chunks : List Chunk}
    (h : buildAll unbound collected events = .ok chunks) :
    ∀ chunk ∈ chunks, chunk.isTag = true := by
  intro chunk hchunk
  rcases eq_startTag_or_endTag_of_mem h hchunk with ⟨_, _, -, rfl⟩ | ⟨_, _, _, -, rfl⟩
  · rfl
  · rfl

/-- The start tag that a chunk is. -/
def startTag? : Chunk → Option StartTag
  | .startTag tag => some tag
  | _ => none

/-- The start tags that are built are those of the elements entered, in order. -/
theorem startTags_of_buildAll {events : List WalkEvent} {chunks : List Chunk}
    (h : buildAll unbound collected events = .ok chunks) :
    List.Forall₂ (fun tag built => buildStartTag unbound collected tag = .ok built)
      (events.filterMap WalkEvent.tag?) (chunks.filterMap startTag?) := by
  induction events generalizing chunks with
  | nil =>
    cases h
    exact .nil
  | cons event rest ih =>
    obtain ⟨front, back, hfront, hback, rfl⟩ := buildAll_cons_eq_ok_iff.mp h
    have hrest := ih hback
    cases event with
    | start tag =>
      -- only the start of an element adds a start tag
      obtain ⟨built, hbuilt, rfl⟩ := map_eq_ok_iff.mp hfront
      exact .cons hbuilt hrest
    | declaration name uri =>
      cases hfront
      exact hrest
    | finish name line =>
      obtain ⟨index, -, rfl⟩ := map_eq_ok_iff.mp hfront
      exact hrest

/-- A visit puts the tags of its event behind those there are. -/
theorem deliver_builder (event : WalkEvent) (done : Array Chunk) :
    (builder unbound collected).deliver event done
      = (fun chunks => ((), done ++ chunks.toArray)) <$> build unbound collected event := by
  cases event with
  | start tag =>
    rw [Visitor.deliver, builder, build]
    dsimp only
    cases buildStartTag unbound collected tag <;> rfl
  | declaration name uri =>
    show Except.ok ((), done) = Except.ok ((), done ++ #[])
    rw [Array.append_empty]
  | finish name line =>
    rw [Visitor.deliver, builder, build]
    dsimp only
    cases indexIn collected.pool name <;> rfl

/-- Delivered to the builder, events leave their tags behind those that are there. -/
theorem forM_builder (events : List WalkEvent) (done : Array Chunk) :
    events.forM (builder unbound collected).deliver done
      = (fun chunks => ((), done ++ chunks.toArray)) <$> buildAll unbound collected events := by
  induction events generalizing done with
  | nil =>
    show Except.ok ((), done) = Except.ok ((), done ++ #[])
    rw [Array.append_empty]
  | cons event rest ih =>
    show ((builder unbound collected).deliver event done >>= fun result =>
      rest.forM (builder unbound collected).deliver result.2) = _
    rw [deliver_builder, buildAll]
    cases build unbound collected event with
    -- the first event that fails ends both
    | error error => rfl
    | ok front =>
      show rest.forM (builder unbound collected).deliver (done ++ front.toArray) = _
      rw [ih]
      cases buildAll unbound collected rest with
      | error error => rfl
      | ok back =>
        show Except.ok ((), done ++ front.toArray ++ back.toArray)
          = Except.ok ((), done ++ (front ++ back).toArray)
        rw [← List.append_toArray, Array.append_assoc]

/-- **The second walk builds the events of the trace one by one.** -/
theorem tags_eq (document : Document) :
    tags unbound collected document
      = List.toArray <$> buildAll unbound collected document.trace := by
  have hwalk : (document.walk (builder unbound collected)).run #[]
      = (fun chunks => ((), #[] ++ chunks.toArray))
          <$> buildAll unbound collected document.trace := by
    rw [document.walk_eq_forM_trace]
    exact forM_builder _ _
  rw [tags, hwalk]
  cases buildAll unbound collected document.trace with
  | error error => rfl
  | ok chunks =>
    show Except.ok (#[] ++ chunks.toArray) = Except.ok chunks.toArray
    rw [Array.empty_append]

/-- **What a compiled file is made of**: what the first walk collects, and what the events of the
trace are built into. -/
theorem compile_eq_ok_iff {options : Options} {document : Document} {file : ChunkFile} :
    compile options document = .ok file ↔
      ∃ collected chunks, collection options.encoding document = .ok collected ∧
        buildAll options.unbound collected document.trace = .ok chunks ∧
        file = assemble collected chunks.toArray := by
  rw [compile]
  simp only [bind_eq_ok_iff, tags_eq, map_eq_ok_iff]
  constructor
  · rintro ⟨collected, hcollected, _, ⟨chunks, hchunks, rfl⟩, hfile⟩
    cases hfile
    exact ⟨collected, chunks, hcollected, hchunks, rfl⟩
  · rintro ⟨collected, chunks, hcollected, hchunks, rfl⟩
    exact ⟨collected, hcollected, _, ⟨chunks, hchunks, rfl⟩, rfl⟩

end BinaryXml.Compile
