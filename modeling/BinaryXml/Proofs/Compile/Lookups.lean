import BinaryXml.Proofs.Compile.Failing

/-!
# What the second walk looks up

The second walk is given what to ask for the index of a string (`tagsBy`); asking the collected
pool, it is `tags`. Here it asks a pool that notes every question, so that the strings it looks up
are known whether it succeeds or not (`asked`). Each of them is one that the first walk has met
(`findsAll_of_collection`).
-/

namespace BinaryXml.Compile

/-! ## The second walk with its questions open -/

section

variable {m : Type → Type} [Monad m] [MonadExceptOf Error m]

/-- The attribute that an ordinary attribute of an element becomes, `ask` giving the indices. -/
def buildAttributeBy (ask : String → m UInt32) (unbound : UnboundPolicy)
    (namespaces : NamespaceTable) (element : String) :
    Option String × String × String → m Attribute
  | (qualifier, localName, value) => do
    let uri ← ofExcept (namespaceOf unbound namespaces element qualifier)
    let valueIndex ← ask value
    let nameIndex ← ask localName
    return ⟨uri, nameIndex, some valueIndex, .string valueIndex⟩

def buildStartTagBy (ask : String → m UInt32) (unbound : UnboundPolicy)
    (namespaces : NamespaceTable) (tag : OpenTag) : m StartTag := do
  let attributes ← tag.ordinary.mapM (buildAttributeBy ask unbound namespaces tag.name)
  if Chunk.greatestAttributeCount < attributes.length then
    throw (.tooManyAttributes tag.name attributes.length)
  let name ← ask tag.name
  return ⟨tag.line, none, none, name, attributes, 0, 0, 0⟩

def builderBy (ask : String → m UInt32) (unbound : UnboundPolicy) (namespaces : NamespaceTable) :
    Visitor (StateT (Array Chunk) m) where
  onStart tag := do
    let startTag ← (buildStartTagBy ask unbound namespaces tag : m StartTag)
    modify (·.push (.startTag startTag))
  onDeclaration _ _ := pure ()
  onEnd name line := do
    let index ← ask name
    modify (·.push (.endTag ⟨line, none, none, index⟩))

def tagsBy (ask : String → m UInt32) (unbound : UnboundPolicy) (namespaces : NamespaceTable)
    (document : Document) : m (Array Chunk) := do
  let (_, tags) ← (document.walk (builderBy ask unbound namespaces)).run #[]
  return tags

end

variable {unbound : UnboundPolicy} {collected : Collection} {document : Document}
  {encoding : StringEncoding} {α β : Type}

theorem ofExcept_eq_self (x : Except Error α) : (ofExcept x : Except Error α) = x := by
  cases x <;> rfl

/-- Asking the collected pool, an attribute is built as in the second walk. -/
theorem buildAttributeBy_indexIn (element : String) :
    buildAttributeBy (indexIn collected.pool) unbound collected.namespaces element
      = buildAttribute unbound collected element := by
  funext ⟨qualifier, localName, value⟩
  rw [buildAttributeBy, buildAttribute_eq, ofExcept_eq_self]

/-- So is everything that the second walk visits. -/
theorem builderBy_indexIn :
    builderBy (indexIn collected.pool) unbound collected.namespaces
      = builder unbound collected := by
  have hstart : buildStartTagBy (indexIn collected.pool) unbound collected.namespaces
      = buildStartTag unbound collected := by
    funext tag
    rw [buildStartTagBy, buildAttributeBy_indexIn]
    rfl
  rw [builderBy, hstart]
  rfl

/-- Asking the collected pool, the second walk is `tags`. -/
theorem tagsBy_indexIn :
    tagsBy (indexIn collected.pool) unbound collected.namespaces document
      = tags unbound collected document := by
  rw [tagsBy, tags, builderBy_indexIn]
  cases (document.walk (builder unbound collected)).run #[] <;> rfl

/-! ## Questions that are noted -/

/-- A program that notes what it asks for, also when it fails. -/
abbrev Noting := EStateM Error (List String)

/-- Ask a pool for the index of a string. -/
def note (pool : StringPool) (s : String) : Noting UInt32 := do
  -- noted before it is known whether the pool holds the string
  modify (· ++ [s])
  ofExcept (indexIn pool s)

/-- How a program with some result ends, given what has been noted by then. -/
def ending (result : Except Error α) (log : List String) :
    EStateM.Result Error (List String) α :=
  match result with
  | .ok a => .ok a log
  | .error error => .error error log

/-- The strings that the second walk looks up in the pool, in order, up to its end or its error. -/
def asked (unbound : UnboundPolicy) (collected : Collection) (document : Document) : List String :=
  match tagsBy (note collected.pool) unbound collected.namespaces document [] with
  | .ok _ log => log
  | .error _ log => log

/-- The program has the result and asks for the strings in order. If it fails, it may stop before it
has asked for all of them. -/
def Asks (strings : List String) (result : Except Error α) (x : Noting α) : Prop :=
  ∃ noted, (∀ log, x log = ending result (log ++ noted)) ∧ noted <+: strings ∧
    ∀ a, result = .ok a → noted = strings

namespace Asks

theorem pure (a : α) : Asks [] (.ok a) (Pure.pure a) :=
  ⟨[], fun log => congrArg (EStateM.Result.ok a) (List.append_nil log).symm, List.prefix_rfl,
    fun _ _ => rfl⟩

theorem fail {strings : List String} (error : Error) :
    Asks strings (.error error) (throw error : Noting α) :=
  ⟨[], fun log => congrArg (EStateM.Result.error error) (List.append_nil log).symm,
    List.nil_prefix, nofun⟩

theorem lift (x : Except Error α) : Asks [] x (ofExcept x : Noting α) := by
  cases x with
  | ok a => exact pure a
  | error error => exact fail error

/-- Asking the pool asks for the string, also when the pool does not hold it. -/
theorem note (pool : StringPool) (s : String) :
    Asks [s] (indexIn pool s) (note pool s) := by
  refine ⟨[s], fun log => ?_, List.prefix_rfl, fun _ _ => rfl⟩
  show (ofExcept (indexIn pool s) : Noting UInt32) (log ++ [s]) = _
  cases indexIn pool s <;> rfl

/-- Programs in a row ask one behind the other. -/
theorem bind {strings strings' : List String} {result : Except Error α} {x : Noting α}
    {next : α → Except Error β} {f : α → Noting β} (hx : Asks strings result x)
    (hf : ∀ a, Asks strings' (next a) (f a)) :
    Asks (strings ++ strings') (result >>= next) (x >>= f) := by
  obtain ⟨noted, hnoted, hle, hall⟩ := hx
  cases result with
  | error error =>
    -- the second program asks for nothing
    refine ⟨noted, fun log => ?_, hle.trans (List.prefix_append _ _), nofun⟩
    show EStateM.bind x f log = _
    rw [EStateM.bind, hnoted]
    rfl
  | ok a =>
    obtain ⟨noted', hnoted', hle', hall'⟩ := hf a
    -- the first program has asked for all of its strings
    obtain rfl := hall a rfl
    refine ⟨noted ++ noted', fun log => ?_, (List.prefix_append_right_inj _).mpr hle',
      fun b hb => congrArg (noted ++ ·) (hall' b hb)⟩
    show EStateM.bind x f log = _
    rw [EStateM.bind, hnoted, ← List.append_assoc]
    exact hnoted' _

theorem map {strings : List String} {result : Except Error α} {x : Noting α} (f : α → β)
    (hx : Asks strings result x) :
    Asks strings (do let a ← result; return f a) (do let a ← x; return f a) := by
  rw [← List.append_nil strings]
  exact hx.bind fun a => pure (f a)

/-- A program for each of some values asks for the strings of all of them in order. -/
theorem mapM {γ : Type} {strings : γ → List String} {f : γ → Noting α} {g : γ → Except Error α}
    (h : ∀ c, Asks (strings c) (g c) (f c)) (l : List γ) :
    Asks (l.flatMap strings) (l.mapM g) (l.mapM f) := by
  induction l with
  | nil => exact pure []
  | cons c rest ih =>
    rw [List.mapM_cons, List.mapM_cons, List.flatMap_cons]
    exact (h c).bind fun a => ih.map (a :: ·)

end Asks

/-! ## What is asked for at an event -/

def attributeLookUps : Option String × String × String → List String
  | (_, localName, value) => [value, localName]

/-- The strings that the second walk looks up at an event, in order. -/
def lookUps : WalkEvent → List String
  | .start tag => tag.ordinary.flatMap attributeLookUps ++ [tag.name]
  | .declaration _ _ => []
  | .finish name _ => [name]

/-- An attribute asks for its value and its local name. Its prefix is not asked for. -/
theorem asks_buildAttributeBy (unbound : UnboundPolicy) (collected : Collection)
    (element : String) (attr : Option String × String × String) :
    Asks (attributeLookUps attr) (buildAttribute unbound collected element attr)
      (buildAttributeBy (note collected.pool) unbound collected.namespaces element attr) := by
  obtain ⟨qualifier, localName, value⟩ := attr
  rw [buildAttribute_eq]
  -- the prefix is resolved in the table of namespaces, which asks for nothing
  exact (Asks.lift _).bind fun uri => (Asks.note _ value).bind fun valueIndex =>
    (Asks.note _ localName).map _

/-- A start tag asks for the strings of its attributes and then for its name. -/
theorem asks_buildStartTagBy (unbound : UnboundPolicy) (collected : Collection) (tag : OpenTag) :
    Asks (lookUps (.start tag)) (buildStartTag unbound collected tag)
      (buildStartTagBy (note collected.pool) unbound collected.namespaces tag) := by
  refine (Asks.mapM (asks_buildAttributeBy _ _ tag.name) tag.ordinary).bind fun attributes => ?_
  dsimp only
  by_cases hmany : Chunk.greatestAttributeCount < attributes.length
  · -- too many attributes, and the name is not asked for
    rw [if_pos hmany, if_pos hmany]
    exact Asks.fail _
  · rw [if_neg hmany, if_neg hmany]
    exact (Asks.note _ tag.name).map _

/-- An event asks for the strings of its tag. -/
theorem asks_deliver (unbound : UnboundPolicy) (collected : Collection) (event : WalkEvent)
    (done : Array Chunk) :
    Asks (lookUps event) ((builder unbound collected).deliver event done)
      ((builderBy (note collected.pool) unbound collected.namespaces).deliver event done) := by
  cases event with
  | start tag =>
    exact ((asks_buildStartTagBy _ _ tag).map fun built => (built, done)).map fun made =>
      ((), made.2.push (.startTag made.1))
  | declaration name uri => exact Asks.pure ((), done)
  | finish name line =>
    exact ((Asks.note collected.pool name).map fun index => (index, done)).map fun made =>
      ((), made.2.push (.endTag ⟨line, none, none, made.1⟩))

/-- **A walk asks for the strings of its events in order.** -/
theorem asks_forM_deliver (unbound : UnboundPolicy) (collected : Collection)
    (events : List WalkEvent) (done : Array Chunk) :
    Asks (events.flatMap lookUps) (events.forM (builder unbound collected).deliver done)
      (events.forM
        (builderBy (note collected.pool) unbound collected.namespaces).deliver done) := by
  induction events generalizing done with
  | nil => exact Asks.pure ((), done)
  | cons event rest ih =>
    rw [List.flatMap_cons]
    exact (asks_deliver _ _ event done).bind fun result => ih result.2

/-- **The second walk asks for the strings of its trace in order**, and comes to the same as without
the notes. -/
theorem asks_tagsBy (unbound : UnboundPolicy) (collected : Collection) (document : Document) :
    Asks (document.trace.flatMap lookUps) (tags unbound collected document)
      (tagsBy (note collected.pool) unbound collected.namespaces document) := by
  have hwalk := asks_forM_deliver unbound collected document.trace #[]
  rw [← tagsBy_indexIn, tagsBy, tagsBy, builderBy_indexIn, document.walk_eq_forM_trace,
    document.walk_eq_forM_trace]
  exact hwalk.map _

/-! ## Nothing is missing -/

/-- What the second walk looks up is what the first walk has met at the same event. -/
theorem mem_stringsOf_of_mem_lookUps {s : String} (hs : s ∈ document.trace.flatMap lookUps) :
    s ∈ stringsOf document := by
  obtain ⟨event, hevent, hs⟩ := List.mem_flatMap.mp hs
  cases event with
  | start tag =>
    have htag := start_mem_trace_iff.mp hevent
    rcases List.mem_append.mp hs with hs | hs
    · obtain ⟨attr, hattr, hs⟩ := List.mem_flatMap.mp hs
      have hstrings := ordinary_mem_stringsOf htag hattr
      rcases List.mem_pair.mp hs with rfl | rfl
      · exact hstrings.2
      · exact hstrings.1
    · obtain rfl := List.mem_singleton.mp hs
      exact name_mem_stringsOf htag
  | declaration name uri => cases hs
  | finish name line => exact mem_stringsOf_of_event hevent hs

/-- The second walk finds all it looks up. -/
structure FindsAll (unbound : UnboundPolicy) (collected : Collection) (document : Document) :
    Prop where
  /-- Noting what it asks for, the walk comes to the same. -/
  noted_eq : tagsBy (note collected.pool) unbound collected.namespaces document []
    = ending (tags unbound collected document) (asked unbound collected document)
  /-- It asks for the strings of its events in order, and for all of them unless it fails. -/
  asked_le : asked unbound collected document <+: document.trace.flatMap lookUps
  asked_eq : ∀ built, tags unbound collected document = .ok built →
    asked unbound collected document = document.trace.flatMap lookUps
  /-- The pool holds every string that it asks for. -/
  exists_indexOf? : ∀ s ∈ asked unbound collected document,
    ∃ index, collected.pool.indexOf? s = some index
  ne_uncollectedString : ∀ s, tags unbound collected document ≠ .error (.uncollectedString s)
  /-- Where an attribute has the prefix `xmlPrefix`, that is bound to its uri. -/
  resolve_xml : document.UsesXml → ∃ uri, collected.namespaces.resolve xmlPrefix = some uri ∧
    collected.pool.get? uri = some xmlNamespaceUri
  ne_unboundXml : ∀ element,
    tags unbound collected document ≠ .error (.unboundPrefix xmlPrefix element)

/-- **The second walk finds all it looks up**, if the first walk has succeeded. -/
theorem findsAll_of_collection (unbound : UnboundPolicy)
    (h : collection encoding document = .ok collected) : FindsAll unbound collected document := by
  obtain ⟨noted, hnoted, hle, hall⟩ := asks_tagsBy unbound collected document
  have hasked : asked unbound collected document = noted := by
    rw [asked, hnoted]
    cases tags unbound collected document <;> rfl
  -- whatever the walk fails with is the fault of an element
  have hfault : ∀ error, tags unbound collected document = .error error →
      ∃ tag, fault? unbound document tag = some error := by
    intro error herror
    have hfirst : _ = document.openTags.findSome? (fault? unbound document) := failure?_tags h
    rw [herror] at hfirst
    obtain ⟨tag, -, htag⟩ := List.exists_of_findSome?_eq_some hfirst.symm
    exact ⟨tag, htag⟩
  rw [← hasked] at hnoted hle
  refine ⟨hnoted [], hle, fun built hbuilt => hasked.trans (hall built hbuilt),
    fun s hs => ?_, fun s herror => ?_, fun huses => ?_, fun element herror => ?_⟩
  · have hmet := mem_stringsOf_of_mem_lookUps (hle.subset hs)
    exact ⟨_, indexOf?_eq_place h hmet⟩
  · obtain ⟨tag, htag⟩ := hfault _ herror
    rcases eq_of_fault? htag with ⟨name, heq, -⟩ | ⟨count, heq, -⟩
    · cases heq
    · cases heq
  · exact ⟨_, resolve_xmlPrefix h huses,
      get?_place h (xmlNamespaceUri_mem_stringsOf (bindXml_mem_steps huses))⟩
  · obtain ⟨tag, htag⟩ := hfault _ herror
    rcases eq_of_fault? htag with ⟨name, heq, -, hunbound⟩ | ⟨count, heq, -⟩
    · cases heq
      exact hunbound (.inl rfl)
    · cases heq

/-- The prefix that is declared nowhere makes the walk fail, and still all that it asks for is
there. -/
theorem findsAll_of_collection_nested :
    ∃ collected, collection .utf8 nested = .ok collected ∧ FindsAll .reject collected nested := by
  obtain ⟨collected, h⟩ := exists_collection not_tooLong_of_mem_nested entriesSize_nested_lt
  exact ⟨collected, h, findsAll_of_collection .reject h⟩

end BinaryXml.Compile
