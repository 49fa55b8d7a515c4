import BinaryXml.Compile
import BinaryXml.Proofs.Document.Walk
import BinaryXml.Proofs.Namespace
import BinaryXml.Proofs.StringPool.Adding

/-!
# The first walk in closed form

What the first walk collects is known without a walk: the strings of the document in order, added to
a pool, and the declarations in order, each string replaced by its place in the *finished* pool
(`collection_eq`). The places a string was given while the pool was growing are those, because a
string that is found once stays where it is.
-/

namespace BinaryXml

/-- The index of a string that the pool holds. -/
def StringPool.place (pool : StringPool) (s : String) : UInt32 :=
  (pool.indexOf? s).getD 0

theorem StringPool.place_eq_of_addAll {pool after : StringPool} {strings : List String} {s : String}
    {index : UInt32} (hadd : pool.addAll strings = .ok after) (hs : pool.indexOf? s = some index) :
    after.place s = pool.place s := by
  rw [place, place, indexOf?_of_addAll_of_eq_some hadd hs, hs]

namespace Compile

/-! ## Steps of the first walk -/

/-- What the first walk does, told in strings alone. -/
inductive Step where
  /-- It meets a string. -/
  | string (s : String)
  /-- It notes a declaration. -/
  | declare (name uri : String)
  /-- It binds `xmlPrefix`. -/
  | bindXml
  deriving DecidableEq

namespace Step

def strings : Step → List String
  | string s => [s]
  | declare name uri => [name, uri]
  | bindXml => [xmlNamespaceUri]

/-- The change of the bindings in a step, given the places of the strings. -/
def calls (place : String → UInt32) : Step → List NamespaceTable.Call
  | string _ => []
  | declare name uri => [.declare name ⟨place name, place uri⟩]
  | bindXml => [.bindXml (place xmlNamespaceUri)]

/-- Only the places of its own strings matter to a step. -/
theorem calls_congr {place place' : String → UInt32} {step : Step}
    (h : ∀ s ∈ step.strings, place s = place' s) : step.calls place = step.calls place' := by
  cases step with
  | string s => rfl
  | declare name uri =>
    have hname := h name List.mem_cons_self
    have huri := h uri (List.mem_cons_of_mem _ List.mem_cons_self)
    rw [calls, calls, hname, huri]
  | bindXml =>
    have huri := h xmlNamespaceUri List.mem_cons_self
    rw [calls, calls, huri]

/-- The calls of some steps depend on the places of their strings only. -/
theorem flatMap_calls_congr {place place' : String → UInt32} {steps : List Step}
    (h : ∀ s ∈ steps.flatMap strings, place s = place' s) :
    steps.flatMap (calls place) = steps.flatMap (calls place') := by
  induction steps with
  | nil => rfl
  | cons step rest ih =>
    rw [List.flatMap_cons] at h
    rw [List.flatMap_cons, List.flatMap_cons,
      calls_congr fun s hs => h s (List.mem_append_left _ hs),
      ih fun s hs => h s (List.mem_append_right _ hs)]

end Step

/-- Some steps at once: all the strings are added, and then the bindings are changed. -/
def perform (steps : List Step) : Collecting Unit := fun c =>
  match c.pool.addAll (steps.flatMap Step.strings) with
  | .error error => .error error
  | .ok pool => .ok ((), ⟨pool, c.namespaces.run (steps.flatMap (Step.calls pool.place))⟩)

/-- **Steps at once are steps one after the other.** -/
theorem perform_append (first second : List Step) :
    perform (first ++ second) = (do perform first; perform second) := by
  funext c
  show perform (first ++ second) c = (perform first c >>= fun result => perform second result.2)
  rw [perform, perform, List.flatMap_append, StringPool.addAll_append]
  cases hfirst : c.pool.addAll (first.flatMap Step.strings) with
  | error error => rfl
  | ok pool =>
    show _ = perform second ⟨pool, _⟩
    rw [perform]
    dsimp only [Except.bind]
    cases hsecond : pool.addAll (second.flatMap Step.strings) with
    | error error => rfl
    | ok after =>
      -- the strings of the first steps have not moved
      have hplaces : ∀ s ∈ first.flatMap Step.strings, after.place s = pool.place s := by
        intro s hs
        obtain ⟨index, hindex⟩ := StringPool.exists_indexOf?_of_addAll hfirst s hs
        exact StringPool.place_eq_of_addAll hsecond hindex
      dsimp only
      rw [List.flatMap_append, NamespaceTable.run_append, Step.flatMap_calls_congr hplaces]

theorem perform_nil : perform [] = pure () := rfl

/-- Actions in a row are the steps of all of them at once. -/
theorem forM_eq_perform {α : Type} {action : α → Collecting Unit} {steps : α → List Step}
    (l : List α) (h : ∀ a ∈ l, action a = perform (steps a)) :
    l.forM action = perform (l.flatMap steps) := by
  -- `perform_append` takes the steps of the head off the front
  induction l with
  | nil => rfl
  | cons a rest ih =>
    have hrest := ih fun b hb => h b (List.mem_cons_of_mem _ hb)
    rw [List.flatMap_cons, perform_append, ← hrest, ← h a List.mem_cons_self]
    rfl

/-! ## The visitor -/

def attributeSteps : Option String × String × String → List Step
  | (none, localName, value) => [.string localName, .string value]
  | (some qualifier, localName, value) =>
    [.string localName, .string qualifier, .string value]
      ++ if qualifier = xmlPrefix then [.bindXml] else []

def startSteps (tag : OpenTag) : List Step :=
  .string tag.name :: (tag.declarations.flatMap fun (name, uri) => [.string name, .string uri])
    ++ tag.ordinary.flatMap attributeSteps

/-- The steps of the first walk at an event. -/
def eventSteps : WalkEvent → List Step
  | .start tag => startSteps tag
  | .declaration name uri => [.declare name uri]
  | .finish name _ => [.string name]

/-- Meeting a string is a step when its index is not used. -/
theorem collect_bind (s : String) (action : Collecting Unit) :
    (do let _ ← collect s; action) = (do perform [.string s]; action) := by
  funext ⟨pool, namespaces⟩
  show (collect s ⟨pool, namespaces⟩ >>= fun result => action result.2)
    = (perform [.string s] ⟨pool, namespaces⟩ >>= fun result => action result.2)
  -- adding one string to the pool is adding a list of one
  have hadd : pool.addAll ([Step.string s].flatMap Step.strings)
      = (pool.add s).map Prod.snd := by
    show StringPool.addAll [s] pool = _
    rw [StringPool.addAll]
    cases pool.add s <;> rfl
  rw [collect, perform]
  dsimp only
  rw [hadd]
  cases pool.add s <;> rfl

/-- Binding `xmlPrefix` is one step, though its uri is met first and bound to its index
afterwards. -/
theorem collect_bindXml :
    (do
      let uri ← collect xmlNamespaceUri
      modify fun c => { c with namespaces := c.namespaces.bindXml uri })
      = perform [.bindXml] := by
  funext ⟨pool, namespaces⟩
  show (collect xmlNamespaceUri ⟨pool, namespaces⟩ >>= fun result =>
      .ok ((), { result.2 with namespaces := result.2.namespaces.bindXml result.1 })) = _
  have hstrings : [Step.bindXml].flatMap Step.strings = [xmlNamespaceUri] := rfl
  rw [collect, perform, hstrings, StringPool.addAll]
  dsimp only
  cases huri : pool.add xmlNamespaceUri with
  | error error => rfl
  | ok result =>
    obtain ⟨index, after⟩ := result
    -- the index handed out is the place in the pool behind it
    have hplace : after.place xmlNamespaceUri = index := by
      rw [StringPool.place, StringPool.indexOf?_of_add huri, Option.getD_some]
    dsimp only [StringPool.addAll]
    rw [← hplace]
    rfl

/-- Noting a declaration is one step, though its two strings are met one after the other. -/
theorem onDeclaration_eq_perform (name uri : String) :
    collector.onDeclaration name uri = perform [.declare name uri] := by
  funext ⟨pool, namespaces⟩
  show (collect name ⟨pool, namespaces⟩ >>= fun first => collect uri first.2 >>= fun second =>
      .ok ((), { second.2 with
        namespaces := second.2.namespaces.declare name ⟨first.1, second.1⟩ })) = _
  have hstrings : [Step.declare name uri].flatMap Step.strings = [name, uri] := rfl
  rw [collect, perform, hstrings, StringPool.addAll]
  dsimp only
  cases hname : pool.add name with
  | error error => rfl
  | ok result =>
    obtain ⟨index, next⟩ := result
    show (collect uri ⟨next, namespaces⟩ >>= _) = _
    rw [collect]
    dsimp only [StringPool.addAll]
    cases huri : next.add uri with
    | error error => rfl
    | ok result =>
      obtain ⟨index', after⟩ := result
      -- the second string leaves the first where it is
      have hfirst := StringPool.indexOf?_of_add_of_eq_some huri (StringPool.indexOf?_of_add hname)
      have hplace : after.place name = index := by
        rw [StringPool.place, hfirst, Option.getD_some]
      have hplace' : after.place uri = index' := by
        rw [StringPool.place, StringPool.indexOf?_of_add huri, Option.getD_some]
      rw [← hplace, ← hplace']
      rfl

/-- Meeting an attribute makes the steps of the attribute. -/
theorem collectAttribute_eq_perform (attr : Option String × String × String) :
    collectAttribute attr = perform (attributeSteps attr) := by
  obtain ⟨qualifier, localName, value⟩ := attr
  cases qualifier with
  | none =>
    rw [collectAttribute, collect_bind, collect_bind, ← perform_nil, ← perform_append,
      ← perform_append]
    rfl
  | some qualifier =>
    rw [collectAttribute, collect_bind, collect_bind, collect_bind, collect_bindXml,
      attributeSteps, ← perform_nil]
    -- `xmlPrefix` takes one more step
    by_cases hxml : qualifier = xmlPrefix
    · rw [if_pos hxml, if_pos hxml, ← perform_append, ← perform_append, ← perform_append]
      rfl
    · rw [if_neg hxml, if_neg hxml, ← perform_append, ← perform_append, ← perform_append]
      rfl

/-- Meeting the start of an element makes the steps of the element. -/
theorem onStart_eq_perform (tag : OpenTag) : collector.onStart tag = perform (startSteps tag) := by
  -- the declarations and the attributes are loops, the name is one string
  have hdeclarations : (tag.declarations.forM fun (name, uri) => do
      let _ ← collect name
      let _ ← collect uri)
      = perform (tag.declarations.flatMap fun (name, uri) => [.string name, .string uri]) := by
    apply forM_eq_perform
    rintro ⟨name, uri⟩ -
    show (do let _ ← collect name; let _ ← collect uri) = perform [.string name, .string uri]
    rw [collect_bind, collect_bind, ← perform_nil, ← perform_append, ← perform_append]
    rfl
  have hordinary := forM_eq_perform tag.ordinary fun attr _ => collectAttribute_eq_perform attr
  show (do let _ ← collect tag.name; tag.declarations.forM _; tag.ordinary.forM _) = _
  rw [collect_bind, hordinary, hdeclarations, ← perform_append, ← perform_append]
  rfl

/-- A visit is the steps at its event. -/
theorem deliver_collector (event : WalkEvent) :
    collector.deliver event = perform (eventSteps event) := by
  cases event with
  | start tag => exact onStart_eq_perform tag
  | declaration name uri => exact onDeclaration_eq_perform name uri
  | finish name line =>
    show (do let _ ← collect name) = _
    rw [collect_bind, ← perform_nil, ← perform_append]
    rfl

/-! ## The walk -/

/-- The steps of the first walk. -/
def steps (document : Document) : List Step :=
  document.trace.flatMap eventSteps

/-- The bindings after the first walk, given the places of the strings. -/
def bindingsOf (place : String → UInt32) (document : Document) : NamespaceTable :=
  NamespaceTable.run {} ((steps document).flatMap (Step.calls place))

/-- **The first walk in closed form.** It adds the strings of its steps in order; the bindings are
made of the places of these strings in the finished pool. -/
theorem collection_eq (encoding : StringEncoding) (document : Document) :
    collection encoding document
      = (fun pool => ⟨pool, bindingsOf pool.place document⟩)
        <$> StringPool.addAll ((steps document).flatMap Step.strings) { encoding } := by
  have hwalk : document.walk collector = perform (steps document) := by
    rw [document.walk_eq_forM_trace]
    exact forM_eq_perform _ fun event _ => deliver_collector event
  have hrun : (document.walk collector).run { pool := { encoding } }
      = perform (steps document) { pool := { encoding } } := by
    rw [hwalk]
    rfl
  rw [collection, hrun, perform]
  cases StringPool.addAll ((steps document).flatMap Step.strings) { encoding } <;> rfl

end Compile

end BinaryXml
