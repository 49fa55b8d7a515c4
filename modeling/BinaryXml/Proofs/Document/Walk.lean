import BinaryXml.Document.Walk
import Mathlib.Data.List.Basic

/-!
# Walks and traces

A walk does what its visitor does at the events of the trace, one after the other
(`walk_eq_forM_trace`), so whatever is said of a walk is proved by induction on a list of events.
`Document.openTags` and `Document.declarations` list the elements and the declarations of a document
depth first and in order, without a walk; `Document.withoutText` leaves out what a walk passes over.
-/

namespace BinaryXml

/-! ## A walk delivers its trace -/

mutual

/-- The walk of a node is its trace, delivered event by event. -/
theorem Node.walk_eq_forM_trace {m : Type → Type} [Monad m] [LawfulMonad m] (visitor : Visitor m) :
    ∀ node : Node, node.walk visitor = node.trace.forM visitor.deliver
  | .element name attributes children line => by
    have hchildren := walkAll_eq_forM_traceAll visitor children
    rw [Node.walk, Node.trace, hchildren]
    simp only [List.forM_eq_forM, List.cons_append, List.forM_cons, List.forM_append,
      List.forM_map, List.forM_nil, bind_assoc, Visitor.deliver, bind_pure_unit]
  | .text _ => rfl
  | .comment _ => rfl

/-- The walk of some nodes is the trace of each in turn. -/
theorem walkAll_eq_forM_traceAll {m : Type → Type} [Monad m] [LawfulMonad m]
    (visitor : Visitor m) : ∀ nodes, walkAll visitor nodes = (traceAll nodes).forM visitor.deliver
  | [] => rfl
  | node :: rest => by
    have hnode := node.walk_eq_forM_trace visitor
    have hrest := walkAll_eq_forM_traceAll visitor rest
    rw [walkAll, traceAll, hnode, hrest]
    simp only [List.forM_eq_forM, List.forM_append]

end

/-- **A walk does what its visitor does at the events of its trace.** -/
theorem Document.walk_eq_forM_trace {m : Type → Type} [Monad m] [LawfulMonad m]
    (visitor : Visitor m) (document : Document) :
    document.walk visitor = document.trace.forM visitor.deliver :=
  walkAll_eq_forM_traceAll visitor document

/-! ## Elements and declarations in order -/

mutual

/-- The start tags of a node, depth first and in order. -/
def Node.openTags : Node → List OpenTag
  | .element name attributes children line =>
    .ofElement name attributes line :: openTagsAll children
  | .text _ => []
  | .comment _ => []

def openTagsAll : List Node → List OpenTag
  | [] => []
  | node :: rest => node.openTags ++ openTagsAll rest

end

/-- The start tags of a document, depth first and in order. -/
def Document.openTags (document : Document) : List OpenTag :=
  openTagsAll document

/-- The namespace declarations of a document, each a prefix and a uri, depth first and in order. -/
def Document.declarations (document : Document) : List (String × String) :=
  document.openTags.flatMap OpenTag.declarations

mutual

theorem Node.exists_ofElement_of_mem_openTags {tag : OpenTag} :
    ∀ {node : Node}, tag ∈ node.openTags →
      ∃ name attributes line, tag = .ofElement name attributes line
  | .element name attributes children line, h => by
    rcases List.mem_cons.mp h with rfl | h
    · exact ⟨name, attributes, line, rfl⟩
    · exact exists_ofElement_of_mem_openTagsAll h

/-- Every start tag of a forest is made of an element somewhere in it. -/
theorem exists_ofElement_of_mem_openTagsAll {tag : OpenTag} :
    ∀ {nodes : List Node}, tag ∈ openTagsAll nodes →
      ∃ name attributes line, tag = .ofElement name attributes line
  | node :: rest, h => by
    rcases List.mem_append.mp h with h | h
    · exact node.exists_ofElement_of_mem_openTags h
    · exact exists_ofElement_of_mem_openTagsAll h

end

namespace WalkEvent

def tag? : WalkEvent → Option OpenTag
  | start tag => some tag
  | _ => none

def declaration? : WalkEvent → Option (String × String)
  | declaration name uri => some (name, uri)
  | _ => none

end WalkEvent

/-- The events of an element before those of its children. -/
def OpenTag.events (tag : OpenTag) : List WalkEvent :=
  .start tag :: tag.declarations.map fun (name, uri) => .declaration name uri

section

variable {α : Type} (f : WalkEvent → List α) (g : OpenTag → List α)

mutual

/-- What the events of a trace give is what its elements give, when nothing comes from the end of an
element. -/
theorem Node.flatMap_trace (hopen : ∀ tag : OpenTag, tag.events.flatMap f = g tag)
    (hclose : ∀ name line, f (.finish name line) = []) :
    ∀ node : Node, node.trace.flatMap f = node.openTags.flatMap g
  | .element name attributes children line => by
    have hchildren := flatMap_traceAll hopen hclose children
    have hfront := hopen (.ofElement name attributes line)
    rw [OpenTag.events] at hfront
    rw [Node.trace, Node.openTags, List.flatMap_append, List.flatMap_append, hfront, hchildren,
      List.flatMap_singleton, hclose, List.append_nil, List.flatMap_cons]
  | .text _ => rfl
  | .comment _ => rfl

/-- What is made of the events of a forest is made of its start tags, when the ends of elements give
nothing. -/
theorem flatMap_traceAll (hopen : ∀ tag : OpenTag, tag.events.flatMap f = g tag)
    (hclose : ∀ name line, f (.finish name line) = []) :
    ∀ nodes, (traceAll nodes).flatMap f = (openTagsAll nodes).flatMap g
  | [] => rfl
  | node :: rest => by
    rw [traceAll, openTagsAll, List.flatMap_append, List.flatMap_append,
      node.flatMap_trace hopen hclose, flatMap_traceAll hopen hclose rest]

end

end

/-- The start tags in the trace are those of the document. -/
theorem Document.filterMap_tag?_trace (document : Document) :
    document.trace.filterMap WalkEvent.tag? = document.openTags := by
  have hopen : ∀ tag : OpenTag, tag.events.flatMap (fun event => event.tag?.toList) = [tag] := by
    intro tag
    rw [OpenTag.events, List.flatMap_cons, List.flatMap_map]
    simp [WalkEvent.tag?]
  have htrace := flatMap_traceAll _ _ hopen (fun _ _ => rfl) document
  rw [List.filterMap_eq_flatMap_toList, trace, htrace, openTags, List.flatMap_singleton']

/-- The declarations in the trace are those of the document. -/
theorem Document.filterMap_declaration?_trace (document : Document) :
    document.trace.filterMap WalkEvent.declaration? = document.declarations := by
  have hopen : ∀ tag : OpenTag,
      tag.events.flatMap (fun event => event.declaration?.toList) = tag.declarations := by
    intro tag
    rw [OpenTag.events, List.flatMap_cons, List.flatMap_map]
    simp [WalkEvent.declaration?]
  have htrace := flatMap_traceAll _ _ hopen (fun _ _ => rfl) document
  rw [List.filterMap_eq_flatMap_toList, trace, htrace, declarations, openTags]

mutual

/-- What is finished has been started. -/
theorem Node.exists_openTag_of_finish {name : String} {line : UInt32} :
    ∀ {node : Node}, .finish name line ∈ node.trace → ∃ tag ∈ node.openTags, tag.name = name
  | .element started attributes children line', h => by
    rw [Node.trace, List.mem_append, List.mem_append] at h
    rcases h with (h | h) | h
    · simp at h
    · obtain ⟨tag, htag, hname⟩ := exists_openTag_of_finish_all h
      exact ⟨tag, List.mem_cons_of_mem _ htag, hname⟩
    · cases List.mem_singleton.mp h
      exact ⟨_, List.mem_cons_self, rfl⟩

/-- An end in a forest is that of one of its elements. -/
theorem exists_openTag_of_finish_all {name : String} {line : UInt32} :
    ∀ {nodes : List Node}, .finish name line ∈ traceAll nodes →
      ∃ tag ∈ openTagsAll nodes, tag.name = name
  | node :: rest, h => by
    rw [traceAll, List.mem_append] at h
    rw [openTagsAll]
    rcases h with h | h
    · obtain ⟨tag, htag, hname⟩ := node.exists_openTag_of_finish h
      exact ⟨tag, List.mem_append_left _ htag, hname⟩
    · obtain ⟨tag, htag, hname⟩ := exists_openTag_of_finish_all h
      exact ⟨tag, List.mem_append_right _ htag, hname⟩

end

/-! ## Texts and comments -/

mutual

/-- A node without the texts and comments in it, or nothing when it is one itself. -/
def Node.withoutText : Node → List Node
  | .element name attributes children line =>
    [.element name attributes (withoutTextAll children) line]
  | .text _ => []
  | .comment _ => []

def withoutTextAll : List Node → List Node
  | [] => []
  | node :: rest => node.withoutText ++ withoutTextAll rest

end

/-- The document without its texts and comments, at every depth. -/
def Document.withoutText (document : Document) : Document :=
  withoutTextAll document

theorem traceAll_append (first second : List Node) :
    traceAll (first ++ second) = traceAll first ++ traceAll second := by
  induction first with
  | nil => rfl
  | cons node rest ih => rw [List.cons_append, traceAll, traceAll, ih, List.append_assoc]

mutual

theorem Node.traceAll_withoutText : ∀ node : Node, traceAll node.withoutText = node.trace
  | .element name attributes children line => by
    have hchildren := traceAll_withoutTextAll children
    rw [Node.withoutText, traceAll, traceAll, Node.trace, Node.trace, hchildren, List.append_nil]
  | .text _ => rfl
  | .comment _ => rfl

theorem traceAll_withoutTextAll : ∀ nodes, traceAll (withoutTextAll nodes) = traceAll nodes
  | [] => rfl
  | node :: rest => by
    rw [withoutTextAll, traceAll_append, node.traceAll_withoutText, traceAll_withoutTextAll rest,
      traceAll]

end

/-- Texts and comments leave no trace. -/
theorem Document.trace_withoutText (document : Document) :
    document.withoutText.trace = document.trace :=
  traceAll_withoutTextAll document

end BinaryXml
