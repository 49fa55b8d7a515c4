import BinaryXml.Document.Walk
import BinaryXml.Render.Event

/-!
# A tree as events

The elements of a document can be written without compiling it, one empty tag for an element without
elements in it and a pair of tags for any other (`Document.events`). Tags written so are balanced
(`Document.balanced_events`), whatever is put ahead of the attributes of the first.
-/

namespace BinaryXml

namespace RenderEvent

/-- Events whose tags are closed in the opposite order, each under the name that it was opened with.
-/
inductive Balanced : List RenderEvent → Prop where
  | nil : Balanced []
  | text {content : String} {rest : List RenderEvent} (h : Balanced rest) :
      Balanced (.text content :: rest)
  | empty {name : String} {attributes : List (String × String)} {rest : List RenderEvent}
      (h : Balanced rest) : Balanced (.empty name attributes :: rest)
  | element {name : String} {attributes : List (String × String)} {inner rest : List RenderEvent}
      (hinner : Balanced inner) (h : Balanced rest) :
      Balanced (.start name attributes :: (inner ++ .finish name :: rest))

/-- An event with some attributes ahead of its own, if it is a tag that has attributes. -/
def declaring (declared : List (String × String)) : RenderEvent → RenderEvent
  | .start name own => .start name (declared ++ own)
  | .empty name own => .empty name (declared ++ own)
  | .finish name => .finish name
  | .text content => .text content

theorem declaring_nil (event : RenderEvent) : declaring [] event = event := by
  cases event <;> rfl

/-- Balanced tags in a row are balanced. -/
theorem Balanced.append {first second : List RenderEvent} (h : Balanced first)
    (hsecond : Balanced second) : Balanced (first ++ second) := by
  induction h with
  | nil => exact hsecond
  | text _ ih => exact .text ih
  | empty _ ih => exact .empty ih
  | element hinner _ _ ih =>
    -- what follows goes behind the end of the element
    rw [List.cons_append, List.append_assoc, List.cons_append]
    exact .element hinner ih

/-- What is put ahead of the first attributes leaves the tags as they are. -/
theorem Balanced.modifyHead {events : List RenderEvent} (h : Balanced events)
    (declared : List (String × String)) : Balanced (events.modifyHead (declaring declared)) := by
  cases h with
  | nil => exact .nil
  | text h => exact .text h
  | empty h => exact .empty h
  | element hinner h => exact .element hinner h

end RenderEvent

/-! ## The events of a document -/

/-- An ordinary attribute as it is written, with another prefix in place of its own. -/
def writtenAttribute (renamed : String → String) :
    Option String × String × String → String × String
  | (none, localName, value) => (localName, value)
  | (some qualifier, localName, value) => (Render.qualify (renamed qualifier) localName, value)

/-- The attributes of an element as they are written, without its declarations. -/
def OpenTag.written (renamed : String → String) (tag : OpenTag) : List (String × String) :=
  tag.ordinary.map (writtenAttribute renamed)

mutual

/-- The tags of a node, texts and comments left out. -/
def Node.events (renamed : String → String) : Node → List RenderEvent
  | .element name attributes children line =>
    let own := (OpenTag.ofElement name attributes line).written renamed
    if children.any Node.isElement then
      .start name own :: (eventsAll renamed children ++ [.finish name])
    else [.empty name own]
  | .text _ => []
  | .comment _ => []

def eventsAll (renamed : String → String) : List Node → List RenderEvent
  | [] => []
  | node :: rest => node.events renamed ++ eventsAll renamed rest

end

/-- The tags of a document, texts and comments left out at every depth. -/
def Document.events (renamed : String → String) (document : Document) : List RenderEvent :=
  eventsAll renamed document

variable {renamed : String → String}

mutual

/-- The tags of a node are balanced, since each element closes behind its children. -/
theorem Node.balanced_events : ∀ node : Node, RenderEvent.Balanced (node.events renamed)
  | .element name attributes children line => by
    -- an element without elements in it is an empty tag and needs nothing of its children
    have hchildren := balanced_eventsAll children
    rw [Node.events]
    split
    · exact .element hchildren .nil
    · exact .empty .nil
  | .text _ => .nil
  | .comment _ => .nil

theorem balanced_eventsAll : ∀ nodes, RenderEvent.Balanced (eventsAll renamed nodes)
  | [] => .nil
  | node :: rest => by
    rw [eventsAll]
    exact node.balanced_events.append (balanced_eventsAll rest)

end

/-- The tags of a document are balanced. -/
theorem Document.balanced_events (document : Document) :
    RenderEvent.Balanced (document.events renamed) :=
  balanced_eventsAll document

end BinaryXml
