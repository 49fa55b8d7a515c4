import BinaryXml.Document.Basic

/-!
# Walking a document

`walk` visits the elements of a document depth first and in order: the start of an element, each of
its namespace declarations, its children, its end. Texts and comments are passed over. Whatever
works through a document twice in the same order does so with two visitors of one walk. `trace` is
the list of the events of a walk.
-/

namespace BinaryXml

/-- What a walk does at each event. -/
structure Visitor (m : Type → Type) where
  onStart : OpenTag → m Unit
  onDeclaration : (name uri : String) → m Unit
  onEnd : (name : String) → (line : UInt32) → m Unit

mutual

/-- Visit a node and everything below it. -/
@[specialize] def Node.walk {m : Type → Type} [Monad m] (visitor : Visitor m) : Node → m Unit
  | .element name attributes children line => do
    let tag := OpenTag.ofElement name attributes line
    visitor.onStart tag
    tag.declarations.forM fun (name, uri) => visitor.onDeclaration name uri
    walkAll visitor children
    visitor.onEnd name line
  | .text _ => pure ()
  | .comment _ => pure ()

/-- Visit some nodes in order and everything below them. -/
@[specialize] def walkAll {m : Type → Type} [Monad m] (visitor : Visitor m) : List Node → m Unit
  | [] => pure ()
  | node :: rest => do
    node.walk visitor
    walkAll visitor rest

end

@[specialize] def Document.walk {m : Type → Type} [Monad m] (visitor : Visitor m)
    (document : Document) : m Unit :=
  walkAll visitor document

inductive WalkEvent where
  | start (tag : OpenTag)
  | declaration (name uri : String)
  | finish (name : String) (line : UInt32)
  deriving DecidableEq, Repr

/-- What a visitor does at an event. -/
def Visitor.deliver {m : Type → Type} (visitor : Visitor m) : WalkEvent → m Unit
  | .start tag => visitor.onStart tag
  | .declaration name uri => visitor.onDeclaration name uri
  | .finish name line => visitor.onEnd name line

mutual

def Node.trace : Node → List WalkEvent
  | .element name attributes children line =>
    let tag := OpenTag.ofElement name attributes line
    .start tag :: (tag.declarations.map fun (name, uri) => .declaration name uri)
      ++ traceAll children ++ [.finish name line]
  | .text _ => []
  | .comment _ => []

def traceAll : List Node → List WalkEvent
  | [] => []
  | node :: rest => node.trace ++ traceAll rest

end

def Document.trace (document : Document) : List WalkEvent :=
  traceAll document

structure Record where
  /-- The events seen, the latest first. -/
  seen : List WalkEvent := []
  /-- How many more events it takes, or nothing when it takes all. -/
  room : Option Nat := none

/-- The effects of a recorder: it keeps a record and may stop the walk. -/
abbrev Recording (ε : Type) := ExceptT ε (StateM Record)

/-- Record an event, or stop with `stop` when there is no room for it. -/
def Recording.note {ε : Type} (stop : ε) (event : WalkEvent) : Recording ε Unit := do
  let record ← getThe Record
  match record.room with
  | some 0 => throw stop
  | room => set { seen := event :: record.seen, room := room.map (· - 1) : Record }

/-- The visitor that records the events it sees. -/
def Visitor.recorder {ε : Type} (stop : ε) : Visitor (Recording ε) where
  onStart tag := Recording.note stop (.start tag)
  onDeclaration name uri := Recording.note stop (.declaration name uri)
  onEnd name line := Recording.note stop (.finish name line)

/-- The events that a recorder with room for `limit` events sees in a document, in order, and what
stopped it if anything did. -/
def Document.record {ε : Type} (limit : Option Nat) (stop : ε) (document : Document) :
    List WalkEvent × Option ε :=
  match (document.walk (Visitor.recorder stop)).run.run { room := limit } with
  | (.ok _, record) => (record.seen.reverse, none)
  | (.error stop, record) => (record.seen.reverse, some stop)

end BinaryXml
