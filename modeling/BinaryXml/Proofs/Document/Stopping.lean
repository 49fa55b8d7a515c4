import BinaryXml.Proofs.Document.Walk
import Mathlib.Logic.Relation

/-!
# Walks that are stopped

A visitor may fail at any event, and a walk ends there at whatever depth it is. What a visitor has
recorded by then is the front of the trace, as long as it has taken events (`walk_of_records`).
Texts and comments come and go without a trace (`InsertsUnvisited`).
-/

namespace BinaryXml

/-! ## Nodes that are passed over -/

/-- The second list is the first with one text or comment more, at any depth. -/
inductive InsertsUnvisited : List Node → List Node → Prop where
  | text (content : String) (nodes : List Node) :
    InsertsUnvisited nodes (.text content :: nodes)
  | comment (content : String) (nodes : List Node) :
    InsertsUnvisited nodes (.comment content :: nodes)
  | behind (node : Node) {nodes more : List Node} (h : InsertsUnvisited nodes more) :
    InsertsUnvisited (node :: nodes) (node :: more)
  | inside (name : String) (attributes : List (String × String)) (line : UInt32) (nodes : List Node)
    {children more : List Node} (h : InsertsUnvisited children more) :
    InsertsUnvisited (.element name attributes children line :: nodes)
      (.element name attributes more line :: nodes)

/-- One text or comment more leaves the trace as it was. -/
theorem InsertsUnvisited.traceAll_eq {nodes more : List Node} (h : InsertsUnvisited nodes more) :
    traceAll more = traceAll nodes := by
  induction h with
  | text content nodes => rfl
  | comment content nodes => rfl
  | behind node _ ih => rw [traceAll, traceAll, ih]
  | inside name attributes line nodes _ ih =>
    rw [traceAll, traceAll, Node.trace, Node.trace, ih]

/-- Any number of texts and comments come and go without a trace. -/
theorem traceAll_eq_of_eqvGen {nodes others : List Node}
    (h : Relation.EqvGen InsertsUnvisited nodes others) : traceAll others = traceAll nodes := by
  induction h with
  | rel _ _ h => exact h.traceAll_eq
  | refl _ => rfl
  | symm _ _ _ ih => exact ih.symm
  | trans _ _ _ _ _ ih₁ ih₂ => exact ih₂.trans ih₁

/-! ## Visitors that record what they see -/

section

variable {σ ε : Type}

theorem run_bind_of_ok {α β : Type} {x : ExceptT ε (StateM σ) α}
    {f : α → ExceptT ε (StateM σ) β} {s after : σ} {a : α}
    (h : x.run.run s = (.ok a, after)) : (x >>= f).run.run s = (f a).run.run after := by
  rw [ExceptT.run_bind, StateT.run_bind, h]
  rfl

theorem run_bind_of_error {α β : Type} {x : ExceptT ε (StateM σ) α}
    {f : α → ExceptT ε (StateM σ) β} {s after : σ} {e : ε}
    (h : x.run.run s = (.error e, after)) : (x >>= f).run.run s = (.error e, after) := by
  rw [ExceptT.run_bind, StateT.run_bind, h]
  rfl

/-- The visitor records the events that it takes in `log`. It fails with `stop` at the event whose
number, counted from zero, is its `limit`, and takes every event if it has none. -/
structure Visitor.Records (visitor : Visitor (ExceptT ε (StateM σ))) (log : σ → List WalkEvent)
    (limit : σ → Option Nat) (stop : ε) : Prop where
  exists_taken : ∀ s event, limit s ≠ some (log s).length → ∃ after,
    (visitor.deliver event).run.run s = (.ok (), after) ∧
      log after = log s ++ [event] ∧ limit after = limit s
  exists_stopped : ∀ s event, limit s = some (log s).length → ∃ after,
    (visitor.deliver event).run.run s = (.error stop, after) ∧ log after = log s

variable {visitor : Visitor (ExceptT ε (StateM σ))} {log : σ → List WalkEvent}
  {limit : σ → Option Nat} {stop : ε}

/-- A visitor without a limit takes every event and records it. -/
theorem Visitor.Records.run_of_none (h : visitor.Records log limit stop) (events : List WalkEvent)
    {s : σ} (hs : limit s = none) :
    ∃ after, (events.forM visitor.deliver).run.run s = (.ok (), after) ∧
      log after = log s ++ events := by
  induction events generalizing s with
  | nil => exact ⟨s, rfl, (List.append_nil _).symm⟩
  | cons event rest ih =>
    have hroom : limit s ≠ some (log s).length := by
      rw [hs]
      exact nofun
    obtain ⟨between, hrun, hlog, hlimit⟩ := h.exists_taken s event hroom
    obtain ⟨after, hrest, hall⟩ := ih (hlimit.trans hs)
    refine ⟨after, ?_, ?_⟩
    · show (visitor.deliver event >>= fun _ => rest.forM visitor.deliver).run.run s = _
      rw [run_bind_of_ok hrun, hrest]
    · rw [hall, hlog, List.append_assoc, List.singleton_append]

/-- A visitor with room for some events records as many of them, and fails if there are more. The
induction is on the events, with the room that is left. -/
theorem Visitor.Records.run_of_some (h : visitor.Records log limit stop) (events : List WalkEvent)
    {s : σ} {room : Nat} (hs : limit s = some ((log s).length + room)) :
    ∃ after, (events.forM visitor.deliver).run.run s
        = (if room < events.length then .error stop else .ok (), after) ∧
      log after = log s ++ events.take room := by
  induction events generalizing s room with
  | nil =>
    refine ⟨s, ?_, ?_⟩
    · rw [if_neg (show ¬ room < ([] : List WalkEvent).length from Nat.not_lt_zero room)]
      rfl
    · rw [List.take_nil, List.append_nil]
  | cons event rest ih =>
    cases room with
    | zero =>
      obtain ⟨after, hrun, hlog⟩ := h.exists_stopped s event hs
      refine ⟨after, ?_, ?_⟩
      · show (visitor.deliver event >>= fun _ => rest.forM visitor.deliver).run.run s = _
        rw [run_bind_of_error hrun, if_pos (show 0 < (event :: rest).length from Nat.succ_pos _)]
      · rw [hlog, List.take_zero, List.append_nil]
    | succ room =>
      have hroom : limit s ≠ some (log s).length := by
        rw [hs, ne_eq, Option.some.injEq]
        omega
      obtain ⟨between, hrun, hlog, hlimit⟩ := h.exists_taken s event hroom
      -- one event more is recorded, and there is room for one event less
      have hbetween : limit between = some ((log between).length + room) := by
        rw [hlimit, hs, hlog, List.length_append, List.length_singleton]
        congr 1
        omega
      obtain ⟨after, hrest, hall⟩ := ih hbetween
      refine ⟨after, ?_, ?_⟩
      · show (visitor.deliver event >>= fun _ => rest.forM visitor.deliver).run.run s = _
        rw [run_bind_of_ok hrun, hrest, List.length_cons]
        simp only [Nat.add_lt_add_iff_right]
      · rw [hall, hlog, List.take_succ_cons, List.append_assoc, List.singleton_append]

end

theorem Visitor.deliver_recorder {ε : Type} (stop : ε) (event : WalkEvent) :
    (Visitor.recorder stop).deliver event = Recording.note stop event := by
  cases event <;> rfl

/-- The recorder of a walk is such a visitor; the room that it has left and the events that it has
seen make up its limit. -/
theorem Visitor.records_recorder {ε : Type} (stop : ε) :
    (Visitor.recorder stop).Records (fun record => record.seen.reverse)
      (fun record => record.room.map (· + record.seen.length)) stop where
  exists_taken record event hroom := by
    obtain ⟨seen, room⟩ := record
    rw [deliver_recorder]
    match room, hroom with
    | none, _ => exact ⟨⟨event :: seen, none⟩, rfl, List.reverse_cons, rfl⟩
    -- without room left the number of the event is the limit
    | some 0, hroom => exact absurd (by simp) hroom
    | some (room + 1), _ =>
      refine ⟨⟨event :: seen, some room⟩, rfl, List.reverse_cons, ?_⟩
      simp only [Option.map_some, List.length_cons, Option.some.injEq]
      omega
  exists_stopped record event hroom := by
    obtain ⟨seen, room⟩ := record
    rw [deliver_recorder]
    match room, hroom with
    | some 0, _ => exact ⟨⟨seen, some 0⟩, rfl, rfl⟩
    | some (room + 1), hroom =>
      simp only [Option.map_some, List.length_reverse, Option.some.injEq] at hroom
      omega

/-- **A walk goes through the trace until its visitor stops it.** Whatever the visitor, it is asked
to take the events of the trace one after the other, and texts and comments in the document make no
difference. A visitor that records and never fails has recorded the whole trace. One that fails at
the event of a number has recorded that many of the first events, and its error is that of the walk,
unless the trace is no longer than that. -/
theorem Document.walk_of_records (document : Document) :
    (∀ {m : Type → Type} [Monad m] [LawfulMonad m] (visitor : Visitor m),
      document.walk visitor = document.trace.forM visitor.deliver) ∧
    (∀ other, Relation.EqvGen InsertsUnvisited document other →
      Document.trace other = document.trace) ∧
    ∀ {σ ε : Type} {visitor : Visitor (ExceptT ε (StateM σ))} {log : σ → List WalkEvent}
      {limit : σ → Option Nat} {stop : ε}, visitor.Records log limit stop → ∀ s, log s = [] →
        (limit s = none → ∃ after, (document.walk visitor).run.run s = (.ok (), after) ∧
          log after = document.trace) ∧
        ∀ n, limit s = some n → ∃ after, (document.walk visitor).run.run s
            = (if n < document.trace.length then .error stop else .ok (), after) ∧
          log after = document.trace.take n := by
  refine ⟨fun visitor => document.walk_eq_forM_trace visitor, fun _ => traceAll_eq_of_eqvGen, ?_⟩
  intro σ ε visitor log limit stop h s hs
  rw [document.walk_eq_forM_trace]
  constructor
  · intro hnone
    obtain ⟨after, hrun, hlog⟩ := h.run_of_none document.trace hnone
    rw [hs, List.nil_append] at hlog
    exact ⟨after, hrun, hlog⟩
  · intro n hlimit
    have hroom : limit s = some ((log s).length + n) := by
      -- nothing has been recorded before, so there is room for all of the limit
      rw [hlimit, hs, List.length_nil, Nat.zero_add]
    obtain ⟨after, hrun, hlog⟩ := h.run_of_some document.trace hroom
    rw [hs, List.nil_append] at hlog
    exact ⟨after, hrun, hlog⟩

/-- An element with two declarations around a child. -/
def twoDeclarations : Document :=
  [.element "a" [("xmlns:p", "u"), ("p:k", "v"), ("xmlns", "w")] [.element "b" [] [] 3] 2]

/-- A walk that is stopped at the child, behind the element and its two declarations, and the same
trace with a text and a comment in the document. -/
theorem Document.walk_of_records_twoDeclarations :
    Document.trace [.element "a" [("xmlns:p", "u"), ("p:k", "v"), ("xmlns", "w")]
        [.element "b" [] [.text "t"] 3] 2, .comment "c"] = twoDeclarations.trace ∧
      ∃ after, (twoDeclarations.walk (Visitor.recorder "full")).run.run { room := some 4 }
          = (.error "full", after) ∧
        after.seen.reverse = [
          .start ⟨"a", 2,
            [.declaration "p" "u", .ordinary (some "p") "k" "v", .declaration "" "w"]⟩,
          .declaration "p" "u", .declaration "" "w", .start ⟨"b", 3, []⟩] := by
  obtain ⟨-, htrace, hrecords⟩ := Document.walk_of_records twoDeclarations
  constructor
  · refine htrace _ (.trans _ _ _ (.rel _ _ (.inside _ _ _ _ (.inside _ _ _ _ (.text "t" []))))
      (.rel _ _ (.behind _ (.comment "c" []))))
  · exact (hrecords (Visitor.records_recorder "full") { room := some 4 } rfl).2 4 rfl

end BinaryXml
