import BinaryXml.Proofs.Render.Lookups

/-!
# Scopes while rendering

Between the tags of a document namespace scopes start and end. `Scopes.run` tells the scopes behind
some chunks without rendering them, and rendering goes on with just those (`renderOnto_append`). The
end of a scope is looked for by its binding alone, from the innermost outwards; still the bindings
are those of the starts that are open, in order, as long as every end has a start to close
(`tracks_of_leavesOpen`).
-/

namespace BinaryXml

/-- The binding whose scope starts or ends. -/
def NamespaceScope.binding (scope : NamespaceScope) : ScopedBinding :=
  ⟨scope.name, scope.uri⟩

/-- Whether a chunk starts or ends a scope. -/
def Chunk.isScope : Chunk → Bool
  | .startNamespace _ | .endNamespace _ => true
  | _ => false

/-! ## The scopes behind some chunks -/

namespace Scopes

/-- The scopes behind a chunk. -/
def step (scopes : Scopes) : Chunk → Scopes
  | .startNamespace scope => scopes.enter scope.binding
  | .endNamespace scope => scopes.leave scope.binding
  | .startTag _ => scopes.declared
  | _ => scopes

/-- The scopes behind some chunks. -/
def run (scopes : Scopes) (chunks : List Chunk) : Scopes :=
  chunks.foldl step scopes

/-- A chunk that starts or ends no scope leaves the bindings, a start tag also, which only declares
them. -/
theorem bindings_step_of_not_isScope {chunk : Chunk} (h : chunk.isScope = false) (scopes : Scopes) :
    (scopes.step chunk).bindings = scopes.bindings := by
  cases chunk with
  | startNamespace scope | endNamespace scope => cases h
  | _ => rfl

end Scopes

namespace Render

variable {lookUp : LookUp}

/-- A rendering that goes on behind its last event, unless it has failed. -/
def Rendering.andThen (rendering : Rendering) (next : List RenderEvent → Rendering) : Rendering :=
  match rendering.failure with
  | none => next rendering.events.reverse
  | some _ => rendering

/-- The two parts meet between a start tag and an end tag, which are rendered as one. -/
def CutsTag (before after : List Chunk) : Prop :=
  ∃ tag finish, before.getLast? = some (.startTag tag) ∧ after.head? = some (.endTag finish)

theorem CutsTag.cons {chunk : Chunk} {before after : List Chunk} (h : CutsTag before after) :
    CutsTag (chunk :: before) after := by
  obtain ⟨tag, finish, hlast, hhead⟩ := h
  exact ⟨tag, finish, by rw [List.getLast?_cons, hlast, Option.getD_some], hhead⟩

/-- When the parts do not meet inside an element, what follows a start tag in the whole is an end
tag only if it is one in the first part. -/
theorem append_ne_endTag_cons {tag : StartTag} {finish : EndTag} {rest after others : List Chunk}
    (hrest : ∀ finish others, rest = .endTag finish :: others → False)
    (hcut : ¬ CutsTag (.startTag tag :: rest) after) :
    rest ++ after ≠ .endTag finish :: others := by
  intro h
  cases rest with
  | nil =>
    rw [List.nil_append] at h
    exact hcut ⟨tag, finish, rfl, by rw [h, List.head?_cons]⟩
  | cons chunk rest =>
    obtain ⟨rfl, -⟩ := List.cons.inj h
    exact hrest finish rest rfl

/-- **Rendering goes on with the scopes behind the chunks before.** -/
theorem renderOnto_append (done : List RenderEvent) (scopes : Scopes) {before after : List Chunk}
    (hcut : ¬ CutsTag before after) :
    renderOnto lookUp done scopes (before ++ after)
      = (renderOnto lookUp done scopes before).andThen fun done =>
        renderOnto lookUp done (scopes.run before) after := by
  fun_induction renderOnto lookUp done scopes before with
  | case1 done scopes =>
    show _ = renderOnto lookUp done.reverse.reverse scopes after
    rw [List.reverse_reverse, List.nil_append]
  | case2 done scopes scope rest ih | case3 done scopes scope rest ih => exact ih (mt .cons hcut)
  | case4 done scopes tag finish rest error herror =>
    -- a tag that cannot be written ends the rendering on both sides
    rw [List.cons_append, List.cons_append, renderOnto, herror]
    rfl
  | case5 done scopes tag finish rest name attributes hok ih =>
    rw [List.cons_append, List.cons_append, renderOnto, hok]
    exact ih fun h => hcut (.cons (.cons h))
  | case6 done scopes tag rest hrest error herror =>
    -- the tag is the last of the first part or has another chunk behind it
    rw [List.cons_append, renderOnto, herror]
    · rfl
    · exact fun finish others => append_ne_endTag_cons hrest hcut
  | case7 done scopes tag rest hrest name attributes hok ih =>
    rw [List.cons_append, renderOnto, hok]
    · exact ih (mt .cons hcut)
    · exact fun finish others => append_ne_endTag_cons hrest hcut
  | case8 done scopes tag rest error herror =>
    rw [List.cons_append, renderOnto, herror]
    rfl
  | case9 done scopes tag rest name hok ih =>
    rw [List.cons_append, renderOnto, hok]
    exact ih (mt .cons hcut)
  | case10 done scopes data rest error herror =>
    rw [List.cons_append, renderOnto, herror]
    rfl
  | case11 done scopes data rest content hok ih =>
    rw [List.cons_append, renderOnto, hok]
    exact ih (mt .cons hcut)
  | case12 done scopes _ rest ih | case13 done scopes _ rest ih | case14 done scopes _ rest ih =>
    exact ih (mt .cons hcut)

/-! ## The starts that are open -/

/-- Some chunks lead from the starts that are open before them to those that are open behind them,
both in the order in which they came. An end closes the last start of its binding that is still
open. -/
inductive LeavesOpen : List NamespaceScope → List Chunk → List NamespaceScope → Prop where
  | nil (opened : List NamespaceScope) : LeavesOpen opened [] opened
  | start {opened left : List NamespaceScope} {scope : NamespaceScope} {rest : List Chunk}
      (hrest : LeavesOpen (opened ++ [scope]) rest left) :
      LeavesOpen opened (.startNamespace scope :: rest) left
  | finish {outer inner left : List NamespaceScope} {scope closing : NamespaceScope}
      {rest : List Chunk} (hsame : scope.binding = closing.binding)
      (hinner : ∀ other ∈ inner, other.binding ≠ closing.binding)
      (hrest : LeavesOpen (outer ++ inner) rest left) :
      LeavesOpen (outer ++ scope :: inner) (.endNamespace closing :: rest) left
  | pass {opened left : List NamespaceScope} {chunk : Chunk} {rest : List Chunk}
      (hchunk : chunk.isScope = false) (hrest : LeavesOpen opened rest left) :
      LeavesOpen opened (chunk :: rest) left

/-- Scopes that are ended in the opposite order, with other chunks anywhere between. -/
inductive Nested : List Chunk → Prop where
  | nil : Nested []
  | scope {opening closing : NamespaceScope} {inner rest : List Chunk}
      (hsame : opening.binding = closing.binding) (hinner : Nested inner) (hrest : Nested rest) :
      Nested (.startNamespace opening :: (inner ++ .endNamespace closing :: rest))
  | pass {chunk : Chunk} {rest : List Chunk} (hchunk : chunk.isScope = false)
      (hrest : Nested rest) : Nested (chunk :: rest)

namespace LeavesOpen

variable {opened middle left : List NamespaceScope} {before after : List Chunk}

theorem append (hbefore : LeavesOpen opened before middle) (hafter : LeavesOpen middle after left) :
    LeavesOpen opened (before ++ after) left := by
  induction hbefore with
  | nil => exact hafter
  | start _ ih => exact .start (ih hafter)
  | finish hsame hinner _ ih => exact .finish hsame hinner (ih hafter)
  | pass hchunk _ ih => exact .pass hchunk (ih hafter)

/-- A whole can be cut anywhere, with some starts open at the cut. -/
theorem exists_of_append (h : LeavesOpen opened (before ++ after) left) :
    ∃ middle, LeavesOpen opened before middle ∧ LeavesOpen middle after left := by
  induction before generalizing opened with
  | nil => exact ⟨opened, .nil opened, h⟩
  | cons chunk before ih =>
    -- the chunk at the head tells which step was made
    cases h with
    | start hrest =>
      obtain ⟨middle, hbefore, hafter⟩ := ih hrest
      exact ⟨middle, .start hbefore, hafter⟩
    | finish hsame hinner hrest =>
      obtain ⟨middle, hbefore, hafter⟩ := ih hrest
      exact ⟨middle, .finish hsame hinner hbefore, hafter⟩
    | pass hchunk hrest =>
      obtain ⟨middle, hbefore, hafter⟩ := ih hrest
      exact ⟨middle, .pass hchunk hbefore, hafter⟩

end LeavesOpen

/-- Nested scopes leave open what was open before them, each end closing the innermost start. -/
theorem Nested.leavesOpen {chunks : List Chunk} (h : Nested chunks) (opened : List NamespaceScope) :
    LeavesOpen opened chunks opened := by
  induction h generalizing opened with
  | nil => exact .nil opened
  | @scope opening closing inner rest hsame _ _ ihinner ihrest =>
    have hclose : LeavesOpen (opened ++ [opening]) (.endNamespace closing :: rest) opened := by
      refine .finish hsame (List.forall_mem_nil _) ?_
      rw [List.append_nil]
      exact ihrest opened
    exact .start ((ihinner _).append hclose)
  | pass hchunk _ ih => exact .pass hchunk (ih opened)

/-! ## The bindings are the starts that are open -/

/-- The scopes are those of some starts, which came in this order. -/
structure Tracks (opened : List NamespaceScope) (scopes : Scopes) : Prop where
  bindings_eq : scopes.bindings = (opened.map NamespaceScope.binding).reverse
  /-- A uri has the prefix of the last start that binds it, if that start has one. -/
  prefixFor?_eq : ∀ outer scope inner, opened = outer ++ scope :: inner →
    (∀ other ∈ inner, other.uri ≠ scope.uri) → scopes.prefixFor? scope.uri = scope.name
  /-- A uri that no start binds has none. -/
  prefixFor?_eq_none : ∀ uri, (∀ scope ∈ opened, scope.uri ≠ uri) → scopes.prefixFor? uri = none

/-- The bindings alone decide the prefixes of uris. -/
theorem tracks_of_bindings_eq {opened : List NamespaceScope} {scopes : Scopes}
    (h : scopes.bindings = (opened.map NamespaceScope.binding).reverse) : Tracks opened scopes := by
  -- a search through starts of other uris finds nothing
  have hnone : ∀ (starts : List NamespaceScope) (uri : UInt32),
      (∀ scope ∈ starts, scope.uri ≠ uri) →
      (starts.map NamespaceScope.binding).reverse.find? (·.uri = uri) = none := by
    intro starts uri hstarts
    refine List.find?_eq_none.mpr fun binding hbinding => ?_
    obtain ⟨scope, hscope, rfl⟩ := List.mem_map.mp (List.mem_reverse.mp hbinding)
    exact fun hsame => hstarts scope hscope (of_decide_eq_true hsame)
  refine ⟨h, ?_, fun uri huri => ?_⟩
  · rintro outer scope inner rfl hinner
    -- the inner starts are searched first, and then the one in question is at the head
    rw [Scopes.prefixFor?, h, List.map_append, List.map_cons, List.reverse_append,
      List.reverse_cons, List.append_assoc, List.find?_append, hnone inner scope.uri hinner]
    simp [NamespaceScope.binding]
  · rw [Scopes.prefixFor?, h, hnone opened uri huri, Option.bind_none]

/-- The end of a scope is found where the start is that it closes. -/
theorem erase_binding {outer inner : List NamespaceScope} {scope closing : NamespaceScope}
    (hsame : scope.binding = closing.binding)
    (hinner : ∀ other ∈ inner, other.binding ≠ closing.binding) :
    ((outer ++ scope :: inner).map NamespaceScope.binding).reverse.erase closing.binding
      = ((outer ++ inner).map NamespaceScope.binding).reverse := by
  have hnot : closing.binding ∉ (inner.map NamespaceScope.binding).reverse := by
    intro hmem
    obtain ⟨other, hother, heq⟩ := List.mem_map.mp (List.mem_reverse.mp hmem)
    exact hinner other hother heq
  rw [List.map_append, List.map_cons, List.reverse_append, List.reverse_cons, List.append_assoc,
    List.erase_append_right _ hnot, hsame, List.singleton_append, List.erase_cons_head,
    List.map_append, List.reverse_append]

/-- Whatever is started and ended, the bindings stay those of the starts that are open. -/
theorem bindings_run {opened left : List NamespaceScope} {chunks : List Chunk} {scopes : Scopes}
    (h : LeavesOpen opened chunks left)
    (hscopes : scopes.bindings = (opened.map NamespaceScope.binding).reverse) :
    (scopes.run chunks).bindings = (left.map NamespaceScope.binding).reverse := by
  induction h generalizing scopes with
  | nil => exact hscopes
  | start _ ih =>
    refine ih ?_
    rw [List.map_append, List.reverse_append, ← hscopes]
    rfl
  | finish hsame hinner _ ih =>
    refine ih ?_
    rw [← erase_binding hsame hinner, ← hscopes]
    rfl
  | pass hchunk _ ih => exact ih ((Scopes.bindings_step_of_not_isScope hchunk scopes).trans hscopes)

/-- **Scopes while rendering.** When every end closes the last start of its binding that is still
open, and none is open at the end, then behind any first chunks the bindings are those of the starts
that are open there, in order, and a uri has the prefix of the last of them that binds it. Rendering
goes on with these scopes, and behind the last chunk there are none. -/
theorem tracks_of_leavesOpen {chunks : List Chunk} (h : LeavesOpen [] chunks []) :
    (∀ before after, chunks = before ++ after →
      (∃ opened, LeavesOpen [] before opened ∧ LeavesOpen opened after []) ∧
      (∀ opened, LeavesOpen [] before opened → Tracks opened (Scopes.run {} before)) ∧
      (¬ CutsTag before after → ∀ (lookUp : LookUp) (done : List RenderEvent),
        renderOnto lookUp done {} chunks = (renderOnto lookUp done {} before).andThen fun done =>
          renderOnto lookUp done (Scopes.run {} before) after)) ∧
    (Scopes.run {} chunks).bindings = [] := by
  refine ⟨?_, bindings_run h rfl⟩
  rintro before after rfl
  refine ⟨h.exists_of_append, ?_, ?_⟩
  · exact fun opened hbefore => tracks_of_bindings_eq (bindings_run hbefore rfl)
  · exact fun hcut lookUp done => renderOnto_append done {} hcut

/-- One binding started twice, and between the two the default namespace with the same uri. -/
def repeatedScopes : List Chunk := [
  .startNamespace ⟨1, none, some 0, 1⟩,
  .startTag ⟨1, none, none, 2, [], 0, 0, 0⟩,
  .startNamespace ⟨2, none, none, 1⟩,
  .startNamespace ⟨3, none, some 0, 1⟩,
  .startTag ⟨3, none, none, 2, [], 0, 0, 0⟩,
  .endTag ⟨4, none, none, 2⟩,
  .endNamespace ⟨4, none, some 0, 1⟩,
  .endNamespace ⟨5, none, none, 1⟩,
  .endTag ⟨6, none, none, 2⟩,
  .endNamespace ⟨6, none, some 0, 1⟩]

/-- Each scope is ended inside the one around it. -/
theorem nested_repeatedScopes : Nested repeatedScopes := by
  -- from the inside out
  have hinnermost : Nested [.startTag ⟨3, none, none, 2, [], 0, 0, 0⟩,
      .endTag ⟨4, none, none, 2⟩] := .pass rfl (.pass rfl .nil)
  have hdefault : Nested [.startNamespace ⟨3, none, some 0, 1⟩,
      .startTag ⟨3, none, none, 2, [], 0, 0, 0⟩, .endTag ⟨4, none, none, 2⟩,
      .endNamespace ⟨4, none, some 0, 1⟩] := .scope (by rfl) hinnermost .nil
  have hroot : Nested [.startTag ⟨1, none, none, 2, [], 0, 0, 0⟩,
      .startNamespace ⟨2, none, none, 1⟩, .startNamespace ⟨3, none, some 0, 1⟩,
      .startTag ⟨3, none, none, 2, [], 0, 0, 0⟩, .endTag ⟨4, none, none, 2⟩,
      .endNamespace ⟨4, none, some 0, 1⟩,
      .endNamespace ⟨5, none, none, 1⟩, .endTag ⟨6, none, none, 2⟩] :=
    .pass rfl (.scope (by rfl) hdefault (.pass rfl .nil))
  exact .scope (by rfl) hroot .nil

/-- In front of the second start of the binding the default namespace has taken its uri. -/
theorem tracks_of_leavesOpen_repeatedScopes :
    LeavesOpen [] repeatedScopes [] ∧
      (∃ opened, LeavesOpen [] (repeatedScopes.take 3) opened ∧
        Tracks opened (Scopes.run {} (repeatedScopes.take 3))) ∧
      (Scopes.run {} (repeatedScopes.take 3)).prefixFor? 1 = none ∧
      (Scopes.run {} (repeatedScopes.take 4)).prefixFor? 1 = some 0 ∧
      (Scopes.run {} repeatedScopes).bindings = [] := by
  have hnested := nested_repeatedScopes.leavesOpen []
  obtain ⟨htracks, hend⟩ := tracks_of_leavesOpen hnested
  obtain ⟨⟨opened, hbefore, -⟩, hall, -⟩ := htracks _ _ (List.take_append_drop 3 _).symm
  exact ⟨hnested, ⟨opened, hbefore, hall opened hbefore⟩, rfl, rfl, hend⟩

end Render

end BinaryXml
