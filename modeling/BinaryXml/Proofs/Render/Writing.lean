import BinaryXml.Proofs.Bytes.Truncation
import BinaryXml.Proofs.Render.Lookups

/-!
# Writing what is rendered

A document is written as XML text in one go, behind which the rendering may have failed
(`writeXml_eq_replay`). That comes to the same as writing its chunks one after the other, each event
as soon as its strings are looked up (`writeXml_eq_writeChunks`): so a string that is not there is
missed only behind the events in front of it.
-/

namespace BinaryXml

namespace Render

variable {lookUp : LookUp}

/-! ## The bytes of the text -/

theorem text_bind_text (first second : String) :
    (do Writing.text first; Writing.text second) = Writing.text (first ++ second) := by
  exact Writing.put_bind_put _ _ _

/-- Events are written as the text that they are collected into. -/
theorem text_bind_writeEvents (events : List RenderEvent) (margin : Margin) (done : String) :
    (do Writing.text done; writeEvents events margin)
      = Writing.text (eventsTextOnto done events margin) := by
  induction events generalizing margin done with
  | nil => exact bind_pure_unit
  | cons event rest ih =>
    show (do Writing.text done; Writing.text (eventText margin event).1; writeEvents rest _) = _
    rw [← bind_assoc, text_bind_text]
    exact ih _ _

/-! ## The failure behind it -/

section

variable {P : Error → Prop}

/-- The prefix of a uri fails only as a lookup does. -/
theorem failsOnly_qualifierOf (h : ∀ index, FailsOnly P (lookUp index)) (scopes : Scopes)
    (uri : UInt32) : FailsOnly P (qualifierOf lookUp scopes uri) := by
  unfold qualifierOf
  split
  · exact h _
  · exact (h uri).bind fun _ _ => failsOnly_ok _

theorem failsOnly_qualifiedName (h : ∀ index, FailsOnly P (lookUp index)) (scopes : Scopes)
    (uri : Option UInt32) (name : UInt32) : FailsOnly P (qualifiedName lookUp scopes uri name) := by
  refine (h name).bind fun localName _ => ?_
  cases uri with
  | none => exact failsOnly_ok localName
  | some uri => exact (failsOnly_qualifierOf h scopes uri).bind fun _ _ => failsOnly_ok _

theorem failsOnly_declaredName (h : ∀ index, FailsOnly P (lookUp index)) (name : Option UInt32) :
    FailsOnly P (declaredName lookUp name) := by
  cases name with
  | none => exact failsOnly_ok _
  | some index => exact (h index).bind fun _ _ => failsOnly_ok _

theorem failsOnly_declarationsOnto (h : ∀ index, FailsOnly P (lookUp index))
    (bindings : List ScopedBinding) (done : List (String × String)) :
    FailsOnly P (declarationsOnto lookUp done bindings) := by
  induction bindings generalizing done with
  | nil => exact failsOnly_ok _
  | cons binding rest ih =>
    refine (failsOnly_declaredName h binding.name).bind fun name _ => ?_
    refine failsOnly_ite (fun _ => ih done) fun _ => ?_
    exact (h binding.uri).bind fun uri _ => ih _

theorem failsOnly_attributeValue (h : ∀ index, FailsOnly P (lookUp index)) (attr : Attribute) :
    FailsOnly P (attributeValue lookUp attr) := by
  unfold attributeValue
  split
  · exact h _
  · split
    · exact h _
    · exact failsOnly_ok _

theorem failsOnly_renderStartTag (h : ∀ index, FailsOnly P (lookUp index)) (scopes : Scopes)
    (tag : StartTag) : FailsOnly P (renderStartTag lookUp scopes tag) := by
  refine (failsOnly_qualifiedName h scopes tag.uri tag.name).bind fun name _ => ?_
  refine (failsOnly_declarationsOnto h _ _).bind fun declared _ => ?_
  refine (failsOnly_mapM (fun attr => ?_) tag.attributes).bind fun own _ => failsOnly_ok _
  refine (failsOnly_qualifiedName h scopes attr.uri attr.name).bind fun name _ => ?_
  exact (failsOnly_attributeValue h attr).bind fun value _ => failsOnly_ok _

/-- Rendering stops with nothing but the error of a lookup. -/
theorem of_failure_renderOnto (h : ∀ index, FailsOnly P (lookUp index)) {done : List RenderEvent}
    {scopes : Scopes} {chunks : List Chunk} {error : Error}
    (hfail : (renderOnto lookUp done scopes chunks).failure = some error) : P error := by
  fun_induction renderOnto lookUp done scopes chunks with
  | case1 => cases hfail
  | case4 _ _ _ _ _ _ herror | case6 _ _ _ _ _ _ herror =>
    -- the tag, the name or the text that failed had a lookup that did
    cases hfail
    exact failsOnly_renderStartTag h _ _ _ herror
  | case8 _ _ _ _ _ herror =>
    cases hfail
    exact failsOnly_qualifiedName h _ _ _ _ herror
  | case10 _ _ _ _ _ herror =>
    cases hfail
    exact h _ _ herror
  | case2 _ _ _ _ ih | case3 _ _ _ _ ih => exact ih hfail
  | case5 _ _ _ _ _ _ _ _ ih | case7 _ _ _ _ _ _ _ _ ih => exact ih hfail
  | case9 _ _ _ _ _ _ ih | case11 _ _ _ _ _ _ ih => exact ih hfail
  | case12 _ _ _ _ ih | case13 _ _ _ _ ih | case14 _ _ _ _ ih => exact ih hfail

end

/-! ## Chunk by chunk -/

def Rendering.write (rendering : Rendering) (margin : Margin) : Writing Unit := do
  writeEvents rendering.events margin
  match rendering.failure with
  | some error => throw error
  | none => pure ()

/-- Write an event and go on behind it. -/
def writeEvent (event : RenderEvent) (margin : Margin) (next : Margin → Writing Unit) :
    Writing Unit := do
  let (text, margin) := eventText margin event
  Writing.text text
  next margin

/-- Write chunks as XML text one after the other: what an event needs is looked up, then the event
is written, then the next chunk is looked at. -/
def writeChunks (lookUp : LookUp) (scopes : Scopes) (margin : Margin) : List Chunk → Writing Unit
  | [] => pure ()
  | .startNamespace scope :: rest =>
    writeChunks lookUp (scopes.enter ⟨scope.name, scope.uri⟩) margin rest
  | .endNamespace scope :: rest =>
    writeChunks lookUp (scopes.leave ⟨scope.name, scope.uri⟩) margin rest
  | .startTag tag :: .endTag _ :: rest => do
    let (name, attributes) ← ofExcept (renderStartTag lookUp scopes tag)
    writeEvent (.empty name attributes) margin fun margin =>
      writeChunks lookUp scopes.declared margin rest
  | .startTag tag :: rest => do
    let (name, attributes) ← ofExcept (renderStartTag lookUp scopes tag)
    writeEvent (.start name attributes) margin fun margin =>
      writeChunks lookUp scopes.declared margin rest
  | .endTag tag :: rest => do
    let name ← ofExcept (qualifiedName lookUp scopes tag.uri tag.name)
    writeEvent (.finish name) margin fun margin => writeChunks lookUp scopes margin rest
  | .characterData data :: rest => do
    let content ← ofExcept (lookUp data.data)
    writeEvent (.text content) margin fun margin => writeChunks lookUp scopes margin rest
  | .stringPool _ :: rest => writeChunks lookUp scopes margin rest
  | .resourceMap _ :: rest => writeChunks lookUp scopes margin rest
  | .other _ :: rest => writeChunks lookUp scopes margin rest

/-- Where the next event is written behind some events. -/
def marginAfter (margin : Margin) (events : List RenderEvent) : Margin :=
  events.foldl (fun margin event => (eventText margin event).2) margin

/-- The last of some events is written at the margin that the others have left. -/
theorem writeEvents_append_singleton (events : List RenderEvent) (event : RenderEvent)
    (margin : Margin) (next : Margin → Writing Unit) :
    (do writeEvents (events ++ [event]) margin; next (marginAfter margin (events ++ [event])))
      = (do
        writeEvents events margin
        writeEvent event (marginAfter margin events) next) := by
  induction events generalizing margin with
  | nil =>
    show (do (do Writing.text _; pure ()); next _) = _
    rw [bind_assoc, pure_bind]
    rfl
  | cons first rest ih =>
    show (do (do Writing.text _; writeEvents (rest ++ [event]) _); next _) = _
    rw [bind_assoc]
    exact (congrArg _ (funext fun _ => ih _)).trans (bind_assoc ..).symm

/-- **What is rendered first and then written is written chunk by chunk.** -/
theorem write_renderOnto (done : List RenderEvent) (scopes : Scopes) (chunks : List Chunk)
    (margin : Margin) :
    (renderOnto lookUp done scopes chunks).write margin
      = (do
        writeEvents done.reverse margin
        writeChunks lookUp scopes (marginAfter margin done.reverse) chunks) := by
  -- a failure is told behind the events so far, and an event goes behind them
  have hstop (done : List RenderEvent) (error : Error) :
      Rendering.write ⟨done.reverse, some error⟩ margin
        = (do writeEvents done.reverse margin; throw error) := rfl
  have hevent (done : List RenderEvent) (event : RenderEvent) (next : Margin → Writing Unit) :
      (do
        writeEvents (event :: done).reverse margin
        next (marginAfter margin (event :: done).reverse))
        = (do
          writeEvents done.reverse margin
          writeEvent event (marginAfter margin done.reverse) next) := by
    rw [List.reverse_cons, writeEvents_append_singleton]
  fun_induction renderOnto lookUp done scopes chunks with
  | case1 done scopes => rfl
  | case2 done scopes scope rest ih => exact ih
  | case3 done scopes scope rest ih => exact ih
  | case4 done scopes tag finish rest error herror =>
    -- a start tag and its end tag, or the first of their lookups that fails
    rw [hstop, writeChunks, herror]
    rfl
  | case5 done scopes tag finish rest name attributes hok ih =>
    rw [ih, writeChunks, hok]
    exact hevent done _ fun margin => writeChunks lookUp scopes.declared margin rest
  | case6 done scopes tag rest hrest error herror =>
    rw [hstop, writeChunks, herror]
    · rfl
    · exact hrest
  | case7 done scopes tag rest hrest name attributes hok ih =>
    rw [ih, writeChunks, hok]
    · exact hevent done _ fun margin => writeChunks lookUp scopes.declared margin rest
    · exact hrest
  | case8 done scopes tag rest error herror =>
    -- the name of an end tag
    rw [hstop, writeChunks, herror]
    rfl
  | case9 done scopes tag rest name hok ih =>
    rw [ih, writeChunks, hok]
    exact hevent done _ fun margin => writeChunks lookUp scopes margin rest
  | case10 done scopes data rest error herror =>
    -- a text
    rw [hstop, writeChunks, herror]
    rfl
  | case11 done scopes data rest content hok ih =>
    rw [ih, writeChunks, hok]
    exact hevent done _ fun margin => writeChunks lookUp scopes margin rest
  | case12 done scopes pool rest ih => exact ih
  | case13 done scopes ids rest ih => exact ih
  | case14 done scopes chunk rest ih => exact ih

end Render

/-! ## Documents -/

namespace ChunkFile

/-- **A document is written as its text**, and then fails if its rendering does. -/
theorem writeXml_eq_replay (file : ChunkFile) :
    file.writeXml = Writing.replay (.xml .outOfRoom)
      ⟨(Render.eventsTextOnto Render.declarationText file.rendering.events {}).toUTF8,
        file.rendering.failure⟩ := by
  show (do
    Writing.text Render.declarationText
    Render.writeEvents file.rendering.events {}
    _) = _
  rw [← bind_assoc, Render.text_bind_writeEvents]
  unfold Writing.replay
  cases file.rendering.failure <;> rfl

/-- Into memory the bytes of the text are written, or the same error comes. -/
theorem toBytes_writeXml (file : ChunkFile) :
    file.writeXml.toBytes = String.toUTF8 <$> file.toXml := by
  rw [writeXml_eq_replay, Writing.toBytes_replay, toXml]
  cases file.rendering.failure <;> rfl

/-- Nothing but a string that is not there stops a rendering. -/
theorem exists_of_failure_rendering {file : ChunkFile} {error : Error}
    (h : file.rendering.failure = some error) :
    ∃ index count, error = .stringIndexOutOfRange index count := by
  refine Render.of_failure_renderOnto
    (P := fun error => ∃ index count, error = .stringIndexOutOfRange index count)
    (fun index error herror => ?_) h
  unfold lookUp at herror
  split at herror
  · split at herror
    · cases herror
    · cases herror
      exact ⟨_, _, rfl⟩
  · cases herror
    exact ⟨_, _, rfl⟩

/-- **A file is written chunk by chunk behind the declaration.** -/
theorem writeXml_eq_writeChunks (file : ChunkFile) :
    file.writeXml = (do
      Writing.text Render.declarationText
      Render.writeChunks (lookUp file.stringPool?) {} {} file.chunks) := by
  have hrest : file.rendering.write {} = (do
      Render.writeEvents [] {}
      Render.writeChunks (lookUp file.stringPool?) {} {} file.chunks) :=
    Render.write_renderOnto [] {} file.chunks {}
  show (do Writing.text Render.declarationText; file.rendering.write {}) = _
  rw [hrest]
  rfl

end ChunkFile

end BinaryXml
