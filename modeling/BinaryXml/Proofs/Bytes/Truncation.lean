import BinaryXml.Proofs.Bytes.Writing

/-!
# Writes that run out of room

What a replay leaves in limited room follows from what it leaves when nothing limits it: as many of
the same bytes as fit, and the same end if they all do. `Writing.Truncates` says so of any write.
-/

namespace BinaryXml

namespace Writing

/-- Without a limit a replay has just the outcome that it replays. -/
theorem runIn_none_replay (full : Error) (written : Written) :
    (replay full written).runIn none = written := by
  obtain ⟨stored, failure⟩ := written
  have hput : put full stored {} = .ok () { stored } := by
    simp [put]
  rw [runIn, replay, bind_eq_of_eq_ok hput]
  cases failure <;> rfl

/-- In limited room a replay has its outcome if all its bytes fit; else it stops at the limit. -/
theorem runIn_some_replay (full : Error) (written : Written) (room : Nat) :
    (replay full written).runIn (some room)
      = if written.stored.size ≤ room then written
        else ⟨written.stored.extract 0 room, some full⟩ := by
  obtain ⟨stored, failure⟩ := written
  by_cases hfits : stored.size ≤ room
  · -- the piece fits, and the end comes right behind it
    have hput : put full stored { room := some room }
        = .ok () { stored, room := some (room - stored.size) } := by
      simp [put, hfits]
    rw [if_pos hfits, runIn, replay, bind_eq_of_eq_ok hput]
    cases failure <;> rfl
  · -- what comes behind the piece that does not fit is not looked at
    have hput : put full stored { room := some room }
        = .error full { stored := stored.extract 0 room, room := some 0 } := by
      simp [put, hfits]
    rw [if_neg hfits, runIn, replay, bind_eq_of_eq_error hput]

/-- What a write leaves in any room, told by what it leaves when nothing limits it; `full` is its
error when the sink runs out of room. -/
structure Truncates (full : Error) (write : Writing Unit) : Prop where
  /-- As many of the bytes arrive as there is room for. -/
  stored_runIn : ∀ room, (write.runIn (some room)).stored
    = (write.runIn none).stored.extract 0 (min room (write.runIn none).stored.size)
  /-- The write ends as it does without a limit if all of them fit, and else for want of room. -/
  failure_runIn : ∀ room, (write.runIn (some room)).failure
    = if (write.runIn none).stored.size ≤ room then (write.runIn none).failure else some full
  /-- No other failure is taken for a want of room. -/
  failure_ne : (write.runIn none).failure ≠ some full

/-- A replay is cut as `Truncates` says. Its own failure must not be the one of a full sink, or the
two could not be told apart. -/
theorem truncates_replay {full : Error} {written : Written} (h : written.failure ≠ some full) :
    Truncates full (replay full written) where
  stored_runIn room := by
    rw [runIn_none_replay, runIn_some_replay]
    by_cases hfits : written.stored.size ≤ room
    · rw [if_pos hfits, Nat.min_eq_right hfits, ByteArray.extract_zero_size]
    · rw [if_neg hfits, Nat.min_eq_left (by omega)]
  failure_runIn room := by
    rw [runIn_none_replay, runIn_some_replay]
    split <;> rfl
  failure_ne := by rwa [runIn_none_replay]

end Writing

namespace Written

/-- Of two writes in a row it is one or the other that fails. -/
theorem eq_or_of_failure_andThen {first second : Written} {error : Error}
    (h : (first.andThen second).failure = some error) :
    first.failure = some error ∨ second.failure = some error := by
  unfold andThen at h
  split at h
  · exact .inl h
  · exact .inr h

/-- Writes in turn fail only as one of them does. -/
theorem exists_mem_of_failure_inTurn {writes : List Written} {error : Error}
    (h : (inTurn writes).failure = some error) :
    ∃ written ∈ writes, written.failure = some error := by
  induction writes with
  | nil => cases h
  | cons written rest ih =>
    rcases eq_or_of_failure_andThen h with hfirst | hrest
    · exact ⟨written, List.mem_cons_self, hfirst⟩
    · obtain ⟨found, hmem, hfound⟩ := ih hrest
      exact ⟨found, List.mem_cons_of_mem _ hmem, hfound⟩

theorem failure_ofExcept_eq_some_iff {bytes : Except Error ByteArray} {error : Error} :
    (ofExcept bytes).failure = some error ↔ bytes = .error error := by
  cases bytes <;> simp [ofExcept]

end Written

end BinaryXml
