import Chiptune.Playhead.Tick

/-!
# How a stream ends

A playhead that finishes always says so: the last thing that it asks for in the tick is `ended` or
`failed`, and nothing follows. The track that carries the effects out can therefore let go of its
notes at that point and be sure that no new one is started behind it.

`Playhead.endsLast_tick` is the statement for a whole tick. Before it stands the same fact for one
command and for a run of commands, and behind it the converse: no command but the last one ends the
notes.
-/

namespace Chiptune

/-- The effect ends the notes of its stream. -/
def Effect.IsEnd : Effect → Prop
  | .ended => True
  | .failed _ => True
  | _ => False

/-- The last of some effects is the end of the stream. -/
def EndsLast (effects : List Effect) : Prop := ∃ before e, effects = before ++ [e] ∧ e.IsEnd

/-- What was asked for before makes no difference to how it ends. -/
theorem EndsLast.append {effects : List Effect} (h : EndsLast effects) (earlier : List Effect) :
    EndsLast (earlier ++ effects) := by
  obtain ⟨before, e, rfl, he⟩ := h
  exact ⟨earlier ++ before, e, by rw [List.append_assoc], he⟩

theorem endsLast_ended : EndsLast [.ended] := ⟨[], .ended, rfl, trivial⟩

/-! ## How a playhead finishes

By a command that says so, by a call or loop too many, by bytes that cannot be decoded, or by the
limit of commands. Each of them asks for the end of the notes as the last thing. -/

theorem endsLast_failed (error : DecodeError) : EndsLast [.failed error] :=
  ⟨[], .failed error, rfl, trivial⟩

namespace Playhead

variable {driver : SoundDriver} {limit : Nat} {s : EventStream} {h : Playhead}

theorem not_isFinished_settle (h : Playhead) : ¬ h.settle.IsFinished := by
  unfold settle IsFinished
  dsimp only
  split <;> simp

theorem endsLast_fail (h : Playhead) (error : DecodeError) : EndsLast (h.fail error).2 :=
  endsLast_failed error

/-- Of all commands only `finish`, and a call or loop that is one too many, finish a playhead. -/
theorem endsLast_execute (unfinished : ¬ h.IsFinished) (offset : Nat) (c : Command)
    (done : (h.execute driver offset c).1.IsFinished) :
    EndsLast (h.execute driver offset c).2 := by
  -- only the end of the stream, and a stack that is full, end a playhead
  cases c with
  | finish => exact endsLast_ended
  | call target passes =>
    simp only [execute] at done ⊢
    split at done
    · exact absurd done (not_isFinished_settle _)
    · next hdepth => rw [if_neg hdepth]; exact endsLast_fail _ _
  | openLoop passes =>
    simp only [execute] at done ⊢
    split at done
    · exact absurd done (not_isFinished_settle _)
    · next hdepth => rw [if_neg hdepth]; exact endsLast_fail _ _
  | wait ticks =>
    cases ticks with
    | zero => exact absurd done (not_isFinished_settle _)
    | succ ticks => exact absurd done unfinished
  | _ => exact absurd done (not_isFinished_settle _)

/-- A step that finishes the playhead asks for the end last. -/
theorem endsLast_step (unfinished : ¬ h.IsFinished) (done : (h.step driver s).1.IsFinished) :
    EndsLast (h.step driver s).2 := by
  unfold step at done ⊢
  split
  · exact endsLast_ended
  · next hcursor =>
    rw [if_neg hcursor] at done
    split at done
    · exact endsLast_fail _ _
    · next status d hd =>
      have moved : ¬ { h with status, cursor := h.cursor + d.length }.IsFinished := unfinished
      exact endsLast_execute moved _ _ done

theorem endsLast_exhaust : EndsLast (h.exhaust limit s).2 := by
  unfold exhaust
  split
  · exact endsLast_ended
  · exact endsLast_fail _ _

/-- A run stops at the step that finishes the playhead, so nothing comes behind the end. -/
theorem endsLast_run (budget : Nat) (effects : Array Effect) (unfinished : ¬ h.IsFinished)
    (done : (run driver limit s budget h effects).1.IsFinished) :
    EndsLast (run driver limit s budget h effects).2.toList := by
  induction budget generalizing h effects with
  | zero =>
    simp only [run, Array.appendList_eq_append, Array.toList_appendList]
    exact endsLast_exhaust.append _
  | succ budget ih =>
    simp only [run] at done ⊢
    split
    · next hrest =>
      rw [if_pos hrest] at done
      simp only [Array.appendList_eq_append, Array.toList_appendList]
      exact (endsLast_step unfinished done).append _
    · next hrest =>
      rw [if_neg hrest] at done
      exact ih _ (fun finished => hrest (Or.inl finished)) done

/-- A playhead under way: an idle one has started. -/
def started (h : Playhead) : Playhead :=
  if h.progress = .idle then { h with progress := .running } else h

theorem tick_of_not_isFinished (unfinished : ¬ h.IsFinished) :
    h.tick driver limit s =
      if 1 < h.started.rest then ({ h.started with rest := h.started.rest - 1 }, #[])
      else { h.started with rest := 0 }.run driver limit s limit #[] := by
  rw [tick, if_neg unfinished]
  rfl

theorem not_isFinished_started (unfinished : ¬ h.IsFinished) : ¬ h.started.IsFinished := by
  unfold started
  split
  · simp [IsFinished]
  · exact unfinished

/-- A playhead that finishes in a tick asks for the end of its notes, and for nothing after it. -/
theorem endsLast_tick (unfinished : ¬ h.IsFinished)
    (done : (h.tick driver limit s).1.IsFinished) :
    EndsLast (h.tick driver limit s).2.toList := by
  rw [tick_of_not_isFinished unfinished] at done ⊢
  have hstarted := not_isFinished_started unfinished
  split
  · next hrest =>
    rw [if_pos hrest] at done
    exact absurd done hstarted
  · next hrest =>
    rw [if_neg hrest] at done
    exact endsLast_run limit #[] hstarted done

/-! ## How a playhead goes on

The other direction, for single steps. -/

/-- As long as the stream is not over, no command ends its notes. -/
theorem not_isEnd_of_execute {offset : Nat} {c : Command} {e : Effect}
    (unfinished : ¬ (h.execute driver offset c).1.IsFinished)
    (asked : e ∈ (h.execute driver offset c).2) : ¬ e.IsEnd := by
  cases c with
  | finish => exact absurd rfl unfinished
  | wait ticks => cases ticks <;> cases asked
  | call | openLoop =>
    rw [execute] at unfinished asked
    split at asked
    · cases asked
    · next full =>
      rw [if_neg full] at unfinished
      exact absurd rfl unfinished
  | noteOn | noteOff | volume | expression | pan | bend | bendRange | tempo =>
    rw [List.mem_singleton.mp asked]
    exact id
  | _ => cases asked

/-- A step after which the playhead goes on ends no notes. -/
theorem not_isEnd_of_step {e : Effect} (unfinished : ¬ (h.step driver s).1.IsFinished)
    (asked : e ∈ (h.step driver s).2) : ¬ e.IsEnd := by
  unfold step at unfinished asked
  split at asked
  · next beyond =>
    rw [if_pos beyond] at unfinished
    exact absurd rfl unfinished
  · next inside =>
    rw [if_neg inside] at unfinished
    generalize s.decode driver h.cursor h.status = decoded at unfinished asked
    obtain ⟨status, error | d⟩ := decoded
    · exact absurd rfl unfinished
    · exact not_isEnd_of_execute unfinished asked

end Playhead
end Chiptune
