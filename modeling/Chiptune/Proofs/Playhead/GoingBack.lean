import Chiptune.Proofs.EventStream.Vocabulary
import Chiptune.Proofs.Playhead.Places

/-!
# How streams go back

There are two ways for a song to repeat, and no driver has both. The streams of DSE name a loop
point, which a playhead remembers until the whole song has run out. Those of all other drivers go
back by themselves, and count it. So a tick never sets a loop point except in DSE
(`Playhead.loopPoint_tick`), and in DSE it never counts a loop (`Playhead.loopCount_tick`).
-/

namespace Chiptune.Playhead

variable {driver : SoundDriver} {limit : Nat} {s : EventStream} {h : Playhead}

/-! ## What ticks keep

What a tick keeps is decided by the commands that its driver has, if it has nothing to do with
places. -/

section Keep

variable {β : Type} {f : Playhead → β}

/-- `f` looks at nothing that tells where a playhead is. -/
def IgnoresPlace (f : Playhead → β) : Prop :=
  ∀ (h : Playhead) (progress : Progress) (cursor rest : Nat) (nestings : List Nesting)
    (status : Status) (error : Option DecodeError),
    f { h with progress, cursor, rest, nestings, status, error } = f h

variable (place : IgnoresPlace f)
  (execute : ∀ (h : Playhead) (offset : Nat) (c : Command), driver.Speaks c →
    f (h.execute driver offset c).1 = f h)

include place

theorem keep_finish (h : Playhead) : f h.finish = f h :=
  place h _ h.cursor h.rest _ h.status h.error

theorem keep_fail (h : Playhead) (error : DecodeError) : f (h.fail error).1 = f h :=
  place h _ h.cursor h.rest _ h.status _

theorem keep_exhaust (h : Playhead) : f (h.exhaust limit s).1 = f h := by
  unfold exhaust
  split
  · exact keep_finish place h
  · exact keep_fail place h _

include execute

/-- A step decodes a command that belongs to the driver, and executes it. -/
theorem keep_step (h : Playhead) : f (h.step driver s).1 = f h := by
  unfold step
  split
  · exact keep_finish place h
  · split
    · next status error _ =>
      exact (keep_fail place { h with status } error).trans
        (place h h.progress h.cursor h.rest h.nestings status h.error)
    · next status d hd =>
      exact (execute _ _ _ (EventStream.decode_speaks hd)).trans
        (place h h.progress (h.cursor + d.length) h.rest h.nestings status h.error)

/-- A run keeps what each of its steps keeps. -/
theorem keep_run (budget : Nat) (h : Playhead) (effects : Array Effect) :
    f (run driver limit s budget h effects).1 = f h := by
  -- on the commands that may still be run in this tick
  induction budget generalizing h effects with
  | zero => exact keep_exhaust place h
  | succ budget ih =>
    have hstep := keep_step (s := s) place execute h
    rw [run]
    dsimp only
    split
    · exact hstep
    · exact (ih _ _).trans hstep

/-- What no command of the driver changes, and no moving about, a tick does not change. -/
theorem keep_tick (h : Playhead) : f (h.tick driver limit s).1 = f h := by
  have hstarted : ∀ rest, f { h.started with rest } = f h := by
    intro rest
    unfold started
    split
    · exact place h .running h.cursor rest h.nestings h.status h.error
    · exact place h h.progress h.cursor rest h.nestings h.status h.error
  by_cases finished : h.IsFinished
  · rw [tick_of_isFinished finished]
  · rw [tick_of_not_isFinished finished]
    split
    · exact hstarted _
    · exact (keep_run place execute _ _ _).trans (hstarted 0)

end Keep

/-! ## Loop points and counted loops

Only DSE names loop points, and DSE alone has no command that goes back by itself. -/

/-- Outside DSE no command names a loop point. -/
theorem loopPoint_execute (hdriver : driver ≠ .dse) (h : Playhead) (offset : Nat) (c : Command)
    (speaks : driver.Speaks c) : (h.execute driver offset c).1.loopPoint = h.loopPoint := by
  cases c with
  | loopPoint => exact absurd speaks hdriver
  | wait ticks => cases ticks <;> rfl
  | call target passes =>
    rw [execute]
    split <;> rfl
  | openLoop passes =>
    rw [execute]
    split <;> rfl
  | again target count =>
    obtain ⟨_, _, same⟩ := exists_again_eq h target count
    simp only [execute, settle, same]
  | endCall =>
    obtain ⟨_, _, _, same⟩ := exists_endCall_eq h
    simp only [execute, settle, same]
  | closeLoop =>
    obtain ⟨_, _, _, same⟩ := exists_closeLoop_eq h
    simp only [execute, settle, same]
  | _ => rfl

/-- Only streams of DSE name a loop point. -/
theorem loopPoint_tick (hdriver : driver ≠ .dse) (h : Playhead) :
    (h.tick driver limit s).1.loopPoint = h.loopPoint :=
  keep_tick (f := loopPoint) (fun _ _ _ _ _ _ _ => rfl) (loopPoint_execute hdriver) h

/-- In DSE no command counts a loop. -/
theorem loopCount_execute (h : Playhead) (offset : Nat) (c : Command)
    (speaks : SoundDriver.dse.Speaks c) : (h.execute .dse offset c).1.loopCount = h.loopCount := by
  cases c with
  | jump target => exact absurd rfl speaks
  | call target passes => rcases speaks with h | h <;> cases h
  | endCall => exact absurd rfl speaks
  | again target count => rcases speaks with h | h <;> cases h
  | openLoop passes => cases speaks
  | closeLoop => cases speaks
  | wait ticks => cases ticks <;> rfl
  | _ => rfl

/-- A stream of DSE never goes back by itself. -/
theorem loopCount_tick (h : Playhead) : (h.tick .dse limit s).1.loopCount = h.loopCount :=
  keep_tick (f := loopCount) (fun _ _ _ _ _ _ _ => rfl) loopCount_execute h

end Chiptune.Playhead
