import Chiptune.Proofs.Playhead.Places
import Chiptune.Proofs.VoicePool.Following

/-!
# A playhead tells of its tone

Voices hear of a change of their track's controls only through effects. So a playhead must ask for
an effect whenever its tone changes, and give the tone that it has to every note that it starts.
`Tells` says so of a list of effects, from the tone before it to the tone after it, and
`Playhead.tells_tick` that the effects of a tick do.
-/

namespace Chiptune

/-- The tone that the voices have been told of after an effect. -/
def Effect.toneAfter (tone : Tone) : Effect → Tone
  | .mix c => { tone with level := c.level, pan := c.pan }
  | .tune c => { tone with bend := c.bend, bendRange := c.bendRange }
  | _ => tone

/-- A note is started in the tone that the other voices have. -/
def Effect.InTone (tone : Tone) : Effect → Prop
  | .noteOn _ _ _ c => c.tone = tone
  | _ => True

/-- The effects tell of every change from the first tone to the last. -/
def Tells : Tone → List Effect → Tone → Prop
  | tone, [], last => last = tone
  | tone, e :: effects, last => e.InTone tone ∧ Tells (e.toneAfter tone) effects last

variable {a b c : Tone} {effects : List Effect}

/-- What is told up to a tone, and from there on. -/
theorem Tells.append {later : List Effect} (h : Tells a effects b) (h' : Tells b later c) :
    Tells a (effects ++ later) c := by
  induction effects generalizing a with
  | nil =>
    cases h
    exact h'
  | cons e effects ih => exact ⟨h.1, ih h.2⟩

namespace Playhead

variable {driver : SoundDriver} {limit : Nat} {s : EventStream} {h : Playhead}

/-! ## One command

A command that changes one of the four numbers of the tone asks for the effect that tells of it. -/

theorem controls_endCall (h : Playhead) : h.endCall.controls = h.controls := by
  obtain ⟨_, _, _, same⟩ := exists_endCall_eq h
  rw [same]

theorem controls_closeLoop (h : Playhead) : h.closeLoop.controls = h.controls := by
  obtain ⟨_, _, _, same⟩ := exists_closeLoop_eq h
  rw [same]

theorem controls_again (h : Playhead) (target count : Nat) :
    (h.again target count).controls = h.controls := by
  obtain ⟨_, _, same⟩ := exists_again_eq h target count
  rw [same]

/-- A command tells of the change that it makes to the tone. -/
theorem tells_execute (driver : SoundDriver) (offset : Nat) (h : Playhead) (c : Command) :
    Tells h.controls.tone (h.execute driver offset c).2
      (h.execute driver offset c).1.controls.tone := by
  -- commands that change the tone tell of it, and the others leave it as it is
  cases c with
  | noteOn key velocity duration => exact ⟨rfl, rfl⟩
  | wait ticks => cases ticks <;> rfl
  | call target passes =>
    rw [execute]
    split
    · rfl
    · exact ⟨trivial, rfl⟩
  | openLoop passes =>
    rw [execute]
    split
    · rfl
    · exact ⟨trivial, rfl⟩
  | endCall => exact congrArg Controls.tone (controls_endCall h)
  | closeLoop => exact congrArg Controls.tone (controls_closeLoop h)
  | again target count => exact congrArg Controls.tone (controls_again h target count)
  | noteOff key => exact ⟨trivial, rfl⟩
  | volume level => exact ⟨trivial, rfl⟩
  | expression level => exact ⟨trivial, rfl⟩
  | pan place => exact ⟨trivial, rfl⟩
  | bend amount => exact ⟨trivial, rfl⟩
  | bendRange semitones => exact ⟨trivial, rfl⟩
  | tempo bpm => exact ⟨trivial, rfl⟩
  | finish => exact ⟨trivial, rfl⟩
  | _ => rfl

theorem tells_step (h : Playhead) :
    Tells h.controls.tone (h.step driver s).2 (h.step driver s).1.controls.tone := by
  unfold step
  split
  · exact ⟨trivial, rfl⟩
  · split
    · exact ⟨trivial, rfl⟩
    · next status d _ =>
      exact tells_execute driver h.cursor { h with status, cursor := h.cursor + d.length } d.command

theorem tells_exhaust (h : Playhead) :
    Tells h.controls.tone (h.exhaust limit s).2 (h.exhaust limit s).1.controls.tone := by
  unfold exhaust
  split
  · exact ⟨trivial, rfl⟩
  · exact ⟨trivial, rfl⟩

/-! ## A tick

The effects of all commands, one behind the other, tell of every tone on the way. -/

/-- A run tells of all changes since it began, and of those that were told before. -/
theorem tells_run (budget : Nat) (effects : Array Effect) (h : Playhead)
    (told : Tells a effects.toList h.controls.tone) :
    Tells a (run driver limit s budget h effects).2.toList
      (run driver limit s budget h effects).1.controls.tone := by
  -- on the commands that may still be run; what was told before goes on
  induction budget generalizing h effects with
  | zero =>
    simp only [run, Array.appendList_eq_append, Array.toList_appendList]
    exact told.append (tells_exhaust h)
  | succ budget ih =>
    have step : Tells a (effects.appendList (h.step driver s).2).toList
        (h.step driver s).1.controls.tone := by
      simp only [Array.appendList_eq_append, Array.toList_appendList]
      exact told.append (tells_step h)
    rw [run]
    dsimp only
    split
    · exact step
    · exact ih _ _ step

/-- The effects of a tick tell of everything that changes the tone. -/
theorem tells_tick (driver : SoundDriver) (limit : Nat) (s : EventStream) (h : Playhead) :
    Tells h.controls.tone (h.tick driver limit s).2.toList
      (h.tick driver limit s).1.controls.tone := by
  by_cases finished : h.IsFinished
  · rw [tick_of_isFinished finished]
    rfl
  · have started : h.started.controls = h.controls := by
      unfold Playhead.started
      split <;> rfl
    rw [tick_of_not_isFinished finished, ← started]
    split
    · rfl
    · exact tells_run limit #[] { h.started with rest := 0 } rfl

end Playhead
end Chiptune
