import Chiptune.Playhead.Basic

/-!
# Ticks of a playhead

Time passes in ticks. In one tick a playhead first rests; when its rest is over, it runs commands
until one of them makes it rest again, or until the stream is over. A stream that would go on for
ever without resting is stopped at a limit of commands.

`Playhead.step` runs one command, `Playhead.run` a whole tick's worth of them, and `Playhead.tick`
is the tick. A playhead takes nothing from outside but its stream, the driver and the limit.
-/

namespace Chiptune.Playhead

/-- Run the command under the cursor. A cursor behind the last byte ends the stream. -/
def step (driver : SoundDriver) (s : EventStream) (h : Playhead) : Playhead × List Effect :=
  if s.bytes.size ≤ h.cursor then (h.finish, [.ended])
  else
    match s.decode driver h.cursor h.status with
    | (status, .error e) => { h with status }.fail e
    | (status, .ok d) =>
      { h with status, cursor := h.cursor + d.length }.execute driver h.cursor d.command

/-- The playhead has nothing more to do in this tick. -/
def IsAtRest (h : Playhead) : Prop := h.IsFinished ∨ 0 < h.rest

instance (h : Playhead) : Decidable h.IsAtRest := inferInstanceAs (Decidable (_ ∨ _))

/-- Too many commands in one tick: an error, unless the stream is over anyway. -/
def exhaust (limit : Nat) (s : EventStream) (h : Playhead) : Playhead × List Effect :=
  if s.bytes.size ≤ h.cursor then (h.finish, [.ended]) else h.fail (.commandLimit limit h.cursor)

/-- Run commands until the playhead is at rest, at most `budget` more of the `limit`. What they ask
for is added to `effects`. -/
def run (driver : SoundDriver) (limit : Nat) (s : EventStream) :
    (budget : Nat) → Playhead → (effects : Array Effect) → Playhead × Array Effect
  | 0, h, effects => ((h.exhaust limit s).1, effects.appendList (h.exhaust limit s).2)
  | budget + 1, h, effects =>
    let (h, asked) := h.step driver s
    let effects := effects.appendList asked
    if h.IsAtRest then (h, effects) else run driver limit s budget h effects

def tick (driver : SoundDriver) (limit : Nat) (s : EventStream) (h : Playhead) :
    Playhead × Array Effect :=
  if h.IsFinished then (h, #[])
  else
    let h := if h.progress = .idle then { h with progress := .running } else h
    if 1 < h.rest then ({ h with rest := h.rest - 1 }, #[])
    else { h with rest := 0 }.run driver limit s limit #[]

/-- A stream that is over stays as it is. -/
@[simp] theorem tick_of_isFinished {driver : SoundDriver} {limit : Nat} {s : EventStream}
    {h : Playhead} (done : h.IsFinished) : h.tick driver limit s = (h, #[]) := by
  simp [tick, done]

/-- Go on from the loop point, if the stream has named one and did not fail. -/
def restart? (h : Playhead) : Option Playhead :=
  match h.loopPoint, h.error with
  | some point, none =>
    some { h with
      progress := .looping
      cursor := point
      rest := 0
      nestings := []
      reached := 0
      loopCount := h.loopCount + 1 }
  | _, _ => none

end Chiptune.Playhead
