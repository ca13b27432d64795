import Chiptune.Proofs.Checked.Decode
import Chiptune.Proofs.Checked.Inputs
import Chiptune.Proofs.Playhead.Range

/-!
# A playhead in words

A playhead counts the commands of a tick, how often a pending `again` was reached, the passes that
an open nesting has to go, and the ticks of its rest. These stay in their words, and a number is
only ever counted down where it is not zero yet. How often the stream has gone back is a counter of
its own, that nothing bounds.

`Playhead.gives_checkedTick` is the statement for a tick.
-/

namespace Chiptune.Playhead

open Checked

/-! ## Calculations

Jumps, repeats, calls and loops count passes, and the run of a tick counts its commands. Each is
written with the words that a player keeps them in. -/

def checkedJump (h : Playhead) (offset target : Nat) : Checked Playhead := do
  let loopCount ← if target ≤ offset then count .trackLoops (h.loopCount + 1) else pure h.loopCount
  return { h with cursor := target, loopCount }

def checkedAgain (h : Playhead) (target count : Nat) : Checked Playhead := do
  let reached ← word 8 (h.reached + 1)
  return if reached < count then { h with cursor := target, reached } else { h with reached := 0 }

def checkedEndPass (h : Playhead) (target : Nat) (passes : Option Nat)
    (again : Option Nat → Nesting) (left : Playhead) (outer : List Nesting) : Checked Playhead :=
  match passes with
  | some n =>
    if 1 < n then do
      let passes ← less n 1
      return { h with cursor := target, nestings := again (some passes) :: outer }
    else return left
  | none => do
    let loopCount ← count .trackLoops (h.loopCount + 1)
    return { h with cursor := target, nestings := again none :: outer, loopCount }

def checkedEndCall (h : Playhead) : Checked Playhead :=
  match h.nestings.dropWhile Nesting.isLoop with
  | .call resume target passes :: outer =>
    h.checkedEndPass target passes (.call resume target)
      { h with cursor := resume, nestings := outer } outer
  | nestings => return { h with nestings }

def checkedCloseLoop (h : Playhead) : Checked Playhead :=
  match h.nestings with
  | .loop target passes :: outer =>
    h.checkedEndPass target passes (.loop target) { h with nestings := outer } outer
  | _ => return h

/-- The other commands calculate nothing. -/
def checkedExecute (driver : SoundDriver) (offset : Nat) (h : Playhead) :
    Command → Checked (Playhead × List Effect)
  | .jump target => do return ((← h.checkedJump offset target).settle, [])
  | .call target passes => do
    let resume ← word 32 h.cursor
    if h.nestings.length < depth driver then
      return ({ h with cursor := target,
                       nestings := .call resume target passes :: h.nestings }.settle, [])
    else return h.fail (.loopStackOverflow offset)
  | .endCall => do return ((← h.checkedEndCall).settle, [])
  | .again target count => do return ((← h.checkedAgain target count).settle, [])
  | .openLoop passes => do
    let target ← word 32 h.cursor
    if h.nestings.length < depth driver then
      return ({ h with nestings := .loop target passes :: h.nestings }.settle, [])
    else return h.fail (.loopStackOverflow offset)
  | .closeLoop => do return ((← h.checkedCloseLoop).settle, [])
  | .loopPoint => do
    let place ← word 32 h.cursor
    return ({ h with loopPoint := some place }.settle, [])
  | c => return h.execute driver offset c

def checkedStep (driver : SoundDriver) (s : EventStream) (h : Playhead) :
    Checked (Playhead × List Effect) :=
  if s.bytes.size ≤ h.cursor then return (h.finish, [.ended])
  else do
    match ← s.checkedDecode driver h.cursor h.status with
    | (status, .error e) => return { h with status }.fail e
    | (status, .ok d) =>
      let cursor ← word 64 (h.cursor + d.length)
      { h with status, cursor }.checkedExecute driver h.cursor d.command

/-- `executed` commands have been run in this tick. -/
def checkedRun (driver : SoundDriver) (limit : Nat) (s : EventStream) :
    (budget executed : Nat) → Playhead → Array Effect → Checked (Playhead × Array Effect)
  | 0, executed, h, effects => do
    let _ ← word 32 (executed + 1)
    return ((h.exhaust limit s).1, effects.appendList (h.exhaust limit s).2)
  | budget + 1, executed, h, effects => do
    let executed ← word 32 (executed + 1)
    let (h, asked) ← h.checkedStep driver s
    let effects := effects.appendList asked
    if h.IsAtRest then return (h, effects)
    else checkedRun driver limit s budget executed h effects

/-- What is left of the rest after one more tick. -/
def checkedRest (h : Playhead) : Checked Nat := if 0 < h.rest then less h.rest 1 else return 0

def checkedTick (driver : SoundDriver) (limit : Nat) (s : EventStream) (h : Playhead) :
    Checked (Playhead × Array Effect) :=
  if h.IsFinished then return (h, #[])
  else do
    let rest ← h.checkedRest
    if 0 < rest then return ({ h.started with rest }, #[])
    else checkedRun driver limit s limit 0 { h.started with rest } #[]

def checkedRestart? (h : Playhead) : Checked (Option Playhead) :=
  match h.loopPoint, h.error with
  | some point, none => do
    let loopCount ← count .trackLoops (h.loopCount + 1)
    return some { h with
      progress := .looping
      cursor := point
      rest := 0
      nestings := []
      reached := 0
      loopCount }
  | _, _ => return none

/-! ## They do not trap

Whatever a command does, it counts at most that the stream has gone back, and takes down numbers
that are above zero. A tick is put together from its commands with the bounds of `Playhead.Range`,
which say that everything the playhead keeps is in range at each of them. -/

variable {driver : SoundDriver} {source : TrackSource} {limit : Nat} {h : Playhead}

/-- A jump back counts a loop, and a jump onwards counts nothing. -/
theorem gives_checkedJump (h : Playhead) (offset target : Nat) :
    Gives (h.checkedJump offset target) (h.jump offset target) := by
  unfold checkedJump jump
  split
  · exact (Gives.count _ _).bind (.ok _)
  · exact .ok _

/-- The count of a repeat stops short of a full byte, so one more fits. -/
theorem checkedAgain_eq (f : h.Fits driver source) (target count : Nat) :
    h.checkedAgain target count = .ok (h.again target count) := by
  have := f.reached_le
  unfold checkedAgain
  rw [word_eq (by omega)]
  rfl

/-- Passes are taken down by one while there is more than one, and loops without a number are
counted. -/
theorem gives_checkedEndPass (h : Playhead) (target : Nat) (passes : Option Nat)
    (again : Option Nat → Nesting) (left : Playhead) (outer : List Nesting) :
    Gives (h.checkedEndPass target passes again left outer)
      (h.endPass target passes again left outer) := by
  cases passes with
  | some n =>
    unfold checkedEndPass endPass
    dsimp only
    split
    · next more =>
      rw [less_eq (Nat.le_of_lt more)]
      exact .ok _
    · exact .ok _
  | none => exact (Gives.count _ _).bind (.ok _)

theorem gives_checkedEndCall (h : Playhead) : Gives h.checkedEndCall h.endCall := by
  unfold checkedEndCall endCall
  cases h.nestings.dropWhile Nesting.isLoop with
  | nil => exact .ok _
  | cons n outer =>
    cases n with
    | call resume target passes => exact gives_checkedEndPass ..
    | loop target passes => exact .ok _

theorem gives_checkedCloseLoop (h : Playhead) : Gives h.checkedCloseLoop h.closeLoop := by
  unfold checkedCloseLoop closeLoop
  cases h.nestings with
  | nil => exact .ok _
  | cons n outer =>
    cases n with
    | call resume target passes => exact .ok _
    | loop target passes => exact gives_checkedEndPass ..

/-- A place inside a stream fits 32 bits. -/
theorem gives_checkedExecute (f : h.Fits driver source) (small : h.cursor < 2 ^ 32) (offset : Nat)
    (c : Command) : Gives (h.checkedExecute driver offset c) (h.execute driver offset c) := by
  -- calls and loops remember the cursor as a word
  have place : word 32 h.cursor = .ok h.cursor := word_eq small
  cases c with
  | jump target => exact (gives_checkedJump h offset target).bind (.ok _)
  | call target passes =>
    rw [checkedExecute, execute, place, ok_bind]
    split
    · exact .ok _
    · exact .ok _
  | endCall => exact (gives_checkedEndCall h).bind (.ok _)
  | again target count => exact (Gives.of_eq (checkedAgain_eq f target count)).bind (.ok _)
  | openLoop passes =>
    rw [checkedExecute, execute, place, ok_bind]
    split
    · exact .ok _
    · exact .ok _
  | closeLoop => exact (gives_checkedCloseLoop h).bind (.ok _)
  | loopPoint =>
    rw [checkedExecute, place]
    exact .ok _
  | _ => exact .ok _

/-- A command is decoded in words and then executed in words. -/
theorem gives_checkedStep (hsource : source.Fits) (f : h.Fits driver source) :
    Gives (h.checkedStep driver source.stream) (h.step driver source.stream) := by
  have small := hsource.size_lt
  unfold checkedStep step
  split
  · exact .ok _
  · next before =>
    -- the cursor is not behind the end, so what is decoded there is in range
    have inside : h.cursor ≤ source.stream.bytes.size := by omega
    have decoded := EventStream.decode_fits driver f.status inside
    refine (EventStream.gives_checkedDecode small f.status inside).bind ?_
    cases hd : source.stream.decode driver h.cursor h.status with
    | mk status result =>
      obtain ⟨hstatus, hcommand⟩ := hd ▸ decoded
      cases result with
      | error e => exact .ok _
      | ok d =>
        obtain ⟨inside, -⟩ := hcommand d rfl
        have behind : { h with status, cursor := h.cursor + d.length }.Fits driver source :=
          { f.goTo inside with status := hstatus }
        dsimp only
        rw [word_eq (by omega), ok_bind]
        exact gives_checkedExecute behind (by dsimp only; omega) h.cursor d.command

/-- A run counts its commands, and the limit leaves room for that count. -/
theorem gives_checkedRun (hsource : source.Fits) (hlimit : limit < 2 ^ 32 - 1)
    (f : h.Fits driver source) (budget executed : Nat) (hbudget : executed + budget = limit)
    (effects : Array Effect) :
    Gives (checkedRun driver limit source.stream budget executed h effects)
      (run driver limit source.stream budget h effects) := by
  have counted : word 32 (executed + 1) = .ok (executed + 1) := word_eq (by omega)
  -- on the commands that may still be run in this tick
  induction budget generalizing executed h effects with
  | zero =>
    rw [checkedRun, counted]
    exact .ok _
  | succ budget ih =>
    rw [checkedRun, counted, ok_bind, run]
    refine (gives_checkedStep hsource f).bind ?_
    dsimp only
    split
    · exact .ok _
    · exact ih f.step.1 _ (by omega) _ (word_eq (by omega))

/-- A rest is only taken down if there is one. -/
theorem checkedRest_eq (h : Playhead) : h.checkedRest = .ok (h.rest - 1) := by
  unfold checkedRest
  split
  · next waiting => exact less_eq waiting
  · next idle =>
    rw [Nat.eq_zero_of_not_pos idle]
    rfl

/-- In words, a tick of a playhead comes out as it does in plain numbers. -/
theorem gives_checkedTick (hsource : source.Fits) (hlimit : limit < 2 ^ 32 - 1)
    (f : h.Fits driver source) :
    Gives (h.checkedTick driver limit source.stream) (h.tick driver limit source.stream) := by
  unfold checkedTick
  by_cases done : h.IsFinished
  · rw [tick_of_isFinished done, if_pos done]
    exact .ok _
  rw [tick_of_not_isFinished done, if_neg done]
  have same : h.started.rest = h.rest := by
    unfold started
    split <;> rfl
  -- in words one tick is taken off first, and the playhead rests on if another one is left
  rw [checkedRest_eq, ok_bind, same]
  by_cases more : 1 < h.rest
  · rw [if_pos more, if_pos (by omega)]
    exact .ok _
  · have ended : h.rest - 1 = 0 := by omega
    rw [if_neg more, if_neg (by omega), ended]
    have waiting : { h.started with rest := 0 }.Fits driver source := { f.started with }
    exact gives_checkedRun hsource hlimit waiting limit 0 (Nat.zero_add _) #[]

/-- Going on from a loop point counts one loop. -/
theorem gives_checkedRestart? (h : Playhead) : Gives h.checkedRestart? h.restart? := by
  unfold checkedRestart? restart?
  cases h.loopPoint with
  | none => exact .ok _
  | some point =>
    cases h.error with
    | none => exact (Gives.count _ _).bind (.ok _)
    | some error => exact .ok _

end Chiptune.Playhead
