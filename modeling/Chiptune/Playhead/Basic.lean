import Chiptune.EventStream.Decode
import Chiptune.Instrument

/-!
# Playheads

A playhead is a place in one event stream together with all that the stream has said so far: how
long to rest, which calls and loops are open, and the controls that shape the notes to come. It
knows nothing of notes, voices or other streams. What a command means for them leaves the playhead
as an `Effect`, which carries the controls that it is to be carried out with.

So the way of a playhead through its stream depends on that stream alone. `Playhead.execute` says
what each command does to it.
-/

namespace Chiptune

/-- How far a stream has come. -/
inductive Progress
  | idle
  | running
  /-- Under way inside a call or loop, or after going round at least once. -/
  | looping
  | finished
  deriving DecidableEq, Repr, Inhabited

/-- What a stream has set for its notes. -/
structure Controls where
  program : Nat := 0
  volume : Nat := 100
  expression : Nat := 127
  pan : Int := 0
  bend : Int := 0
  bendRange : Nat
  transpose : Int := 0
  envelope : AdsrOverride := {}
  deriving DecidableEq, Repr, Inhabited

/-- Volume under expression, 0 to 127. -/
def Controls.level (c : Controls) : Nat := c.volume * c.expression / 127

/-- A call or loop that is open. Its passes count the present one; without a number it goes on for
ever. -/
inductive Nesting
  /-- A body somewhere else in the stream, left for `resume`. -/
  | call (resume target : Nat) (passes : Option Nat)
  /-- A body that starts right behind its opening command. -/
  | loop (target : Nat) (passes : Option Nat)
  deriving DecidableEq, Repr, Inhabited

def Nesting.isLoop : Nesting → Bool
  | call _ _ _ => false
  | loop _ _ => true

structure Playhead where
  progress : Progress := .idle
  /-- The offset of the next command. -/
  cursor : Nat
  /-- Ticks until the next command. -/
  rest : Nat := 0
  /-- The open calls and loops, innermost first. -/
  nestings : List Nesting := []
  /-- How often the pending `again` has been reached. -/
  reached : Nat := 0
  status : Status := {}
  controls : Controls
  /-- Jumps back and endless passes so far. -/
  loopCount : Nat := 0
  /-- Where to go on when the whole song has run out. -/
  loopPoint : Option Nat := none
  error : Option DecodeError := none
  deriving DecidableEq, Repr, Inhabited

/-- What a stream asks of its notes and of the song. -/
inductive Effect
  | noteOn (key velocity : Nat) (duration : Option Nat) (controls : Controls)
  | noteOff (key : Option Nat)
  /-- Level or place have changed. -/
  | mix (controls : Controls)
  /-- The bend has changed. -/
  | tune (controls : Controls)
  | tempo (bpm : Nat)
  /-- The stream is over: its notes end. -/
  | ended
  /-- The stream is over because of an error. -/
  | failed (error : DecodeError)
  deriving DecidableEq, Repr, Inhabited

namespace Playhead

/-- A playhead that has not started yet. -/
def atStart (driver : SoundDriver) (source : Nat) : Playhead where
  cursor := source
  controls := { bendRange := driver.profile.defaultBendRange }

/-- The stream is over. -/
def IsFinished (h : Playhead) : Prop := h.progress = .finished

instance (h : Playhead) : Decidable h.IsFinished := inferInstanceAs (Decidable (_ = _))

/-- The most calls and loops that any stream may have open. -/
def greatestDepth : Nat := 4

/-- The most calls and loops that a stream of this driver may have open. -/
def depth (driver : SoundDriver) : Nat := min driver.profile.nestingDepth greatestDepth

/-! ### The end of a stream -/

/-- The stream is over, with nothing left open. -/
def finish (h : Playhead) : Playhead := { h with progress := .finished, nestings := [] }

/-- The stream is over because of `error`. -/
def fail (h : Playhead) (error : DecodeError) : Playhead × List Effect :=
  ({ h.finish with error := some error }, [.failed error])

/-! ### Single commands -/

/-- Under way again after a command: going round if anything is open or was ever repeated. -/
def settle (h : Playhead) : Playhead :=
  { h with progress := if h.nestings = [] ∧ h.loopCount = 0 then .running else .looping }

def control (h : Playhead) (f : Controls → Controls) : Playhead :=
  { h with controls := f h.controls }

/-- Jump away from the command at `offset`; a jump back counts as a loop. -/
def jump (h : Playhead) (offset target : Nat) : Playhead :=
  { h with
    cursor := target
    loopCount := if target ≤ offset then h.loopCount + 1 else h.loopCount }

/-- Reach an `again` for one more time: go back while it has been reached fewer than `count`
times, then forget about it. -/
def again (h : Playhead) (target count : Nat) : Playhead :=
  if h.reached + 1 < count then { h with cursor := target, reached := h.reached + 1 }
  else { h with reached := 0 }

/-- End a pass of the innermost nesting, which starts at `target` and had `passes` to go. `leave`
is what follows the last pass. -/
def endPass (h : Playhead) (target : Nat) (passes : Option Nat) (again : Option Nat → Nesting)
    (leave : Playhead) (outer : List Nesting) : Playhead :=
  match passes with
  | some n =>
    if 1 < n then { h with cursor := target, nestings := again (some (n - 1)) :: outer } else leave
  | none =>
    { h with cursor := target, nestings := again none :: outer, loopCount := h.loopCount + 1 }

/-- Come back from the innermost call. Loops opened since are given up, also where no call is
open. -/
def endCall (h : Playhead) : Playhead :=
  match h.nestings.dropWhile Nesting.isLoop with
  | .call resume target passes :: outer =>
    h.endPass target passes (.call resume target) { h with cursor := resume, nestings := outer }
      outer
  | nestings => { h with nestings }

/-- End a pass of the innermost nesting if that is a loop. -/
def closeLoop (h : Playhead) : Playhead :=
  match h.nestings with
  | .loop target passes :: outer =>
    h.endPass target passes (.loop target) { h with nestings := outer } outer
  | _ => h

/-- Carry out a command that was found at `offset`, with the cursor already behind it. -/
def execute (driver : SoundDriver) (offset : Nat) (h : Playhead) :
    Command → Playhead × List Effect
  | .noteOn key velocity duration => (h.settle, [.noteOn key velocity duration h.controls])
  | .noteOff key => (h.settle, [.noteOff key])
  | .program id => ((h.control ({ · with program := id })).settle, [])
  | .volume level =>
    let h := h.control ({ · with volume := level })
    (h.settle, [.mix h.controls])
  | .expression level =>
    let h := h.control ({ · with expression := level })
    (h.settle, [.mix h.controls])
  | .pan place =>
    let h := h.control ({ · with pan := place })
    (h.settle, [.mix h.controls])
  | .bend amount =>
    let h := h.control ({ · with bend := amount })
    (h.settle, [.tune h.controls])
  | .bendRange semitones =>
    let h := h.control ({ · with bendRange := semitones })
    (h.settle, [.tune h.controls])
  | .transpose semitones => ((h.control ({ · with transpose := semitones })).settle, [])
  | .tempo bpm => (h.settle, [.tempo bpm])
  | .wait 0 => (h.settle, [])
  | .wait ticks => ({ h with rest := ticks }, [])
  | .jump target => ((h.jump offset target).settle, [])
  | .call target passes =>
    if h.nestings.length < depth driver then
      ({ h with cursor := target, nestings := .call h.cursor target passes :: h.nestings }.settle,
        [])
    else h.fail (.loopStackOverflow offset)
  | .endCall => (h.endCall.settle, [])
  | .again target count => ((h.again target count).settle, [])
  | .openLoop passes =>
    if h.nestings.length < depth driver then
      ({ h with nestings := .loop h.cursor passes :: h.nestings }.settle, [])
    else h.fail (.loopStackOverflow offset)
  | .closeLoop => (h.closeLoop.settle, [])
  | .loopPoint => ({ h with loopPoint := some h.cursor }.settle, [])
  | .envelope param value =>
    ((h.control fun c => { c with envelope := c.envelope.set param value }).settle, [])
  | .nop => (h.settle, [])
  | .finish => (h.finish, [.ended])

end Playhead
end Chiptune
