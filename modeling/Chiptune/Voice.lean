import Chiptune.Envelope
import Chiptune.Generator

/-!
# Voices

A voice is one sounding note: a generator under an envelope, placed between left and right. What a
voice adds to the present frame is `Voice.output`; `Voice.advance` moves it on by one frame. Muting
changes the first and not the second, so a voice that is unmuted goes on where it would have been.
-/

namespace Chiptune

structure Voice where
  generator : Generator
  envelope : Envelope
  psgChannel : Option PsgChannel := none
  /-- The track that plays the voice. -/
  track : Nat
  /-- The key that the track played; a note is ended by it. -/
  key : Nat
  /-- The key that sets the pitch. -/
  soundingKey : Nat
  /-- 0 to 127. -/
  velocity : Nat
  /-- A place between left and right that overrides the track's. -/
  fixedPan : Option Int := none
  /-- The level on the left, 0 to 127. -/
  left : Nat := 0
  /-- The level on the right, 0 to 127. -/
  right : Nat := 0
  /-- The generator still has something to play. -/
  playing : Bool := true
  muted : Bool := false
  deriving DecidableEq, Inhabited

namespace Voice

/-- A voice for `instrument`, still without pitch and level. `rate` is that of the instrument's
recording, if it has one. -/
def start (instrument : Instrument) (rate track key soundingKey velocity : Nat)
    (envelope : Envelope) : Voice where
  generator := .ofInstrument instrument rate
  envelope
  psgChannel := instrument.psgChannel
  track
  key
  soundingKey
  velocity := min velocity 127
  fixedPan := instrument.pan

def retune (v : Voice) (bend : Int) (range sampleRate : Nat) : Voice :=
  { v with generator := v.generator.retune v.soundingKey bend range sampleRate }

/-- How far to the right a place is, from 0 to 127. -/
def rightShare (pan : Int) : Nat := (max (-64) (min pan 63) + 64).toNat

/-- Take on the level of a volume (0 to 127, expression included) and a place. -/
def setMix (v : Voice) (volume : Nat) (pan : Int) : Voice :=
  let level := min volume 127 * v.velocity / 127
  let share := rightShare (v.fixedPan.getD pan)
  { v with left := (128 - share) * level / 128, right := share * level / 128 }

def setMuted (v : Voice) (muted : Bool) : Voice := { v with muted }

def release (v : Voice) : Voice := { v with envelope := v.envelope.release }

def stepEnvelope (v : Voice) : Voice := { v with envelope := v.envelope.step }

/-- One side of the output: the raw level under the side's level and the envelope. Each fraction
is cut off downwards. -/
def scale (level : Int) (side gain : Nat) : Int := level * side / 128 * gain / 32768

/-- What the voice adds to the present frame, left and right. -/
def output (bank : Bank) (v : Voice) : Int × Int :=
  if v.playing && !v.muted then
    match v.generator.level? bank with
    | some level => (scale level v.left v.envelope.gain, scale level v.right v.envelope.gain)
    | none => (0, 0)
  else (0, 0)

/-- Move on by one frame. The voice stops playing when its generator has nothing left. -/
def advance (bank : Bank) (v : Voice) : Voice :=
  if v.playing then
    let generator := v.generator.advance bank
    { v with generator, playing := decide (¬ generator.IsSpent bank) }
  else v

/-- The voice can work out its place, if it plays. -/
def PlaceFits (bank : Bank) (v : Voice) : Prop := v.playing = true → v.generator.PlaceFits bank

instance (bank : Bank) (v : Voice) : Decidable (v.PlaceFits bank) :=
  inferInstanceAs (Decidable (_ → _))

/-- The voice can be reclaimed: its envelope is done or its generator has run out. -/
def IsFinished (v : Voice) : Prop := v.playing = false ∨ v.envelope.IsDone

instance (v : Voice) : Decidable v.IsFinished := inferInstanceAs (Decidable (_ ∨ _))

/-- Muting has no part in how a voice moves on. -/
theorem advance_setMuted (bank : Bank) (v : Voice) (muted : Bool) :
    (v.setMuted muted).advance bank = (v.advance bank).setMuted muted := by
  unfold advance setMuted
  by_cases h : v.playing <;> simp [h]

end Voice
end Chiptune
