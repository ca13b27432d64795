import Chiptune.Command
import Chiptune.Text

/-!
# Instruments and programs

An instrument says what makes its sound, how the sound rises and falls, and where it is placed.
A program gives an instrument for each key: one for all keys, one per region of keys, or one per
key of a drum kit.
-/

namespace Chiptune

/-- The four numbers of an envelope. -/
structure Adsr where
  attack : UInt8 := 255
  decay : UInt8 := 0
  sustain : UInt8 := 255
  release : UInt8 := 0
  deriving DecidableEq, Repr, Inhabited

/-- The same envelope with one number replaced. -/
def Adsr.set (a : Adsr) (param : EnvelopeParam) (value : UInt8) : Adsr :=
  match param with
  | .attack => { a with attack := value }
  | .decay => { a with decay := value }
  | .sustain => { a with sustain := value }
  | .release => { a with release := value }

/-- Envelope numbers that a track has set for its own notes. -/
structure AdsrOverride where
  attack : Option UInt8 := none
  decay : Option UInt8 := none
  sustain : Option UInt8 := none
  release : Option UInt8 := none
  deriving DecidableEq, Repr, Inhabited

namespace AdsrOverride

/-- Override one more number. -/
def set (o : AdsrOverride) (param : EnvelopeParam) (value : UInt8) : AdsrOverride :=
  match param with
  | .attack => { o with attack := some value }
  | .decay => { o with decay := some value }
  | .sustain => { o with sustain := some value }
  | .release => { o with release := some value }

/-- An instrument's envelope with the overridden numbers put in. -/
def apply (o : AdsrOverride) (a : Adsr) : Adsr where
  attack := o.attack.getD a.attack
  decay := o.decay.getD a.decay
  sustain := o.sustain.getD a.sustain
  release := o.release.getD a.release

@[simp] theorem apply_empty (a : Adsr) : apply {} a = a := rfl

/-- Overriding one more number replaces that number of the result. -/
theorem apply_set (o : AdsrOverride) (param : EnvelopeParam) (value : UInt8) (a : Adsr) :
    (o.set param value).apply a = (o.apply a).set param value := by
  cases param <;> rfl

end AdsrOverride

/-- How much of its cycle a square wave is high. -/
inductive Duty
  | eighth
  | quarter
  | half
  | threeQuarters
  deriving DecidableEq, Repr, Inhabited

namespace Duty

/-- The high part of the cycle, in eighths. -/
def eighths : Duty → Nat
  | eighth => 1
  | quarter => 2
  | half => 4
  | threeQuarters => 6

/-- The duty that the two low bits of a byte select. -/
def ofBits (bits : Nat) : Duty :=
  match bits % 4 with
  | 0 => eighth
  | 1 => quarter
  | 2 => half
  | _ => threeQuarters

end Duty

/-- The length of the noise generator's shift register: 15 bits or 7. -/
inductive NoiseMode
  | long
  | short
  deriving DecidableEq, Repr, Inhabited

/-- What makes an instrument's sound; samples are named by their place in the bank. -/
inductive SoundSource
  /-- A recording, played faster or slower for other keys. -/
  | pcm (sample : Nat)
  | wave (sample : Nat)
  | square (duty : Duty)
  | noise (mode : NoiseMode)
  deriving DecidableEq, Repr, Inhabited

/-- The console's own tone channels, each of which plays one voice. -/
inductive PsgChannel
  | square1
  | square2
  | wave
  | noise
  deriving DecidableEq, Repr, Inhabited

structure Instrument where
  name : String := ""
  source : SoundSource
  /-- The key at which a recording has its own rate. -/
  rootKey : Nat := 60
  /-- The key that sounds whatever key is played. -/
  fixedKey : Option Nat := none
  /-- A place between left and right that overrides the track's. -/
  pan : Option Int := none
  adsr : Adsr := {}
  psgChannel : Option PsgChannel := none
  deriving DecidableEq, Inhabited

namespace Instrument

/-- An instrument with an ordinary envelope, played at every key. -/
def named (name : String) (source : SoundSource) : Instrument :=
  { name := Text.label name, source := source }

/-- The same instrument, always sounding `key`. -/
def fixedAt (i : Instrument) (key : Nat) : Instrument := { i with fixedKey := some key }

def soundingKey (i : Instrument) (key : Nat) : Nat := i.fixedKey.getD key

end Instrument

/-- The instrument of the keys up to `highKey`. -/
structure KeyRegion where
  highKey : Nat
  instrument : Instrument
  deriving DecidableEq, Inhabited

inductive Program
  | single (instrument : Instrument)
  /-- The first region that reaches a key plays it. -/
  | keySplit (regions : List KeyRegion)
  /-- Each key has an instrument of its own, or none. -/
  | drumkit (keys : Array (Option Instrument))
  deriving Inhabited

def Program.instrumentFor : Program → (key : Nat) → Option Instrument
  | single instrument, _ => some instrument
  | keySplit regions, key => (regions.find? fun r => key ≤ r.highKey).map (·.instrument)
  | drumkit keys, key => keys[key]?.join

end Chiptune
