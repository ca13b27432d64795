import Chiptune.Envelope.Curve
import Chiptune.Instrument
import Chiptune.SoundDriver

/-!
# Envelopes

An envelope takes a note from silence to full level (attack), down to where it is held (decay,
sustain), and to silence again once the note is released. It advances in steps at a rate of the
driver's own, far slower than the output rate.

There are two models, told apart by what their levels mean. The gain is not part of the state: it
is a function of phase and level (`Envelope.gain`), so a release, which moves neither, leaves the
gain as it is until the next step.
-/

namespace Chiptune

/-- The phases in the order in which an envelope passes through them. -/
inductive EnvelopePhase
  | attack
  | decay
  | sustain
  | release
  /-- Silent; the voice can be reclaimed. -/
  | done
  deriving DecidableEq, Repr, Inhabited

structure Envelope where
  model : EnvelopeModel
  adsr : Adsr
  phase : EnvelopePhase
  level : Int
  deriving DecidableEq, Repr, Inhabited

namespace Envelope

/-- The greatest level of the linear model. -/
def linearMax : Int := 255

/-- The level at which an attack begins. -/
def silentLevel : EnvelopeModel → Int
  | .linear => 0
  | .attenuation => floorLevel

/-- The level at which an attack ends. -/
def fullLevel : EnvelopeModel → Int
  | .linear => linearMax
  | .attenuation => 0

/-- The level that is held until the release. -/
def sustainLevel : EnvelopeModel → Adsr → Int
  | .linear, adsr => adsr.sustain.toNat
  | .attenuation, adsr => sustainAttenuation adsr.sustain

/-- The level one attack step above `level`. -/
def attackLevel : EnvelopeModel → Adsr → Int → Int
  | .linear, adsr, level => min (level + adsr.attack.toNat) linearMax
  | .attenuation, adsr, level => -(-level * attackFactor adsr.attack / 256)

/-- The level one step below `level` at a decay or release rate. -/
def fallLevel : EnvelopeModel → (rate : UInt8) → Int → Int
  | .linear, rate, level => level * rate.toNat / 256
  | .attenuation, rate, level => level - fallRate rate

/-- One step of the attack: at full level it is over, and so is the decay if the sustain level is
no lower. -/
def stepAttack (e : Envelope) : Envelope :=
  let level := attackLevel e.model e.adsr e.level
  let full := fullLevel e.model
  if level < full then { e with level := level }
  else if full ≤ sustainLevel e.model e.adsr then { e with level := full, phase := .sustain }
  else { e with level := full, phase := .decay }

/-- One step of the decay: it stops at the sustain level. -/
def stepDecay (e : Envelope) : Envelope :=
  let level := fallLevel e.model e.adsr.decay e.level
  let held := sustainLevel e.model e.adsr
  if level ≤ held then { e with level := held, phase := .sustain } else { e with level := level }

/-- One step of the release: it stops in silence. -/
def stepRelease (e : Envelope) : Envelope :=
  let level := fallLevel e.model e.adsr.release e.level
  let silent := silentLevel e.model
  if level ≤ silent then { e with level := silent, phase := .done } else { e with level := level }

def step (e : Envelope) : Envelope :=
  match e.phase with
  | .attack => e.stepAttack
  | .decay => e.stepDecay
  | .sustain => e
  | .release => e.stepRelease
  | .done => e

def steps (e : Envelope) (n : Nat) : Envelope := Nat.repeat step n e

/-- A new envelope. Its first step is taken at once, so that an instant attack is heard from the
first frame on. -/
def start (model : EnvelopeModel) (adsr : Adsr) : Envelope :=
  step ⟨model, adsr, .attack, silentLevel model⟩

/-- The release has begun, and perhaps ended. -/
def IsReleased (e : Envelope) : Prop := e.phase = .release ∨ e.phase = .done

instance (e : Envelope) : Decidable e.IsReleased := inferInstanceAs (Decidable (_ ∨ _))

/-- The envelope has fallen silent for good. -/
def IsDone (e : Envelope) : Prop := e.phase = .done

instance (e : Envelope) : Decidable e.IsDone := inferInstanceAs (Decidable (_ = _))

/-- Begin the release from wherever the envelope is. A linear release of rate zero is over at
once. -/
def release (e : Envelope) : Envelope :=
  if e.IsReleased then e
  else if e.model = .linear ∧ e.adsr.release = 0 then { e with phase := .done, level := 0 }
  else { e with phase := .release }

def linearGain (level : Int) : Nat := (max 0 (min level linearMax)).toNat * fullGain / 255

/-- How loud the voice is, with 15 fraction bits. -/
def gain (e : Envelope) : Nat :=
  match e.phase, e.model with
  | .done, _ => 0
  | _, .linear => linearGain e.level
  | _, .attenuation => attenuationGain e.level

@[simp] theorem gain_of_done {e : Envelope} (h : e.phase = .done) : e.gain = 0 := by
  simp [gain, h]

@[simp] theorem step_of_done {e : Envelope} (h : e.phase = .done) : e.step = e := by
  simp [step, h]

end Envelope
end Chiptune
