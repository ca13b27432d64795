import Chiptune.Bank
import Chiptune.Pitch

/-!
# Generators

A generator makes the raw sound of one voice, one level at a time. A recording is walked through
by a `PcmCursor`; the tone generators run on an `Oscillator`, whose phase is a part of a cycle of
2^32 parts and wraps around by itself.

`Generator.level?` is the level at the present moment and `Generator.advance` moves on by one output
frame. The two are kept apart because a muted voice moves on without being heard.
-/

namespace Chiptune

/-- A place in a recording. -/
structure PcmCursor where
  /-- The recording's place in the bank. -/
  sample : Nat
  /-- Levels a second at the root key. -/
  rate : Nat
  rootKey : Nat
  /-- The place in the recording, with 16 fraction bits. -/
  position : Nat := 0
  /-- How far one output frame moves on, with 16 fraction bits. -/
  increment : Nat := 0
  deriving DecidableEq, Repr, Inhabited

namespace PcmCursor

/-- The whole part of a position. -/
def place (c : PcmCursor) : Nat := c.position / 65536

/-- Where a position past the end of a looped recording belongs: as far into the loop as it lies
past the loop's start. -/
def wrap (s : Sample) (position : Nat) : Nat :=
  if s.HasLoop ∧ s.size ≤ position / 65536 then
    let past := (position / 65536 - s.loopStart) % (s.size - s.loopStart)
    65536 * (s.loopStart + past) + position % 65536
  else position

/-- Move on by one output frame. -/
def advance (s : Sample) (c : PcmCursor) : PcmCursor :=
  { c with position := wrap s (c.position + c.increment) }

def IsPastEnd (s : Sample) (c : PcmCursor) : Prop := s.size ≤ c.place

instance (s : Sample) (c : PcmCursor) : Decidable (c.IsPastEnd s) :=
  inferInstanceAs (Decidable (_ ≤ _))

/-- A cursor that has moved on inside a looped recording is never past its end. -/
theorem not_isPastEnd_advance {s : Sample} (h : s.HasLoop) (c : PcmCursor) :
    ¬ (c.advance s).IsPastEnd s := by
  have := h.2
  simp only [IsPastEnd, place, advance, wrap]
  split
  · have := Nat.mod_lt ((c.position + c.increment) / 65536 - s.loopStart)
      (show 0 < s.size - s.loopStart by omega)
    omega
  · next outside => exact fun past => outside ⟨h, past⟩

end PcmCursor

/-- A running cycle: its phase, and how far one output frame moves it on. -/
structure Oscillator where
  phase : UInt32 := 0
  increment : UInt32 := 0
  deriving DecidableEq, Repr, Inhabited

namespace Oscillator

/-- Move on by one output frame. -/
def advance (o : Oscillator) : Oscillator := { o with phase := o.phase + o.increment }

/-- The parts of a cycle. -/
def cycle : Nat := 0x100000000

theorem phase_lt (o : Oscillator) : o.phase.toNat < cycle := o.phase.toNat_lt

def place (o : Oscillator) (size : Nat) : Nat := o.phase.toNat * size / cycle

theorem place_lt (o : Oscillator) {size : Nat} (h : 0 < size) : o.place size < size := by
  unfold place
  rw [Nat.div_lt_iff_lt_mul (by decide), Nat.mul_comm size]
  exact Nat.mul_lt_mul_of_pos_right o.phase_lt h

/-- The product that `place` divides fits the 64 bits that a player has for it. Only in a wave of
more than 2^32 levels it may not. -/
def PlaceFits (o : Oscillator) (size : Nat) : Prop :=
  o.phase.toNat * size < 0x10000000000000000

instance (o : Oscillator) (size : Nat) : Decidable (o.PlaceFits size) :=
  inferInstanceAs (Decidable (_ < _))

/-- The level of the square and noise generators. -/
def peak : Int := 0x3000

/-- High for the first part of the cycle, low for the rest. -/
def square (o : Oscillator) (duty : Duty) : Int :=
  if 8 * o.phase.toNat / cycle < duty.eighths then peak else -peak

end Oscillator

/-- The shift register that noise is made from. -/
structure NoiseRegister where
  mode : NoiseMode
  bits : UInt16
  deriving DecidableEq, Repr, Inhabited

namespace NoiseRegister

/-- A register with all its bits set. -/
def full : NoiseMode → NoiseRegister
  | .long => ⟨.long, 0x7FFF⟩
  | .short => ⟨.short, 0x7F⟩

/-- Shift by one bit. The bit that comes in at the top, and in the short mode also at bit 6, tells
the two lowest bits apart. -/
def clock (r : NoiseRegister) : NoiseRegister :=
  let bit : UInt16 := (r.bits ^^^ (r.bits >>> 1)) &&& 1
  let shifted : UInt16 := (r.bits >>> 1) ||| (bit <<< 14)
  match r.mode with
  | .long => { r with bits := shifted }
  | .short => { r with bits := (shifted &&& (0xFFBF : UInt16)) ||| (bit <<< (6 : UInt16)) }

/-- High while the lowest bit is clear. -/
def level (r : NoiseRegister) : Int :=
  if r.bits &&& (1 : UInt16) = 0 then Oscillator.peak else -Oscillator.peak

/-- Shifts in one cycle of the noise oscillator. -/
def clocksPerCycle : Nat := 8

/-- Move on by one output frame: eight times the oscillator's increment, and one shift for each
cycle that is thereby completed. -/
def advance (r : NoiseRegister) (o : Oscillator) : NoiseRegister × Oscillator :=
  let total := o.phase.toNat + o.increment.toNat * clocksPerCycle
  (Nat.repeat clock (total / Oscillator.cycle) r, { o with phase := UInt32.ofNat total })

end NoiseRegister

/-- What makes the raw sound of one voice. -/
inductive Generator
  | pcm (cursor : PcmCursor)
  | wave (sample : Nat) (oscillator : Oscillator)
  | square (duty : Duty) (oscillator : Oscillator)
  | noise (register : NoiseRegister) (oscillator : Oscillator)
  deriving DecidableEq, Repr, Inhabited

namespace Generator

/-- The generator of an instrument, at rest. `rate` is that of its recording, if it has one. -/
def ofInstrument (i : Instrument) (rate : Nat) : Generator :=
  match i.source with
  | .pcm sample => pcm { sample, rate, rootKey := i.rootKey }
  | .wave sample => wave sample {}
  | .square duty => square duty {}
  | .noise mode => noise (.full mode) {}

/-- Take on the pitch of a key under a bend. A recording is tuned against its root key, everything
else absolutely. -/
def retune (g : Generator) (key : Nat) (bend : Int) (range sampleRate : Nat) : Generator :=
  let increment := UInt32.ofNat (Pitch.phaseIncrement (Pitch.absolute key bend range) sampleRate)
  match g with
  | pcm c =>
    let pitch := Pitch.relative key c.rootKey 0 bend range
    pcm { c with increment := Pitch.sampleIncrement c.rate pitch sampleRate }
  | wave sample o => wave sample { o with increment := increment }
  | square duty o => square duty { o with increment := increment }
  | noise register o => noise register { o with increment := increment }

/-- The present level, or nothing if the generator's sample is missing. A wave without any levels
counts as missing. -/
def level? (bank : Bank) : Generator → Option Int
  | pcm c => (bank.sample? c.sample).map (·.level c.place)
  | wave sample o =>
    match bank.sample? sample with
    | some s => if s.size = 0 then none else some (s.level (o.place s.size))
    | none => none
  | square duty o => some (o.square duty)
  | noise register _ => some register.level

/-- Move on by one output frame; a generator without its sample stays where it is. -/
def advance (bank : Bank) : Generator → Generator
  | pcm c =>
    match bank.sample? c.sample with
    | some s => pcm (c.advance s)
    | none => pcm c
  | wave sample o =>
    match bank.sample? sample with
    | some s => wave sample (if s.size = 0 then o else o.advance)
    | none => wave sample o
  | square duty o => square duty o.advance
  | noise register o => noise (register.advance o).1 (register.advance o).2

/-- The generator has nothing more to play: its recording is over, or its sample is missing. -/
def IsSpent (bank : Bank) : Generator → Prop
  | pcm c =>
    match bank.sample? c.sample with
    | some s => c.IsPastEnd s
    | none => True
  | wave sample _ =>
    match bank.sample? sample with
    | some s => s.size = 0
    | none => True
  | square _ _ => False
  | noise _ _ => False

instance (bank : Bank) (g : Generator) : Decidable (g.IsSpent bank) := by
  unfold IsSpent
  split
  · split <;> infer_instance
  · split <;> infer_instance
  · infer_instance
  · infer_instance

/-- The generator can work out its place. -/
def PlaceFits (bank : Bank) : Generator → Prop
  | wave sample o =>
    match bank.sample? sample with
    | some s => o.PlaceFits s.size
    | none => True
  | _ => True

instance (bank : Bank) (g : Generator) : Decidable (g.PlaceFits bank) := by
  unfold PlaceFits
  split
  · split <;> infer_instance
  · infer_instance

/-- The place in the recording, with 16 fraction bits; tone generators have none. -/
def position : Generator → Nat
  | pcm c => c.position
  | _ => 0

/-- How far one output frame moves on in the recording; tone generators have none. -/
def increment : Generator → Nat
  | pcm c => c.increment
  | _ => 0

end Generator
end Chiptune
