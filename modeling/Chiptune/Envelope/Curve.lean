/-!
# Curves of the attenuation envelope

The newer driver keeps levels as attenuation: 0 is full level, each 128 units below it take a tenth
of a decibel away, and at the floor nothing is heard. This module holds the driver's tables and
the functions read from them: how fast an attack closes in on full level, how fast a decay or
release falls, which attenuation a sustain level stands for, and which gain an attenuation gives.
-/

namespace Chiptune.Envelope

/-- Full gain, with 15 fraction bits. -/
def fullGain : Nat := 0x8000

/-- The attenuation at which a voice is silent. -/
def floorLevel : Int := -92544

/-- Attenuation units in a tenth of a decibel. -/
def unitsPerStep : Nat := 128

/-- Tenths of a decibel from full level down to the floor. -/
def floorStep : Nat := 723

/-- The 256ths of the attenuation that an attack of 127 down to 109 keeps at each step. -/
def fastAttacks : Array Nat := #[
  0, 1, 5, 14, 26, 38, 51, 63, 73, 84, 92, 100, 109, 116, 123, 127, 132, 137, 143]

/-- The 256ths of the attenuation that an attack keeps at each step. -/
def attackFactor (attack : UInt8) : Nat :=
  let attack := min attack.toNat 127
  if attack < 109 then 255 - attack else fastAttacks.getD (127 - attack) 0

/-- The attenuation that a decay or release adds at each step. -/
def fallRate (rate : UInt8) : Nat :=
  let rate := min rate.toNat 127
  if rate = 127 then 0xFFFF
  else if rate = 126 then 0x3C00
  else if rate < 50 then 2 * rate + 1
  else 0x1E00 / (126 - rate)

/-- The attenuation of each sustain level, in tenths of a decibel. -/
def sustainSteps : Array Nat := #[
  723, 723, 721, 651, 601, 562, 530, 503, 480, 460, 442, 425, 410, 396, 383, 371,
  360, 349, 339, 330, 321, 313, 305, 297, 289, 282, 276, 269, 263, 257, 251, 245,
  239, 234, 229, 224, 219, 214, 210, 205, 201, 196, 192, 188, 184, 180, 176, 173,
  169, 165, 162, 158, 155, 152, 149, 145, 142, 139, 136, 133, 130, 127, 125, 122,
  119, 116, 114, 111, 109, 106, 103, 101, 99, 96, 94, 91, 89, 87, 85, 82,
  80, 78, 76, 74, 72, 70, 68, 66, 64, 62, 60, 58, 56, 54, 52, 50,
  49, 47, 45, 43, 42, 40, 38, 36, 35, 33, 31, 30, 28, 27, 25, 23,
  22, 20, 19, 17, 16, 14, 13, 11, 10, 8, 7, 6, 4, 3, 1, 0]

def sustainAttenuation (sustain : UInt8) : Int :=
  -(unitsPerStep * sustainSteps.getD (min sustain.toNat 127) 0 : Nat)

/-- What a tenth of a decibel leaves of a gain, with 32 fraction bits. -/
def stepRatio : Nat := 0xFD11D0CC

/-- Gains that each are a tenth of a decibel below the one before, with 15 fraction bits. The
running gain keeps 31 fraction bits. -/
def fallingGains : (count running : Nat) → List Nat
  | 0, _ => []
  | count + 1, running =>
    running / 0x10000 :: fallingGains count (running * stepRatio / 0x100000000)

/-- The gain of each tenth of a decibel, from full level down to the floor. -/
def gains : Array Nat := (fallingGains (floorStep + 1) 0x80000000).toArray

/-- The gain of an attenuation: that of the next whole tenth of a decibel below it. -/
def attenuationGain (level : Int) : Nat :=
  if level ≤ floorLevel then 0
  else if 0 ≤ level then fullGain
  else gains.getD (-(level / unitsPerStep)).toNat 0

end Chiptune.Envelope
