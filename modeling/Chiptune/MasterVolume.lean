import Chiptune.Frame
import Chiptune.VoicePool

/-!
# Master volume

The sum of all voices is scaled by one last volume, kept in 256ths, and cut off to a frame.
-/

namespace Chiptune

/-- A volume in 256ths, from silence to unity. -/
structure MasterVolume where
  level : Nat
  level_le : level ≤ 256 := by decide
  deriving DecidableEq, Repr

namespace MasterVolume

/-- The voices are heard as loud as they are. -/
def unity : MasterVolume := ⟨256, by decide⟩

instance : Inhabited MasterVolume := ⟨unity⟩

/-- The volume nearest to `x` from below, for `x` from 0 to 1. Beyond these it is silence or unity,
and what is not a number is silence. -/
def ofFloat (x : Float32) : MasterVolume :=
  let level := if x ≥ 1 then 256 else if x > 0 then (x * 256).toUInt32.toNat else 0
  ⟨min level 256, Nat.min_le_right _ _⟩

/-- Scale a pair of sums and cut it off to a frame. -/
def frame (v : MasterVolume) (sums : Int × Int) : Frame :=
  .saturating (sums.1 * v.level / 256) (sums.2 * v.level / 256)

end MasterVolume

/-- The present frame of all voices, and the voices moved on by it. -/
def VoicePool.render (bank : Bank) (volume : MasterVolume) (p : VoicePool) : Frame × VoicePool :=
  (volume.frame (p.output bank), p.advance bank)

end Chiptune
