/-!
# Frames

A frame is one moment of stereo sound with 16 bits a side. Sums of voices do not fit a frame; they
are cut off at the greatest and least level, never wrapped around.
-/

namespace Chiptune

structure Frame where
  left : Int16 := 0
  right : Int16 := 0
  deriving DecidableEq, Repr, Inhabited

namespace Frame

/-- The 16-bit level nearest to `x`. -/
def nearest (x : Int) : Int16 := Int16.ofInt (max (-32768) (min x 32767))

theorem toInt_nearest (x : Int) : (nearest x).toInt = max (-32768) (min x 32767) := by
  unfold nearest
  rw [Int16.toInt_ofInt]
  exact Int.bmod_eq_of_le (by simp only [Int16.size]; omega) (by simp only [Int16.size]; omega)

def silence : Frame := ⟨0, 0⟩

/-- The same level on both sides. -/
def mono (level : Int16) : Frame := ⟨level, level⟩

/-- The frame nearest to a pair of sums. -/
def saturating (left right : Int) : Frame := ⟨nearest left, nearest right⟩

/-- Two frames sounding together. -/
def mix (a b : Frame) : Frame :=
  saturating (a.left.toInt + b.left.toInt) (a.right.toInt + b.right.toInt)

/-- A frame without any sound. -/
def IsSilent (f : Frame) : Prop := f.left = 0 ∧ f.right = 0

instance (f : Frame) : Decidable f.IsSilent := inferInstanceAs (Decidable (_ ∧ _))

end Frame

/-- Frames as one row of levels, left before right. A row of odd length ends in silence. -/
def interleave (length : Nat) (frames : Array Frame) : Array Int16 :=
  let pairs := frames.foldl (fun row f => (row.push f.left).push f.right) #[]
  if length % 2 = 1 then pairs.push 0 else pairs

end Chiptune
