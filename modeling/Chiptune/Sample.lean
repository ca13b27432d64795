import Chiptune.Text

/-!
# Samples

A sample is recorded sound of 8 or 16 bits. Reading it always gives a 16-bit level, and a place
past its end is silent. A loop counts only if it starts inside the sample (`Sample.HasLoop`).
-/

namespace Chiptune

/-- Recorded levels of either width. Levels of 8 bits are bytes in two's complement. -/
inductive SampleData
  | pcm8 (levels : ByteArray)
  | pcm16 (levels : Array Int16)
  deriving Inhabited

namespace SampleData

/-- Rows of bytes are compared as the arrays that they are. -/
instance : DecidableEq SampleData
  | pcm8 a, pcm8 b =>
    decidable_of_iff (a.data = b.data)
      ⟨fun same => congrArg pcm8 (ByteArray.ext same), fun same => by rw [pcm8.inj same]⟩
  | pcm16 a, pcm16 b => decidable_of_iff (a = b) ⟨congrArg pcm16, pcm16.inj⟩
  | pcm8 _, pcm16 _ => isFalse nofun
  | pcm16 _, pcm8 _ => isFalse nofun

def size : SampleData → Nat
  | pcm8 levels => levels.size
  | pcm16 levels => levels.size

/-- The 16-bit level at a place, and silence past the end. -/
def level (data : SampleData) (i : Nat) : Int :=
  match data with
  | pcm8 levels => 256 * (levels[i]?.getD 0).toInt8.toInt
  | pcm16 levels => (levels.getD i 0).toInt

/-- A level fits 16 bits whatever the width it was recorded with. -/
theorem level_bounds (data : SampleData) (i : Nat) :
    -32768 ≤ data.level i ∧ data.level i ≤ 32767 := by
  cases data with
  | pcm8 levels =>
    have low := (levels[i]?.getD 0).toInt8.le_toInt
    have high := (levels[i]?.getD 0).toInt8.toInt_lt
    simp only [level]
    omega
  | pcm16 levels =>
    have low := (levels.getD i 0).le_toInt
    have high := (levels.getD i 0).toInt_lt
    simp only [level]
    omega

theorem level_eq_zero_of_size_le {data : SampleData} {i : Nat} (h : data.size ≤ i) :
    data.level i = 0 := by
  cases data with
  | pcm8 levels => simp [level, Nat.not_lt.mpr (show levels.size ≤ i from h)]
  | pcm16 levels => simp [level, Array.getD, Nat.not_lt.mpr (show levels.size ≤ i from h)]

end SampleData

/-- A recorded sound, played at `rate` levels a second for its root key. -/
structure Sample where
  name : String := ""
  data : SampleData := .pcm8 .empty
  looped : Bool := false
  loopStart : Nat := 0
  rate : Nat := 13379
  deriving DecidableEq, Inhabited

namespace Sample

/-- A sample without any sound. -/
def named (name : String) : Sample := { name := Text.label name }

def ofData (name : String) (data : SampleData) (rate : Nat) : Sample :=
  { named name with data := data, rate := rate }

/-- The same sample, going back to `start` at its end. -/
def withLoop (s : Sample) (start : Nat) : Sample := { s with looped := true, loopStart := start }

def size (s : Sample) : Nat := s.data.size

def level (s : Sample) (i : Nat) : Int := s.data.level i

/-- The sample goes on for ever: it is looped, and the loop starts inside it. -/
def HasLoop (s : Sample) : Prop := s.looped = true ∧ s.loopStart < s.size

instance (s : Sample) : Decidable s.HasLoop := inferInstanceAs (Decidable (_ ∧ _))

end Sample
end Chiptune
