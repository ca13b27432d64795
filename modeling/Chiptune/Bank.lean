import Chiptune.Instrument
import Chiptune.Sample

/-!
# Instrument banks

A bank holds the programs that a song plays and the samples that they play with. A sample is
named by its place, which never changes once it has been added.
-/

namespace Chiptune

structure Bank where
  samples : Array Sample := #[]
  /-- The program of each number, as far as numbers are used. -/
  programs : Array (Option Program) := #[]
  deriving Inhabited

namespace Bank

def sample? (b : Bank) (i : Nat) : Option Sample := b.samples[i]?

def program? (b : Bank) (id : Nat) : Option Program := b.programs[id]?.join

/-- Add a sample behind the others; its place is the number of samples before. -/
def addSample (b : Bank) (s : Sample) : Bank := { b with samples := b.samples.push s }

/-- Put a program at a number, in place of whatever was there. -/
def setProgram (b : Bank) (id : Nat) (p : Program) : Bank :=
  let room := b.programs ++ Array.replicate (id + 1 - b.programs.size) none
  { b with programs := room.setIfInBounds id (some p) }

/-- A program that was put at a number is found there, and all other numbers are as before. -/
theorem program?_setProgram (b : Bank) (id j : Nat) (p : Program) :
    (b.setProgram id p).program? j = if j = id then some p else b.program? j := by
  unfold setProgram program?
  by_cases h : id = j
  · subst h
    simp only [Array.getElem?_setIfInBounds, Array.size_append, Array.size_replicate]
    rw [if_pos trivial, if_pos (by omega)]
    simp
  · rw [if_neg (Ne.symm h)]
    simp only [Array.getElem?_setIfInBounds, if_neg h, Array.getElem?_append]
    split
    · rfl
    · next hj =>
      simp only [Array.getElem?_replicate]
      split <;> simp_all

def programCount (b : Bank) : Nat := b.programs.countP (·.isSome)

/-- The programs with their numbers, in ascending order. -/
def programList (b : Bank) : List (Nat × Program) :=
  b.programs.toList.zipIdx.filterMap fun (p, id) => p.map fun p => (id, p)

/-- The instrument that a program plays at `key`, and the key that then sounds. -/
def resolve (b : Bank) (program key : Nat) : Option (Instrument × Nat) := do
  let instrument ← (← b.program? program).instrumentFor key
  return (instrument, instrument.soundingKey key)

end Bank
end Chiptune
