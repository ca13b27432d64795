import Chiptune.Pitch
import Chiptune.Proofs.Checked.Basic

/-!
# Pitch in words

A bend of 14 bits under a range of 8 bits stays within 32 bits, in 256ths of a semitone, and a ratio
takes no more than 28 bits however far a key is from its root (`Pitch.ratio_lt`).
-/

namespace Chiptune.Pitch

open Checked

/-! ## Calculations

Offsets are made with signs in 32 bits, ratios and increments without signs in 64. -/

def checkedRatio (pitch : Int) : Checked Nat := do
  let units := (pitch % unitsPerOctave).toNat
  let low ← entry semitoneRatios (units / unitsPerSemitone)
  let high ← entry semitoneRatios (units / unitsPerSemitone + 1)
  let share ← word 32 ((← less high low) * (units % unitsPerSemitone))
  let within ← word 32 (low + share / unitsPerSemitone)
  let octave := octave pitch
  if 0 ≤ octave then word 32 (within <<< (← shift 32 octave.toNat))
  else return within >>> (← shift 32 (-octave).toNat)

def checkedBendOffset (bend : Int) (range : Nat) : Checked Int := do
  let scaled ← signed 32 (bend * range)
  return (← signed 32 (scaled * unitsPerSemitone)).tdiv 8192

def checkedRelative (key rootKey : Nat) (transpose bend : Int) (range : Nat) : Checked Int := do
  let moved ← signed 32 (key + transpose)
  let semitones ← signed 32 (moved - rootKey)
  let units ← signed 32 (semitones * unitsPerSemitone)
  signed 32 (units + (← checkedBendOffset bend range))

def checkedAbsolute (key : Nat) (bend : Int) (range : Nat) : Checked Int := do
  let units ← signed 32 (key * unitsPerSemitone)
  signed 32 (units + (← checkedBendOffset bend range))

def checkedSampleIncrement (rate : Nat) (pitch : Int) (sampleRate : Nat) : Checked Nat :=
  if sampleRate = 0 then return 0
  else do
    let scaled ← word 64 (rate * (← checkedRatio pitch))
    return min (← quotient scaled sampleRate) greatestIncrement

def checkedPhaseIncrement (pitch : Int) (sampleRate : Nat) : Checked Nat :=
  if sampleRate = 0 then return 0
  else do
    let offset ← signed 32 (pitch - concertKey * unitsPerSemitone)
    let frequency ← word 64 (concertFrequency * (← checkedRatio offset))
    let cycles ← word 64 (frequency * 65536)
    return min (← quotient cycles sampleRate) greatestIncrement

/-! ## Their results

The bounds come from the inside out: the table of semitones, the ratio within an octave, the shift
by whole octaves. A key and a bend then only have to be small, and an increment has room above its
ratio for any rate. -/

/-- The ratios of the semitones grow, and reach no more than the octave, which is twice unity. -/
theorem semitoneRatios_grow {i : Nat} (h : i < 12) :
    semitoneRatios.getD i 0 ≤ semitoneRatios.getD (i + 1) 0 ∧
      semitoneRatios.getD (i + 1) 0 ≤ 131072 := by
  revert i
  decide

theorem units_lt (pitch : Int) : (pitch % unitsPerOctave).toNat < 12 * unitsPerSemitone := by
  have := Int.emod_lt_of_pos pitch (show (0 : Int) < unitsPerOctave by decide)
  have := Int.emod_nonneg pitch (show (unitsPerOctave : Int) ≠ 0 by decide)
  unfold unitsPerOctave at *
  omega

/-- Octaves are clamped, so that nothing is shifted too far. -/
theorem octave_bounds (pitch : Int) : -16 ≤ octave pitch ∧ octave pitch ≤ 10 := by
  unfold octave
  omega

/-- Within an octave the ratio goes from 1 to 2. -/
theorem ratioWithinOctave_le {units : Nat} (h : units < 12 * unitsPerSemitone) :
    ratioWithinOctave units ≤ 131072 := by
  obtain ⟨grows, top⟩ := semitoneRatios_grow (Nat.div_lt_of_lt_mul (Nat.mul_comm 12 _ ▸ h))
  unfold ratioWithinOctave unitsPerSemitone at *
  dsimp only
  generalize semitoneRatios.getD (units / 256) 0 = low at *
  generalize semitoneRatios.getD (units / 256 + 1) 0 = high at *
  have share : (high - low) * (units % 256) ≤ (high - low) * 256 :=
    Nat.mul_le_mul_left _ (Nat.le_of_lt (Nat.mod_lt _ (by decide)))
  omega

theorem shiftLeft_ratio_lt {pitch : Int} {k : Nat} (h : k ≤ 10) :
    ratioWithinOctave (pitch % unitsPerOctave).toNat <<< k < 2 ^ 28 := by
  rw [Nat.shiftLeft_eq]
  have base := ratioWithinOctave_le (units_lt pitch)
  have : 2 ^ k ≤ 2 ^ 10 := Nat.pow_le_pow_right (by decide) h
  calc _ ≤ 131072 * 2 ^ 10 := Nat.mul_le_mul base this
    _ < 2 ^ 28 := by decide

/-- A ratio takes up at most 28 bits, because octaves are clamped. -/
theorem ratio_lt (pitch : Int) : ratio pitch < 2 ^ 28 := by
  obtain ⟨-, high⟩ := octave_bounds pitch
  unfold ratio
  dsimp only
  split
  · exact shiftLeft_ratio_lt (by omega)
  · have := ratioWithinOctave_le (units_lt pitch)
    have := Nat.shiftRight_le (ratioWithinOctave (pitch % unitsPerOctave).toNat)
      (-octave pitch).toNat
    omega

/-- Every pitch has its ratio in words, however far out it is. -/
theorem checkedRatio_eq (pitch : Int) : checkedRatio pitch = .ok (ratio pitch) := by
  have hunits := units_lt pitch
  obtain ⟨low, high⟩ := octave_bounds pitch
  have hsemitone : (pitch % unitsPerOctave).toNat / unitsPerSemitone < 12 :=
    Nat.div_lt_of_lt_mul (Nat.mul_comm 12 _ ▸ hunits)
  obtain ⟨grows, top⟩ := semitoneRatios_grow hsemitone
  have hwithin := ratioWithinOctave_le hunits
  have hshift := @shiftLeft_ratio_lt pitch (octave pitch).toNat (by omega)
  unfold ratioWithinOctave at hwithin hshift
  unfold checkedRatio ratio ratioWithinOctave
  dsimp only at hwithin hshift ⊢
  have hsize : semitoneRatios.size = 13 := rfl
  rw [entry_eq_getD (by omega) 0, ok_bind, entry_eq_getD (by omega) 0, ok_bind, less_eq grows,
    ok_bind, word_eq, ok_bind, word_eq (by omega), ok_bind]
  · split
    · rw [shift_eq (by omega), ok_bind, word_eq (by omega)]
    · rw [shift_eq (by omega), ok_bind, pure_eq]
  · calc _ ≤ 131072 * 256 := Nat.mul_le_mul (by omega) (Nat.le_of_lt (Nat.mod_lt _ (by decide)))
      _ < 2 ^ 32 := by decide

/-- A bend of 14 bits and a range of 8 bits. -/
structure BendFits (bend : Int) (range : Nat) : Prop where
  low : -8192 ≤ bend
  high : bend ≤ 8191
  range_lt : range < 256

section Bend

variable {bend : Int} {range : Nat}

/-- A bend of 14 bits by a range of one byte. -/
theorem bend_mul_bounds (h : BendFits bend range) :
    -8192 * 255 ≤ bend * range ∧ bend * range ≤ 8192 * 255 := by
  have := h.range_lt
  have low := Int.mul_le_mul_of_nonneg_right h.low (Int.natCast_nonneg range)
  have high := Int.mul_le_mul_of_nonneg_right h.high (Int.natCast_nonneg range)
  omega

/-- A full bend reaches as far as its range. -/
theorem bendOffset_bounds (h : BendFits bend range) :
    -65280 ≤ bendOffset bend range ∧ bendOffset bend range ≤ 65280 := by
  obtain ⟨low, high⟩ := bend_mul_bounds h
  have size : (bendOffset bend range).natAbs = (bend * range * 256).natAbs / 8192 :=
    Int.natAbs_tdiv _ _
  omega

theorem checkedBendOffset_eq (h : BendFits bend range) :
    checkedBendOffset bend range = .ok (bendOffset bend range) := by
  obtain ⟨low, high⟩ := bend_mul_bounds h
  unfold checkedBendOffset bendOffset unitsPerSemitone
  rw [signed_eq (by omega) (by omega), ok_bind, signed_eq (by omega) (by omega), ok_bind, pure_eq]

/-- Keys are bytes and bends have 14 bits, so that the distance of two keys fits its word. -/
theorem checkedRelative_eq {key rootKey : Nat} (hkey : key < 256) (hroot : rootKey < 256)
    (h : BendFits bend range) :
    checkedRelative key rootKey 0 bend range = .ok (relative key rootKey 0 bend range) := by
  obtain ⟨low, high⟩ := bendOffset_bounds h
  unfold checkedRelative relative unitsPerSemitone
  rw [signed_eq (by omega) (by omega), ok_bind, signed_eq (by omega) (by omega), ok_bind,
    signed_eq (by omega) (by omega), ok_bind, checkedBendOffset_eq h, ok_bind,
    signed_eq (by omega) (by omega)]

theorem absolute_bounds {key : Nat} (hkey : key < 256) (h : BendFits bend range) :
    -65280 ≤ absolute key bend range ∧ absolute key bend range ≤ 130560 := by
  obtain ⟨low, high⟩ := bendOffset_bounds h
  unfold absolute unitsPerSemitone
  omega

/-- The pitch of a tone channel fits its word, for every key and bend. -/
theorem checkedAbsolute_eq {key : Nat} (hkey : key < 256) (h : BendFits bend range) :
    checkedAbsolute key bend range = .ok (absolute key bend range) := by
  obtain ⟨low, high⟩ := absolute_bounds hkey h
  unfold absolute unitsPerSemitone at low high
  unfold checkedAbsolute absolute unitsPerSemitone
  rw [signed_eq (by omega) (by omega), ok_bind, checkedBendOffset_eq h, ok_bind,
    signed_eq (by omega) (by omega)]

end Bend

/-- The increment of a recording: a rate of 32 bits times a ratio of 28 bits fits 64 bits. -/
theorem checkedSampleIncrement_eq {rate : Nat} (hrate : rate < 2 ^ 32) (pitch : Int)
    (sampleRate : Nat) :
    checkedSampleIncrement rate pitch sampleRate = .ok (sampleIncrement rate pitch sampleRate) := by
  have product : rate * ratio pitch < 2 ^ 64 :=
    calc _ ≤ 2 ^ 32 * 2 ^ 28 :=
          Nat.mul_le_mul (Nat.le_of_lt hrate) (Nat.le_of_lt (ratio_lt pitch))
      _ < 2 ^ 64 := by decide
  unfold checkedSampleIncrement sampleIncrement
  split
  · rfl
  · next positive =>
    rw [checkedRatio_eq, ok_bind, word_eq product, ok_bind, quotient_eq positive, ok_bind, pure_eq]

/-- The increment of a tone, for all pitches that keys and bends can give. -/
theorem checkedPhaseIncrement_eq {pitch : Int} (low : -2 ^ 30 ≤ pitch) (high : pitch ≤ 2 ^ 30)
    (sampleRate : Nat) :
    checkedPhaseIncrement pitch sampleRate = .ok (phaseIncrement pitch sampleRate) := by
  have hratio := ratio_lt (pitch - concertKey * unitsPerSemitone)
  unfold checkedPhaseIncrement phaseIncrement
  unfold concertKey concertFrequency unitsPerSemitone at *
  dsimp only
  split
  · rfl
  · next positive =>
    rw [signed_eq (by omega) (by omega), ok_bind, checkedRatio_eq, ok_bind, word_eq (by omega),
      ok_bind, word_eq (by omega), ok_bind, quotient_eq positive, ok_bind, pure_eq]

end Chiptune.Pitch
