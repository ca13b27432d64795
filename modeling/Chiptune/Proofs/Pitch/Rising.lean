import Chiptune.Proofs.Checked.Pitch
import Chiptune.Voice

/-!
# A higher pitch is played faster

Up to eleven octaves over its zero a ratio grows with its pitch, within a semitone, from semitone to
semitone and from octave to octave. From there on it does not: `Pitch.octave` goes no further than
10, but the place within the octave is still taken from the whole pitch, so the ratios of the last
octave come again and again. The pitch whose ratio is heard is `Pitch.folded`, and two ratios are
in the order of their folded pitches (`Pitch.ratio_le_iff`).

Increments grow with their ratios, and a bend moves a pitch in its own direction, so both follow.
-/

namespace Chiptune
namespace Pitch

/-- The first pitch beyond the last octave. -/
def ceiling : Int := 11 * unitsPerOctave

/-- The pitch that is heard: from the ceiling on, the last octave over and over. -/
def folded (pitch : Int) : Int :=
  if pitch < ceiling then pitch else 10 * unitsPerOctave + pitch % unitsPerOctave

/-! ## Within an octave

The table of semitones is short and looked at entry by entry. Between two entries the ratio goes up
in equal parts, and the entries are far enough apart for each unit to count. -/

/-- The table of semitones rises. -/
theorem semitoneRatios_le {i j : Nat} (h : i ≤ j) (hj : j ≤ 12) :
    semitoneRatios.getD i 0 ≤ semitoneRatios.getD j 0 := by
  induction h with
  | refl => exact Nat.le_refl _
  | step _ ih => exact Nat.le_trans (ih (by omega)) (semitoneRatios_grow hj).1

/-- Two semitones are further apart than a semitone has units, so no unit is lost by rounding. -/
theorem semitoneRatios_apart {i : Nat} (h : i < 12) :
    semitoneRatios.getD i 0 + unitsPerSemitone ≤ semitoneRatios.getD (i + 1) 0 := by
  revert i
  decide

/-- A part of a semitone is less than the whole one. -/
theorem share_lt {step units : Nat} (hstep : 0 < step) (h : units < unitsPerSemitone) :
    step * units / unitsPerSemitone < step :=
  (Nat.div_lt_iff_lt_mul (by decide)).mpr (Nat.mul_lt_mul_of_pos_left h hstep)

/-- Where a semitone is as wide as its units, each unit makes a difference. -/
theorem share_grows {step a b : Nat} (hstep : unitsPerSemitone ≤ step) (h : a < b) :
    step * a / unitsPerSemitone < step * b / unitsPerSemitone := by
  have further : step * a + unitsPerSemitone ≤ step * b :=
    calc step * a + unitsPerSemitone ≤ step * a + step := Nat.add_le_add_left hstep _
      _ = step * (a + 1) := (Nat.mul_succ _ _).symm
      _ ≤ step * b := Nat.mul_le_mul_left _ h
  unfold unitsPerSemitone at *
  omega

/-- Within an octave each unit of pitch makes the ratio larger. -/
theorem ratioWithinOctave_lt {a b : Nat} (h : a < b) (hb : b < 12 * unitsPerSemitone) :
    ratioWithinOctave a < ratioWithinOctave b := by
  have semitone {units : Nat} (hunits : units < 12 * unitsPerSemitone) :
      units / unitsPerSemitone < 12 := Nat.div_lt_of_lt_mul (Nat.mul_comm 12 _ ▸ hunits)
  have apart := semitoneRatios_apart (semitone (Nat.lt_trans h hb))
  have order : a / unitsPerSemitone ≤ b / unitsPerSemitone :=
    Nat.div_le_div_right (Nat.le_of_lt h)
  unfold ratioWithinOctave
  dsimp only
  rcases Nat.lt_or_eq_of_le order with earlier | same
  -- a part of a semitone stays below the next one
  · have next := semitoneRatios_le earlier (Nat.le_of_lt (semitone hb))
    have below := @share_lt (semitoneRatios.getD (a / unitsPerSemitone + 1) 0 -
      semitoneRatios.getD (a / unitsPerSemitone) 0) (a % unitsPerSemitone)
      (by unfold unitsPerSemitone at *; omega) (Nat.mod_lt _ (by decide))
    refine Nat.lt_of_lt_of_le ?_ (Nat.le_trans next (Nat.le_add_right _ _))
    rw [Nat.succ_eq_add_one]
    omega
  -- within one semitone the parts grow
  · rw [← same]
    refine Nat.add_lt_add_left (share_grows (by omega) ?_) _
    unfold unitsPerSemitone at *
    omega

theorem ratioWithinOctave_mono {a b : Nat} (h : a ≤ b) (hb : b < 12 * unitsPerSemitone) :
    ratioWithinOctave a ≤ ratioWithinOctave b := by
  rcases Nat.lt_or_eq_of_le h with less | rfl
  · exact Nat.le_of_lt (ratioWithinOctave_lt less hb)
  · exact Nat.le_refl _

/-- Within an octave the ratio is at least 1 and less than 2. -/
theorem ratioWithinOctave_bounds {units : Nat} (h : units < 12 * unitsPerSemitone) :
    65536 ≤ ratioWithinOctave units ∧ ratioWithinOctave units < 131072 :=
  ⟨ratioWithinOctave_mono (Nat.zero_le units) h,
    Nat.lt_of_le_of_lt (ratioWithinOctave_mono (Nat.le_sub_one_of_lt h) (by decide)) (by decide)⟩

/-! ## From octave to octave

A ratio is shifted by octaves, to the left upwards and to the right downwards. Downwards bits are
lost, and so different ratios may become one, but their order stays. -/

/-- A ratio moved by octaves. -/
def shifted (within : Nat) (octave : Int) : Nat :=
  if 0 ≤ octave then within <<< octave.toNat else within >>> (-octave).toNat

theorem ratio_eq_shifted (pitch : Int) :
    ratio pitch = shifted (ratioWithinOctave (pitch % unitsPerOctave).toNat) (octave pitch) := rfl

/-- Moving by octaves keeps the order of the ratios. -/
theorem shifted_mono {a b : Nat} (h : a ≤ b) (octave : Int) :
    shifted a octave ≤ shifted b octave := by
  unfold shifted
  split
  · rw [Nat.shiftLeft_eq, Nat.shiftLeft_eq]
    exact Nat.mul_le_mul_right _ h
  · rw [Nat.shiftRight_eq_div_pow, Nat.shiftRight_eq_div_pow]
    exact Nat.div_le_div_right h

/-- More octaves up is not lower. -/
theorem shifted_octave_mono (within : Nat) {low high : Int} (h : low ≤ high) :
    shifted within low ≤ shifted within high := by
  unfold shifted
  simp only [Nat.shiftLeft_eq, Nat.shiftRight_eq_div_pow]
  split <;> split
  · exact Nat.mul_le_mul_left _ (Nat.pow_le_pow_right (by decide) (by omega))
  · omega
  · exact Nat.le_trans (Nat.div_le_self _ _) (Nat.le_mul_of_pos_right _ (Nat.two_pow_pos _))
  · exact Nat.div_le_div_left (Nat.pow_le_pow_right (by decide) (by omega)) (Nat.two_pow_pos _)

/-- An octave up is twice the ratio. -/
theorem shifted_twice (within : Nat) (octave : Int) :
    shifted (2 * within) octave = shifted within (octave + 1) := by
  unfold shifted
  simp only [Nat.shiftLeft_eq, Nat.shiftRight_eq_div_pow]
  split
  · next up =>
    rw [if_pos (by omega), show (octave + 1).toNat = octave.toNat + 1 by omega, Nat.pow_succ]
    ac_rfl
  · next down =>
    obtain ⟨k, rfl⟩ : ∃ k : Nat, octave = -(k + 1 : Nat) := ⟨(-octave - 1).toNat, by omega⟩
    rw [show (-(-((k + 1 : Nat) : Int))).toNat = k + 1 by omega, Nat.pow_succ, Nat.mul_comm,
      Nat.mul_div_mul_right _ _ (by decide)]
    cases k with
    | zero => simp
    | succ k =>
      rw [if_neg (by omega), show (-(-((k + 1 + 1 : Nat) : Int) + 1)).toNat = k + 1 by omega]

/-- Upwards nothing is cut off, so moving keeps different ratios different. -/
theorem shifted_lt {a b : Nat} (h : a < b) {octave : Int} (up : 0 ≤ octave) :
    shifted a octave < shifted b octave := by
  unfold shifted
  rw [if_pos up, if_pos up, Nat.shiftLeft_eq, Nat.shiftLeft_eq]
  exact Nat.mul_lt_mul_of_pos_right h (Nat.two_pow_pos _)

/-! ## Ratios

Two pitches in one octave are compared within it, and two pitches in different octaves by their
octaves. -/

variable {p q : Int}

/-- A higher pitch is not in a lower octave, clamped or not. -/
theorem octave_mono (h : p ≤ q) : octave p ≤ octave q := by
  unfold octave unitsPerOctave unitsPerSemitone
  omega

/-- At the lower end nothing of a ratio is left but its first bit. -/
theorem ratio_of_lowest (h : octave p = -16) : ratio p = 1 := by
  obtain ⟨low, high⟩ := ratioWithinOctave_bounds (units_lt p)
  rw [ratio_eq_shifted, h]
  unfold shifted
  rw [if_neg (by decide), Nat.shiftRight_eq_div_pow]
  change _ / 65536 = 1
  omega

/-- Below the ceiling a higher pitch does not have a lower ratio. -/
theorem ratio_mono (h : p ≤ q) (hq : q < ceiling) : ratio p ≤ ratio q := by
  obtain ⟨-, hp⟩ := ratioWithinOctave_bounds (units_lt p)
  obtain ⟨hq', -⟩ := ratioWithinOctave_bounds (units_lt q)
  rcases Int.lt_or_eq_of_le (octave_mono h) with lower | same
  · rw [ratio_eq_shifted, ratio_eq_shifted]
    calc shifted (ratioWithinOctave (p % unitsPerOctave).toNat) (octave p)
        ≤ shifted (2 * 65536) (octave p) := shifted_mono (Nat.le_of_lt hp) _
      _ = shifted 65536 (octave p + 1) := shifted_twice _ _
      _ ≤ shifted 65536 (octave q) := shifted_octave_mono _ lower
      _ ≤ _ := shifted_mono hq' _
  · by_cases lowest : octave q = -16
    · exact Nat.le_of_eq ((ratio_of_lowest (same.trans lowest)).trans (ratio_of_lowest lowest).symm)
    · rw [ratio_eq_shifted, ratio_eq_shifted, same]
      refine shifted_mono (ratioWithinOctave_mono ?_ (units_lt q)) _
      unfold octave ceiling unitsPerOctave unitsPerSemitone at *
      omega

/-- In the last octave a higher pitch has a higher ratio. -/
theorem ratio_lt_of_lastOctave (hp : 10 * unitsPerOctave ≤ p) (h : p < q) (hq : q < ceiling) :
    ratio p < ratio q := by
  have octaves : octave p = 10 ∧ octave q = 10 := by
    unfold octave ceiling unitsPerOctave unitsPerSemitone at *
    omega
  rw [ratio_eq_shifted, ratio_eq_shifted, octaves.1, octaves.2]
  refine shifted_lt (ratioWithinOctave_lt ?_ (units_lt q)) (by decide)
  unfold ceiling unitsPerOctave unitsPerSemitone at *
  omega

/-! ## Above the ceiling

Octaves are clamped and the place within the octave is not. So a pitch above the ceiling sounds like
the pitch of the last octave with the same place. `folded` is that pitch, and all pitches are
compared by it. -/

theorem folded_of_lt (h : p < ceiling) : folded p = p := if_pos h

theorem folded_lt (p : Int) : folded p < ceiling := by
  unfold folded ceiling unitsPerOctave unitsPerSemitone
  split <;> omega

/-- From the ceiling on, what is heard is in the last octave. -/
theorem le_folded (h : ceiling ≤ p) : 10 * unitsPerOctave ≤ folded p := by
  unfold folded
  rw [if_neg (by omega)]
  have := Int.emod_nonneg p (show (unitsPerOctave : Int) ≠ 0 by decide)
  omega

/-- The octave is clamped, but the place within it is not, so a pitch sounds as its fold. -/
theorem ratio_folded (p : Int) : ratio (folded p) = ratio p := by
  rcases Int.lt_or_le p ceiling with below | above
  · rw [folded_of_lt below]
  · have octaves : octave (folded p) = octave p := by
      unfold folded
      rw [if_neg (by omega)]
      unfold octave ceiling unitsPerOctave unitsPerSemitone at *
      omega
    have places : folded p % unitsPerOctave = p % unitsPerOctave := by
      unfold folded
      rw [if_neg (by omega)]
      unfold unitsPerOctave unitsPerSemitone
      omega
    rw [ratio_eq_shifted, ratio_eq_shifted, octaves, places]

/-- Of two folds the higher one does not have the lower ratio. -/
theorem ratio_le_of_folded (h : folded p ≤ folded q) : ratio p ≤ ratio q := by
  rw [← ratio_folded p, ← ratio_folded q]
  exact ratio_mono h (folded_lt q)

/-- A higher pitch has no lower ratio exactly if folding leaves the two in their order. -/
theorem ratio_le_iff (h : p ≤ q) : ratio p ≤ ratio q ↔ folded p ≤ folded q := by
  refine ⟨fun hratio => ?_, ratio_le_of_folded⟩
  rcases Int.lt_or_le q ceiling with below | above
  · rwa [folded_of_lt below, folded_of_lt (Int.lt_of_le_of_lt h below)]
  · by_cases order : folded p ≤ folded q
    · exact order
    have falls := ratio_lt_of_lastOctave (le_folded above) (Int.not_le.mp order) (folded_lt p)
    rw [ratio_folded, ratio_folded] at falls
    omega

/-! ## Increments

An increment is a ratio times a constant, divided and clamped. None of this changes an order. -/

/-- What holds of the ratios holds of the steps of a recording, which are clamped as well. -/
theorem sampleIncrement_mono (h : ratio p ≤ ratio q) (rate sampleRate : Nat) :
    sampleIncrement rate p sampleRate ≤ sampleIncrement rate q sampleRate := by
  have := Nat.div_le_div_right (c := sampleRate) (Nat.mul_le_mul_left rate h)
  unfold sampleIncrement
  split <;> omega

/-- The pitch of an absolute one against the tuning fork. -/
def fromConcert (pitch : Int) : Int := pitch - concertKey * unitsPerSemitone

/-- The phase increment of a tone rises with its ratio. -/
theorem phaseIncrement_mono (h : ratio (fromConcert p) ≤ ratio (fromConcert q)) (sampleRate : Nat) :
    phaseIncrement p sampleRate ≤ phaseIncrement q sampleRate := by
  have cycles := Nat.mul_le_mul_right 65536 (Nat.mul_le_mul_left concertFrequency h)
  have := Nat.div_le_div_right (c := sampleRate) cycles
  unfold fromConcert at this
  unfold phaseIncrement
  dsimp only
  split <;> omega

/-! ## Bending

A bend is added to the pitch of a voice, and the voice gets a new increment. What holds of ratios
therefore holds of what is heard. -/

/-- A bend further up is not further down, whatever its range. -/
theorem bendOffset_mono {low high : Int} (h : low ≤ high) (range : Nat) :
    bendOffset low range ≤ bendOffset high range := by
  have scaled : low * range * unitsPerSemitone ≤ high * range * unitsPerSemitone :=
    Int.mul_le_mul_of_nonneg_right (Int.mul_le_mul_of_nonneg_right h (Int.natCast_nonneg _))
      (Int.natCast_nonneg _)
  unfold bendOffset
  rw [Int.tdiv_eq_ediv, Int.tdiv_eq_ediv, show Int.sign 8192 = 1 from rfl]
  omega

end Pitch

open Pitch

namespace Generator

/-- The pitch whose ratio sets a generator's speed: a recording's against its root key, that of
anything else against the tuning fork. -/
def pitch (g : Generator) (key : Nat) (bend : Int) (range : Nat) : Int :=
  match g with
  | pcm c => relative key c.rootKey 0 bend range
  | _ => fromConcert (absolute key bend range)

/-- How far one output frame moves on, in the recording or in the cycle. -/
def speed : Generator → Nat
  | pcm c => c.increment
  | wave _ o | square _ o | noise _ o => o.increment.toNat

/-- An upward bend does not make the pitch of a voice lower. -/
theorem pitch_mono (g : Generator) (key : Nat) {low high : Int} (h : low ≤ high) (range : Nat) :
    g.pitch key low range ≤ g.pitch key high range := by
  have := bendOffset_mono h range
  cases g <;> (unfold pitch fromConcert relative absolute; dsimp only; omega)

/-- The increment of a tone is clamped to 32 bits, so nothing is lost in its word. -/
theorem toNat_phaseIncrement (pitch : Int) (sampleRate : Nat) :
    (UInt32.ofNat (phaseIncrement pitch sampleRate)).toNat = phaseIncrement pitch sampleRate := by
  refine UInt32.toNat_ofNat_of_lt' ?_
  unfold phaseIncrement greatestIncrement UInt32.size
  dsimp only
  split <;> omega

/-- A bend that raises the fold of a pitch does not slow the generator down. -/
theorem speed_retune_mono (g : Generator) (key : Nat) {low high : Int} {range : Nat}
    (h : folded (g.pitch key low range) ≤ folded (g.pitch key high range)) (sampleRate : Nat) :
    (g.retune key low range sampleRate).speed ≤ (g.retune key high range sampleRate).speed := by
  have grows := ratio_le_of_folded h
  cases g with
  | pcm c => exact sampleIncrement_mono grows _ _
  | _ =>
    simp only [retune, speed, toNat_phaseIncrement]
    exact phaseIncrement_mono grows _

end Generator

/-- Two ratios, one of a higher pitch than the other, are in order exactly if their folded pitches
are, as they always are below the ceiling. Increments are in order with their ratios. A bend upwards
raises the pitch of any voice, and as long as folding keeps that order it does not slow it down. -/
theorem Pitch.higher_is_faster {p q : Int} (h : p ≤ q) (rate sampleRate : Nat) (v : Voice)
    {low high : Int} (bend : low ≤ high) (range : Nat) :
    (q < ceiling → folded p ≤ folded q) ∧
    (ratio p ≤ ratio q ↔ folded p ≤ folded q) ∧
    (folded p ≤ folded q →
      sampleIncrement rate p sampleRate ≤ sampleIncrement rate q sampleRate) ∧
    (folded (fromConcert p) ≤ folded (fromConcert q) →
      phaseIncrement p sampleRate ≤ phaseIncrement q sampleRate) ∧
    v.generator.pitch v.soundingKey low range ≤ v.generator.pitch v.soundingKey high range ∧
    (folded (v.generator.pitch v.soundingKey low range) ≤
        folded (v.generator.pitch v.soundingKey high range) →
      (v.retune low range sampleRate).generator.speed ≤
        (v.retune high range sampleRate).generator.speed) := by
  refine ⟨fun below => ?_, ratio_le_iff h,
    fun order => sampleIncrement_mono (ratio_le_of_folded order) _ _,
    fun order => phaseIncrement_mono (ratio_le_of_folded order) _,
    v.generator.pitch_mono _ bend _, fun order => v.generator.speed_retune_mono _ order _⟩
  rwa [folded_of_lt below, folded_of_lt (Int.lt_of_le_of_lt h below)]

/-- A note of a recording and its bend up by two semitones, and concert pitch a whole tone down. -/
theorem Pitch.higher_is_faster_wholeTone :
    let note := Voice.start (.named "recording" (.pcm 0)) 44100 0 60 60 100 default
    ratio 0 ≤ ratio 512 ∧ sampleIncrement 44100 0 48000 ≤ sampleIncrement 44100 512 48000 ∧
      phaseIncrement 17152 48000 ≤ phaseIncrement 17664 48000 ∧
      (note.retune 0 2 48000).generator.speed ≤ (note.retune 8191 2 48000).generator.speed := by
  intro note
  have bend : (0 : Int) ≤ 8191 := by decide
  obtain ⟨below, ratios, recordings, -, -, voices⟩ :=
    Pitch.higher_is_faster (p := 0) (q := 512) (by decide) 44100 48000 note bend 2
  obtain ⟨-, -, -, tones, -⟩ :=
    Pitch.higher_is_faster (p := 17152) (q := 17664) (by decide) 44100 48000 note bend 2
  have order := below (by decide)
  exact ⟨ratios.mpr order, recordings order, tones (by decide), voices (by decide)⟩

/-- At the ceiling a ratio falls back to half of what it is one unit below. The highest key over the
lowest root gets there by a bend within a range of 12 semitones. -/
theorem Pitch.higher_is_slower_atCeiling :
    ¬ (∀ p q : Int, p ≤ q → ratio p ≤ ratio q) ∧
    ¬ (∀ p q : Int, p ≤ q → ∀ rate sampleRate,
      sampleIncrement rate p sampleRate ≤ sampleIncrement rate q sampleRate) ∧
    ¬ (∀ p q : Int, p ≤ q → ∀ sampleRate,
      phaseIncrement p sampleRate ≤ phaseIncrement q sampleRate) ∧
    ¬ (∀ (key rootKey range rate sampleRate : Nat) (low high : Int), low ≤ high →
      sampleIncrement rate (relative key rootKey 0 low range) sampleRate ≤
        sampleIncrement rate (relative key rootKey 0 high range) sampleRate) := by
  refine ⟨fun h => ?_, fun h => ?_, fun h => ?_, fun h => ?_⟩
  · exact absurd (h 33791 33792 (by decide)) (by decide)
  · exact absurd (h 33791 33792 (by decide) 44100 44100) (by decide)
  · exact absurd (h 51455 51456 (by decide) 4294967295) (by decide)
  · exact absurd (h 127 0 12 44100 44100 3412 3414 (by decide)) (by decide)

end Chiptune
