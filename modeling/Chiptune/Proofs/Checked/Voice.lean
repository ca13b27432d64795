import Chiptune.Proofs.Checked.Envelope
import Chiptune.Proofs.Checked.Inputs
import Chiptune.Proofs.Checked.Pitch
import Chiptune.Proofs.Envelope.Shape

/-!
# Voices in words

`Voice.Fits` is what the calculations of a voice need to know of it: keys of 8 bits, levels of 7, an
envelope between silence and full level, and, as long as it plays, a place in its recording that is
not far behind the end. Whatever happens to a voice keeps it so, and one frame of it can be worked
out in words (`Voice.checkedRender_eq`).
-/

namespace Chiptune

open Checked

/-! ## Calculations

Cursors, oscillators and noise registers move on in words of 64 bits, and levels are scaled in words
of 32. -/

def PcmCursor.checkedAdvance (s : Sample) (c : PcmCursor) : Checked PcmCursor := do
  let position ← word 64 (c.position + c.increment)
  if s.HasLoop ∧ s.size ≤ position / 65536 then
    let past ← remainder (← less (position / 65536) s.loopStart) (← less s.size s.loopStart)
    let start ← word 64 (65536 * (← word 64 (s.loopStart + past)))
    return { c with position := ← word 64 (start + position % 65536) }
  else return { c with position := position }

def Oscillator.checkedPlace (o : Oscillator) (size : Nat) : Checked Nat := do
  return (← word 64 (o.phase.toNat * size)) / cycle

def NoiseRegister.checkedAdvance (r : NoiseRegister) (o : Oscillator) :
    Checked (NoiseRegister × Oscillator) := do
  let total ← word 64 (o.phase.toNat + (← word 64 (o.increment.toNat * clocksPerCycle)))
  return (Nat.repeat clock (total / Oscillator.cycle) r, { o with phase := UInt32.ofNat total })

namespace Generator

def checkedToneIncrement (key : Nat) (bend : Int) (range sampleRate : Nat) : Checked UInt32 := do
  let pitch ← Pitch.checkedAbsolute key bend range
  return UInt32.ofNat (← Pitch.checkedPhaseIncrement pitch sampleRate)

def checkedRetune (g : Generator) (key : Nat) (bend : Int) (range sampleRate : Nat) :
    Checked Generator :=
  match g with
  | pcm c => do
    let pitch ← Pitch.checkedRelative key c.rootKey 0 bend range
    return pcm { c with increment := ← Pitch.checkedSampleIncrement c.rate pitch sampleRate }
  | wave sample o => do
    return wave sample { o with increment := ← checkedToneIncrement key bend range sampleRate }
  | square duty o => do
    return square duty { o with increment := ← checkedToneIncrement key bend range sampleRate }
  | noise register o => do
    return noise register { o with increment := ← checkedToneIncrement key bend range sampleRate }

/-- The present level, and the generator one frame later. -/
def checkedSound (bank : Bank) : Generator → Checked (Option Int × Generator)
  | pcm c =>
    match bank.sample? c.sample with
    | some s => do
      let level ← signed 16 (s.level c.place)
      return (some level, pcm (← c.checkedAdvance s))
    | none => return (none, pcm c)
  | wave sample o =>
    match bank.sample? sample with
    | some s =>
      if s.size = 0 then return (none, wave sample o)
      else do
        let level ← signed 16 (s.level (← o.checkedPlace s.size))
        return (some level, wave sample o.advance)
    | none => return (none, wave sample o)
  | square duty o => return (some (o.square duty), square duty o.advance)
  | noise register o => do
    let (shifted, o) ← register.checkedAdvance o
    return (some register.level, noise shifted o)

end Generator

namespace Voice

def checkedRetune (v : Voice) (bend : Int) (range sampleRate : Nat) : Checked Voice := do
  return { v with
    generator := ← v.generator.checkedRetune v.soundingKey bend range sampleRate }

def checkedSetMix (v : Voice) (volume : Nat) (pan : Int) : Checked Voice := do
  let level := (← word 31 (min volume 127 * v.velocity)) / 127
  let share := (← signed 32 (max (-64) (min (v.fixedPan.getD pan) 63) + 64)).toNat
  let left ← word 31 ((← less 128 share) * level)
  let right ← word 31 (share * level)
  return { v with left := left / 128, right := right / 128 }

def checkedStepEnvelope (v : Voice) : Checked Voice := do
  return { v with envelope := ← v.envelope.checkedStep }

def checkedScale (level : Int) (side gain : Nat) : Checked Int := do
  let sounding := (← signed 32 (level * side)) / 128
  return (← signed 32 (sounding * gain)) / 32768

/-- What the voice adds to the present frame, and the voice one frame later. -/
def checkedRender (bank : Bank) (v : Voice) : Checked ((Int × Int) × Voice) :=
  if v.playing then do
    let (level?, generator) ← v.generator.checkedSound bank
    let later := { v with generator, playing := decide (¬ generator.IsSpent bank) }
    match level? with
    | some level =>
      if v.muted then return ((0, 0), later)
      else
        let left ← checkedScale level v.left v.envelope.gain
        let right ← checkedScale level v.right v.envelope.gain
        return ((left, right), later)
    | none => return ((0, 0), later)
  else return ((0, 0), v)

end Voice

/-! ## What fits

Two invariants. `Voice.Fits` is for everything but the levels, and is kept whatever is done to a
voice. `Voice.Leveled` is for the levels alone, because mixing needs no more than that. -/

/-- As long as the recording is played, the cursor has not passed its end by more than a step. -/
structure PcmCursor.Fits (c : PcmCursor) (playing : Bool) : Prop where
  rate_lt : c.rate < 2 ^ 32
  rootKey_lt : c.rootKey < 2 ^ 8
  increment_lt : c.increment < 2 ^ 32
  /-- A recording that has ended is not moved on, wherever its cursor has come to. -/
  position_lt : playing = true → c.position < 2 ^ 63

def Generator.Fits (g : Generator) (playing : Bool) : Prop :=
  match g with
  | pcm c => c.Fits playing
  | _ => True

structure Voice.Fits (v : Voice) : Prop where
  soundingKey_lt : v.soundingKey < 2 ^ 8
  velocity_le : v.velocity ≤ 127
  left_le : v.left ≤ 127
  right_le : v.right ≤ 127
  envelope : v.envelope.Fits
  /-- What has to be known of a generator depends on whether it is still played. -/
  generator : v.generator.Fits v.playing

/-- What the level of a voice is made of has 7 bits. -/
structure Voice.Leveled (v : Voice) : Prop where
  velocity_le : v.velocity ≤ 127
  left_le : v.left ≤ 127
  right_le : v.right ≤ 127

theorem Voice.Fits.leveled {v : Voice} (h : v.Fits) : v.Leveled :=
  ⟨h.velocity_le, h.left_le, h.right_le⟩

/-- Where the increment would be too large, the largest one is taken. -/
theorem Pitch.sampleIncrement_lt (rate : Nat) (pitch : Int) (sampleRate : Nat) :
    sampleIncrement rate pitch sampleRate < 2 ^ 32 := by
  unfold sampleIncrement greatestIncrement
  split <;> omega

namespace Generator

variable {g : Generator} {bank : Bank} {playing : Bool}

/-- A bend changes nothing of a generator but its increment. -/
theorem Fits.retune (h : g.Fits playing) (key : Nat) (bend : Int) (range sampleRate : Nat) :
    (g.retune key bend range sampleRate).Fits playing := by
  cases g with
  | pcm c => exact ⟨h.rate_lt, h.rootKey_lt, Pitch.sampleIncrement_lt _ _ _, h.position_lt⟩
  | _ => trivial

/-- A recording that goes on being played has not come to its end. -/
theorem Fits.advance (hbank : bank.Fits) (h : g.Fits true) :
    (g.advance bank).Fits (decide (¬ (g.advance bank).IsSpent bank)) := by
  cases g with
  | pcm c =>
    cases hs : bank.sample? c.sample with
    | none =>
      rw [show (pcm c).advance bank = pcm c by simp only [Generator.advance, hs]]
      exact ⟨h.rate_lt, h.rootKey_lt, h.increment_lt, fun _ => h.position_lt rfl⟩
    | some s =>
      rw [show (pcm c).advance bank = pcm (c.advance s) by simp only [Generator.advance, hs]]
      refine ⟨h.rate_lt, h.rootKey_lt, h.increment_lt, fun going => ?_⟩
      have going : ¬ (pcm (c.advance s)).IsSpent bank := of_decide_eq_true going
      simp only [IsSpent, PcmCursor.advance, hs, PcmCursor.IsPastEnd, PcmCursor.place] at going ⊢
      have := (hbank.sample hs).size_le
      omega
  | wave sample o =>
    cases hs : bank.sample? sample <;> simp only [Generator.advance, hs] <;> trivial
  | _ => trivial

end Generator

namespace Voice

variable {v : Voice} {bank : Bank}

/-- The right side has between none and 127 of 128 parts. -/
theorem rightShare_le (pan : Int) : rightShare pan ≤ 127 := by
  unfold rightShare
  omega

/-- A share of a level is no louder than the level. -/
theorem mix_le {level share : Nat} (h : level ≤ 127) (hshare : share ≤ 128) :
    share * level / 128 ≤ 127 := by
  have : share * level ≤ 128 * 127 := Nat.mul_le_mul hshare h
  omega

/-- Nothing is louder than full volume at full velocity. -/
theorem level_le {velocity : Nat} (h : velocity ≤ 127) (volume : Nat) :
    min volume 127 * velocity / 127 ≤ 127 := by
  have : min volume 127 * velocity ≤ 127 * 127 := Nat.mul_le_mul (Nat.min_le_right _ _) h
  omega

/-- The levels stay in range whatever the volume and place, which are clamped before. -/
theorem Leveled.setMix (h : v.Leveled) (volume : Nat) (pan : Int) :
    (v.setMix volume pan).Leveled where
  velocity_le := h.velocity_le
  left_le := mix_le (level_le h.velocity_le volume) (Nat.sub_le _ _)
  right_le := mix_le (level_le h.velocity_le volume) (Nat.le_succ_of_le (rightShare_le _))

namespace Fits

/-- A voice starts in silence, at the beginning of its recording. -/
theorem start {instrument : Instrument} {rate soundingKey : Nat} {envelope : Envelope}
    (hinstrument : instrument.Fits) (hrate : rate < 2 ^ 32) (hkey : soundingKey < 2 ^ 8)
    (henvelope : envelope.Fits) (track key velocity : Nat) :
    (Voice.start instrument rate track key soundingKey velocity envelope).Fits where
  soundingKey_lt := hkey
  velocity_le := Nat.min_le_right _ _
  left_le := Nat.zero_le _
  right_le := Nat.zero_le _
  envelope := henvelope
  generator := by
    unfold Voice.start Generator.ofInstrument
    dsimp only
    split
    · exact ⟨hrate, hinstrument.rootKey_lt, Nat.two_pow_pos 32, fun _ => Nat.two_pow_pos 63⟩
    all_goals trivial

theorem retune (h : v.Fits) (bend : Int) (range sampleRate : Nat) :
    (v.retune bend range sampleRate).Fits :=
  { h with generator := h.generator.retune _ _ _ _ }

theorem setMix (h : v.Fits) (volume : Nat) (pan : Int) : (v.setMix volume pan).Fits :=
  let mixed := h.leveled.setMix volume pan
  { h with left_le := mixed.left_le, right_le := mixed.right_le }

theorem setMuted (h : v.Fits) (muted : Bool) : (v.setMuted muted).Fits := { h with }

theorem release (h : v.Fits) : v.release.Fits := { h with envelope := h.envelope.release }

theorem stepEnvelope (h : v.Fits) : v.stepEnvelope.Fits := { h with envelope := h.envelope.step }

/-- A voice that has stopped playing stays as it is. -/
theorem advance (hbank : bank.Fits) (h : v.Fits) : (v.advance bank).Fits := by
  unfold Voice.advance
  split
  · next playing =>
    have hgenerator := h.generator
    rw [playing] at hgenerator
    exact { h with generator := hgenerator.advance hbank }
  · exact h

end Fits
end Voice

/-! ## The results of the calculations

A voice in words gives what a plain voice gives, with one exception: the place of an oscillator is a
product of its phase and of the length of its wave, and that product may be too large. It is
followed up to the frame of the voice, so that both outcomes are known. -/

/-- With at most 2 ^ 32 levels a cursor stays far below 2 ^ 63 between two frames, so a step and a
way around the loop fit into 64 bits. -/
theorem PcmCursor.checkedAdvance_eq {s : Sample} {c : PcmCursor} (hs : s.Fits) (h : c.Fits true) :
    c.checkedAdvance s = .ok (c.advance s) := by
  have := hs.size_le
  have := h.increment_lt
  have := h.position_lt rfl
  unfold checkedAdvance advance wrap
  rw [word_eq (by omega), ok_bind]
  split
  · next back =>
    obtain ⟨⟨-, hstart⟩, hplace⟩ := back
    have hpast := Nat.mod_lt ((c.position + c.increment) / 65536 - s.loopStart)
      (show 0 < s.size - s.loopStart by omega)
    rw [less_eq (by omega), ok_bind, less_eq (by omega), ok_bind, remainder_eq (by omega), ok_bind,
      word_eq (by omega), ok_bind, word_eq (by omega), ok_bind, word_eq (by omega)]
    rfl
  · rfl

/-- The place in a wave of at most 2 ^ 32 levels fits, wherever the oscillator is. -/
theorem Oscillator.placeFits_of_size_le (o : Oscillator) {size : Nat} (h : size ≤ 2 ^ 32) :
    o.PlaceFits size :=
  calc o.phase.toNat * size
    _ ≤ o.phase.toNat * 2 ^ 32 := Nat.mul_le_mul_left _ h
    _ < 2 ^ 32 * 2 ^ 32 := Nat.mul_lt_mul_of_pos_right o.phase_lt (by decide)

theorem Oscillator.checkedPlace_eq {o : Oscillator} {size : Nat} (fits : o.PlaceFits size) :
    o.checkedPlace size = .ok (o.place size) := by
  rw [checkedPlace, word_eq fits]
  rfl

/-- Where the product of place and length does not fit 64 bits, it overflows, for nothing clamps it.
-/
theorem Oscillator.checkedPlace_overflow {o : Oscillator} {size : Nat} (long : ¬ o.PlaceFits size) :
    o.checkedPlace size = .error .overflow := by
  rw [checkedPlace, word_overflow long]
  rfl

/-- The phase and a whole frame of clocks fit into 64 bits, both made from words of 32. -/
theorem NoiseRegister.checkedAdvance_eq (r : NoiseRegister) (o : Oscillator) :
    r.checkedAdvance o = .ok (r.advance o) := by
  have := o.phase.toNat_lt
  have := o.increment.toNat_lt
  unfold checkedAdvance advance clocksPerCycle
  rw [word_eq (by omega), ok_bind, word_eq (by omega), ok_bind, pure_eq]

namespace Generator

variable {g : Generator} {bank : Bank}

/-- The pitch of a tone is counted from the lowest key, and so cannot be far below zero. -/
theorem checkedToneIncrement_eq {key : Nat} {bend : Int} {range : Nat} (hkey : key < 2 ^ 8)
    (h : Pitch.BendFits bend range) (sampleRate : Nat) :
    checkedToneIncrement key bend range sampleRate =
      .ok (UInt32.ofNat (Pitch.phaseIncrement (Pitch.absolute key bend range) sampleRate)) := by
  obtain ⟨low, high⟩ := Pitch.absolute_bounds hkey h
  rw [checkedToneIncrement, Pitch.checkedAbsolute_eq hkey h, ok_bind,
    Pitch.checkedPhaseIncrement_eq (by omega) (by omega), ok_bind, pure_eq]

/-- Recordings are tuned by their root key, all else by the key that sounds. -/
theorem checkedRetune_eq {key : Nat} {bend : Int} {range : Nat} {playing : Bool}
    (hg : g.Fits playing) (hkey : key < 2 ^ 8) (h : Pitch.BendFits bend range) (sampleRate : Nat) :
    g.checkedRetune key bend range sampleRate = .ok (g.retune key bend range sampleRate) := by
  have tone := checkedToneIncrement_eq hkey h sampleRate
  unfold checkedRetune retune
  cases g with
  | pcm c =>
    dsimp only
    rw [Pitch.checkedRelative_eq hkey hg.rootKey_lt h, ok_bind,
      Pitch.checkedSampleIncrement_eq hg.rate_lt]
    rfl
  | _ =>
    dsimp only
    rw [tone]
    rfl

/-- Only for a wave there is a place to be worked out. -/
theorem placeFits_wave {sample : Nat} {o : Oscillator} {s : Sample}
    (hs : bank.sample? sample = some s) :
    (wave sample o).PlaceFits bank ↔ o.PlaceFits s.size := by
  simp only [PlaceFits, hs]

/-- In a bank of short recordings every place fits. -/
theorem placeFits_of_short (short : bank.Short) (g : Generator) : g.PlaceFits bank := by
  unfold PlaceFits
  split
  · next sample o =>
    split
    · next s hs => exact o.placeFits_of_size_le (short sample s hs)
    · trivial
  · trivial

/-- One frame of a generator comes out in words, if its place does. -/
theorem checkedSound_eq (hbank : bank.Fits) (h : g.Fits true) (fits : g.PlaceFits bank) :
    g.checkedSound bank = .ok (g.level? bank, g.advance bank) := by
  cases g with
  | pcm c =>
    simp only [checkedSound, level?, advance]
    cases hs : bank.sample? c.sample with
    | none => rfl
    | some s =>
      obtain ⟨low, high⟩ := s.data.level_bounds c.place
      change (signed 16 (s.data.level c.place) >>= _) = _
      rw [signed_eq (by omega) (by omega), ok_bind, PcmCursor.checkedAdvance_eq (hbank.sample hs) h]
      rfl
  | wave sample o =>
    cases hs : bank.sample? sample with
    | none => simp only [checkedSound, level?, advance, hs, pure_eq]
    | some s =>
      simp only [checkedSound, level?, advance, hs]
      split
      · rfl
      -- the place in a wave is the one thing that has to be known to fit
      · obtain ⟨low, high⟩ := s.data.level_bounds (o.place s.size)
        rw [Oscillator.checkedPlace_eq ((placeFits_wave hs).mp fits), ok_bind]
        change (signed 16 (s.data.level (o.place s.size)) >>= _) = _
        rw [signed_eq (by omega) (by omega)]
        rfl
  | square duty o => rfl
  | noise register o =>
    simp only [checkedSound, level?, advance]
    rw [NoiseRegister.checkedAdvance_eq]
    rfl

/-- The place in a wave is the only thing that can go wrong. -/
theorem checkedSound_overflow (long : ¬ g.PlaceFits bank) :
    g.checkedSound bank = .error .overflow := by
  cases g with
  | wave sample o =>
    cases hs : bank.sample? sample with
    | none => simp [PlaceFits, hs] at long
    | some s =>
      rw [placeFits_wave hs] at long
      -- a wave without levels has its place
      have levels : ¬ s.size = 0 := fun none => long (by simp [Oscillator.PlaceFits, none])
      simp only [checkedSound, hs]
      rw [if_neg levels, Oscillator.checkedPlace_overflow long]
      rfl
  | _ => exact (long trivial).elim

/-- A level fits 16 bits whatever it comes from. -/
theorem level?_bounds {level : Int} (h : g.level? bank = some level) :
    -32768 ≤ level ∧ level ≤ 32767 := by
  -- levels are read from 8 or 16 bits, or they are one of two peaks
  cases g with
  | pcm c =>
    obtain ⟨s, -, rfl⟩ := Option.map_eq_some_iff.mp h
    exact s.data.level_bounds _
  | wave sample o =>
    simp only [level?] at h
    split at h
    · split at h
      · cases h
      · cases h
        exact SampleData.level_bounds _ _
    · cases h
  | square duty o =>
    cases h
    unfold Oscillator.square Oscillator.peak
    split <;> omega
  | noise register o =>
    cases h
    unfold NoiseRegister.level Oscillator.peak
    split <;> omega

end Generator

namespace Voice

variable {v : Voice} {bank : Bank}

/-- A voice can be retuned in words. -/
theorem checkedRetune_eq {bend : Int} {range : Nat} (h : v.Fits) (hbend : Pitch.BendFits bend range)
    (sampleRate : Nat) :
    v.checkedRetune bend range sampleRate = .ok (v.retune bend range sampleRate) := by
  rw [checkedRetune, Generator.checkedRetune_eq h.generator h.soundingKey_lt hbend]
  rfl

/-- Levels of 7 bits and shares of 8 make products of 15. -/
theorem checkedSetMix_eq (h : v.Leveled) (volume : Nat) (pan : Int) :
    v.checkedSetMix volume pan = .ok (v.setMix volume pan) := by
  have hlevel := level_le h.velocity_le volume
  have product : min volume 127 * v.velocity ≤ 127 * 127 :=
    Nat.mul_le_mul (Nat.min_le_right _ _) h.velocity_le
  have hshare := rightShare_le (v.fixedPan.getD pan)
  have sides : ∀ {share}, share ≤ 128 → share * (min volume 127 * v.velocity / 127) < 2 ^ 31 :=
    fun hs => Nat.lt_of_le_of_lt (Nat.mul_le_mul hs hlevel) (by decide)
  unfold checkedSetMix
  rw [word_eq (by omega), ok_bind, signed_eq (by omega) (by omega), ok_bind]
  change (less 128 (rightShare (v.fixedPan.getD pan)) >>= _) = _
  rw [less_eq (by omega), ok_bind, word_eq (sides (Nat.sub_le _ _)), ok_bind]
  change (word 31 (rightShare (v.fixedPan.getD pan) * _) >>= _) = _
  rw [word_eq (sides (by omega)), ok_bind]
  rfl

theorem checkedStepEnvelope_eq (h : v.Fits) : v.checkedStepEnvelope = .ok v.stepEnvelope := by
  rw [checkedStepEnvelope, Envelope.checkedStep_eq h.envelope]
  rfl

/-- The intermediate level of one side. -/
theorem side_bounds {level : Int} {side : Nat} (low : -32768 ≤ level) (high : level ≤ 32767)
    (hside : side ≤ 127) : -32512 ≤ level * side / 128 ∧ level * side / 128 ≤ 32512 := by
  have bottom : -32768 * side ≤ level * side :=
    Int.mul_le_mul_of_nonneg_right low (Int.natCast_nonneg side)
  have top : level * side ≤ 32767 * side :=
    Int.mul_le_mul_of_nonneg_right high (Int.natCast_nonneg side)
  omega

/-- The gain makes nothing louder than it was. -/
theorem scaled_bounds {x : Int} {gain : Nat} (low : -32512 ≤ x) (high : x ≤ 32512)
    (hgain : gain ≤ 32768) : -32512 * 32768 ≤ x * gain ∧ x * gain ≤ 32512 * 32768 := by
  have bottom : -32512 * gain ≤ x * gain :=
    Int.mul_le_mul_of_nonneg_right low (Int.natCast_nonneg gain)
  have top : x * gain ≤ 32512 * gain :=
    Int.mul_le_mul_of_nonneg_right high (Int.natCast_nonneg gain)
  omega

section Scale

variable {level : Int} {side gain : Nat}

/-- One side of a voice, after both divisions, cannot leave this range. -/
theorem scale_bounds (low : -32768 ≤ level) (high : level ≤ 32767) (hside : side ≤ 127)
    (hgain : gain ≤ 32768) : -32512 ≤ scale level side gain ∧ scale level side gain ≤ 32512 := by
  obtain ⟨bottom, top⟩ := side_bounds low high hside
  obtain ⟨bottom, top⟩ := scaled_bounds bottom top hgain
  unfold scale
  omega

/-- Both products fit into 32 bits with a sign. -/
theorem checkedScale_eq (low : -32768 ≤ level) (high : level ≤ 32767) (hside : side ≤ 127)
    (hgain : gain ≤ 32768) : checkedScale level side gain = .ok (scale level side gain) := by
  obtain ⟨bottom, top⟩ := side_bounds low high hside
  obtain ⟨bottom', top'⟩ := scaled_bounds bottom top hgain
  unfold checkedScale
  rw [signed_eq (by omega) (by omega), ok_bind]
  dsimp only
  rw [signed_eq (by omega) (by omega)]
  rfl

end Scale

/-- The most that one voice adds to a side. -/
theorem output_bounds (bank : Bank) (h : v.Leveled) :
    (-32512 ≤ (v.output bank).1 ∧ (v.output bank).1 ≤ 32512) ∧
      (-32512 ≤ (v.output bank).2 ∧ (v.output bank).2 ≤ 32512) := by
  unfold output
  split
  · split
    · next level hlevel =>
      obtain ⟨low, high⟩ := Generator.level?_bounds hlevel
      exact ⟨scale_bounds low high h.left_le v.envelope.gain_le,
        scale_bounds low high h.right_le v.envelope.gain_le⟩
    · omega
  · omega

/-- A voice on a wave with levels works out its next place from the phase moved on. -/
theorem placeFits_advance_wave {sample : Nat} {s : Sample} {o : Oscillator}
    (plays : v.playing = true) (wave : v.generator = .wave sample o)
    (found : bank.sample? sample = some s) (levels : s.size ≠ 0) :
    (v.advance bank).PlaceFits bank ↔ o.advance.PlaceFits s.size := by
  have moved : v.generator.advance bank = .wave sample o.advance := by
    simp only [wave, Generator.advance, found, if_neg levels]
  have goes : ¬ (v.generator.advance bank).IsSpent bank := by
    simpa only [moved, Generator.IsSpent, found] using levels
  simp only [Voice.PlaceFits, Voice.advance, if_pos plays, goes, not_false_eq_true, decide_true,
    forall_const]
  rw [moved]
  exact Generator.placeFits_wave found

/-- One frame of a voice comes out in words, if its place does. -/
theorem checkedRender_eq (hbank : bank.Fits) (h : v.Fits) (fits : v.PlaceFits bank) :
    v.checkedRender bank = .ok (v.output bank, v.advance bank) := by
  unfold checkedRender output advance
  by_cases playing : v.playing = true
  · have hgenerator := h.generator
    rw [playing] at hgenerator
    rw [if_pos playing, if_pos playing,
      Generator.checkedSound_eq hbank hgenerator (fits playing), ok_bind]
    dsimp only
    cases hlevel : v.generator.level? bank with
    | none => simp
    | some level =>
      -- what is heard of a level is scaled, once for each side
      obtain ⟨low, high⟩ := Generator.level?_bounds hlevel
      dsimp only
      by_cases muted : v.muted = true
      · simp [muted]
      · rw [if_neg muted, checkedScale_eq low high h.left_le v.envelope.gain_le, ok_bind,
          checkedScale_eq low high h.right_le v.envelope.gain_le, ok_bind]
        simp [playing, muted]
  · rw [if_neg playing, if_neg playing]
    simp [playing]

/-- A place that does not fit ends the calculation, muted or not. -/
theorem checkedRender_overflow (long : ¬ v.PlaceFits bank) :
    v.checkedRender bank = .error .overflow := by
  obtain ⟨playing, long⟩ := Classical.not_imp.mp long
  rw [checkedRender, if_pos playing, Generator.checkedSound_overflow long]
  rfl

end Voice
end Chiptune
