import Chiptune.Proofs.Checked.VoicePool
import Chiptune.Proofs.Voice.Recording

/-!
# Voices are mixed exactly

The sums of a frame are kept in words of 32 bits, and there is little room in them: each side of a
voice goes up to 32512, and 65535 of these come to 99 percent of a word. What keeps a side so small
are the levels of a voice, which have 7 bits (`Voice.Leveled`). They do from the start, and nothing
that happens to a voice or its pool changes that. No more is needed than this: how the voices
came to be where they are, and what is in the bank, makes no difference.
-/

namespace Chiptune

open Checked

/-! ## One voice

The level of a voice is a product of numbers of seven bits, which are clamped whenever they are set.
After its gain and its divisions each side is at most 32512. -/

namespace Voice

/-- What the voice adds to the present frame, in words. -/
def checkedOutput (bank : Bank) (v : Voice) : Checked (Int × Int) :=
  if v.playing && !v.muted then
    match v.generator.level? bank with
    | some level => do
      let left ← checkedScale level v.left v.envelope.gain
      let right ← checkedScale level v.right v.envelope.gain
      return (left, right)
    | none => return (0, 0)
  else return (0, 0)

/-- A voice that was started like this, whatever has happened to it since. -/
def IsPlayed (v : Voice) : Prop :=
  ∃ (instrument : Instrument) (rate track key soundingKey velocity : Nat) (envelope : Envelope)
    (bank : Bank) (events : List Event),
    v = (start instrument rate track key soundingKey velocity envelope).run bank events

variable {v : Voice} {bank : Bank}

namespace Leveled

/-- A new voice has levels within bounds. -/
theorem start (instrument : Instrument) (rate track key soundingKey velocity : Nat)
    (envelope : Envelope) :
    (Voice.start instrument rate track key soundingKey velocity envelope).Leveled where
  velocity_le := Nat.min_le_right _ _
  left_le := Nat.zero_le _
  right_le := Nat.zero_le _

/-- An adjustment clamps the levels that it sets. -/
theorem apply (h : v.Leveled) (change : Adjustment) : (change.apply v).Leveled := by
  cases change with
  | pitch bend range sampleRate => exact { h with }
  | mix volume pan => exact h.setMix volume pan
  | mute muted => exact { h with }

theorem advance (h : v.Leveled) (bank : Bank) : (v.advance bank).Leveled := by
  unfold Voice.advance
  split
  · exact { h with }
  · exact h

theorem react (h : v.Leveled) (bank : Bank) (event : Event) : (v.react bank event).Leveled := by
  cases event with
  | frame => exact h.advance bank
  | adjust change => exact h.apply change
  | envelope event => exact { h with }

/-- Whatever happens to a voice, its levels stay within bounds. -/
theorem run (h : v.Leveled) (bank : Bank) (events : List Event) : (v.run bank events).Leveled := by
  induction events generalizing v with
  | nil => exact h
  | cons event events ih => exact ih (h.react bank event)

end Leveled

theorem IsPlayed.leveled (h : v.IsPlayed) : v.Leveled := by
  obtain ⟨instrument, rate, track, key, soundingKey, velocity, envelope, bank, events, rfl⟩ := h
  exact (Leveled.start _ _ _ _ _ _ _).run bank events

/-- The output of one voice needs no more than 32 bits on the way. -/
theorem checkedOutput_eq (bank : Bank) (h : v.Leveled) :
    v.checkedOutput bank = .ok (v.output bank) := by
  unfold checkedOutput output
  split
  · cases hlevel : v.generator.level? bank with
    | none => rfl
    | some level =>
      obtain ⟨low, high⟩ := Generator.level?_bounds hlevel
      simp only [checkedScale_eq low high h.left_le v.envelope.gain_le,
        checkedScale_eq low high h.right_le v.envelope.gain_le, ok_bind, pure_eq]
  · rfl

end Voice

/-! ## All voices

Partial sums are bounded by the number of voices that were added so far. This holds at each step of
the sum and not only at its end, which is what a word of 32 bits needs. -/

namespace VoicePool

/-- The exact sums of what some voices add to the present frame. -/
def sums (bank : Bank) (voices : List Voice) : Int × Int :=
  ((voices.map fun v => (v.output bank).1).sum, (voices.map fun v => (v.output bank).2).sum)

/-- Sum up the voices in words, one after the other. -/
def checkedSums (bank : Bank) : List Voice → (sums : Int × Int) → Checked (Int × Int)
  | [], sums => return sums
  | v :: voices, sums => do
    let sides ← v.checkedOutput bank
    let left ← signed 32 (sums.1 + sides.1)
    let right ← signed 32 (sums.2 + sides.2)
    checkedSums bank voices (left, right)

/-- The present frame of all voices, in words. -/
def checkedFrame (bank : Bank) (volume : MasterVolume) (p : VoicePool) : Checked Frame := do
  let sums ← checkedSums bank p.voices (0, 0)
  let left ← signed 32 ((← signed 64 (sums.1 * volume.level)) / 256)
  let right ← signed 32 ((← signed 64 (sums.2 * volume.level)) / 256)
  return .saturating left right

variable {p : VoicePool} {bank : Bank} {voices : List Voice} {a : Action} {actions : List Action}

/-- One voice more adds its output on both sides. -/
theorem sums_cons (bank : Bank) (v : Voice) (voices : List Voice) :
    sums bank (v :: voices) =
      ((v.output bank).1 + (sums bank voices).1, (v.output bank).2 + (sums bank voices).2) := by
  simp [sums]

theorem outputOnto_eq (bank : Bank) (slots : List (Option HeldVoice)) (before : Int × Int) :
    outputOnto bank slots before =
      (before.1 + (sums bank (slots.filterMap (·.map HeldVoice.voice))).1,
        before.2 + (sums bank (slots.filterMap (·.map HeldVoice.voice))).2) := by
  induction slots generalizing before with
  | nil => simp [outputOnto, sums]
  | cons slot slots ih =>
    cases slot with
    | none => exact ih before
    | some h =>
      refine (ih _).trans ?_
      simp [sums_cons, Int.add_assoc]

/-- What a pool gives is the sum of what its voices give. -/
theorem output_eq_sums (bank : Bank) (p : VoicePool) : p.output bank = sums bank p.voices := by
  rw [output_eq, outputOnto_eq]
  simp [voices]

/-- The sums of some voices are within the bound of that many voices. -/
theorem withinVoices_sums (bank : Bank) (leveled : ∀ v ∈ voices, v.Leveled) :
    WithinVoices voices.length (sums bank voices) := by
  induction voices with
  | nil => simp [WithinVoices, sums]
  | cons v voices ih =>
    have bounds := Voice.output_bounds bank (leveled v List.mem_cons_self)
    have others := ih fun w mem => leveled w (List.mem_cons_of_mem v mem)
    rw [sums_cons, List.length_cons]
    unfold WithinVoices at others ⊢
    omega

/-- The sums of a pool, and of any part of it, fit a word. -/
theorem WithinVoices.in_word {n : Nat} {x : Int × Int} (within : WithinVoices n x)
    (room : n ≤ greatestCapacity) :
    (-2 ^ 31 ≤ x.1 ∧ x.1 < 2 ^ 31) ∧ (-2 ^ 31 ≤ x.2 ∧ x.2 < 2 ^ 31) := by
  unfold WithinVoices greatestCapacity at *
  omega

/-- None of the partial sums is out of bounds, as a pool has no more than its greatest number of
slots. -/
theorem checkedSums_eq (bank : Bank) (leveled : ∀ v ∈ voices, v.Leveled) {n : Nat}
    {before : Int × Int} (within : WithinVoices n before)
    (room : n + voices.length ≤ greatestCapacity) :
    checkedSums bank voices before =
      .ok (before.1 + (sums bank voices).1, before.2 + (sums bank voices).2) := by
  -- on the voices that are left; `n` counts those that were summed up
  induction voices generalizing n before with
  | nil => simp [checkedSums, sums, pure_eq]
  | cons v voices ih =>
    rw [List.length_cons] at room
    have sound := leveled v List.mem_cons_self
    have bounds := Voice.output_bounds bank sound
    have wider : WithinVoices (n + 1)
        (before.1 + (v.output bank).1, before.2 + (v.output bank).2) := by
      unfold WithinVoices at within ⊢
      omega
    obtain ⟨⟨low, high⟩, low', high'⟩ := wider.in_word (by omega)
    rw [checkedSums, Voice.checkedOutput_eq bank sound, ok_bind, signed_eq low high, ok_bind,
      signed_eq low' high', ok_bind,
      ih (fun w mem => leveled w (List.mem_cons_of_mem v mem)) wider (by omega), sums_cons]
    simp [Int.add_assoc]

/-- A frame is mixed in words of 32 bits with nothing lost. -/
theorem checkedFrame_eq (leveled : ∀ v ∈ p.voices, v.Leveled)
    (room : p.capacity ≤ greatestCapacity) (bank : Bank) (volume : MasterVolume) :
    p.checkedFrame bank volume = .ok (p.render bank volume).1 := by
  have count : p.voices.length ≤ greatestCapacity :=
    Nat.le_trans (List.length_filterMap_le _ _) room
  have start : WithinVoices 0 (0, 0) := by simp [WithinVoices]
  have summed := checkedSums_eq bank leveled start (by omega)
  have within := withinVoices_sums bank leveled
  rw [← output_eq_sums] at summed within
  unfold WithinVoices greatestCapacity at *
  obtain ⟨low, high⟩ := volume_bounds (x := (p.output bank).1) volume (by omega) (by omega)
  obtain ⟨low', high'⟩ := volume_bounds (x := (p.output bank).2) volume (by omega) (by omega)
  rw [checkedFrame, summed, ok_bind]
  simp only [Int.zero_add]
  rw [signed_eq (by omega) (by omega), ok_bind, signed_eq (by omega) (by omega), ok_bind,
    signed_eq (by omega) (by omega), ok_bind, signed_eq (by omega) (by omega), ok_bind, pure_eq]
  rfl

/-! ### The voices of a run

Whatever was done to a pool, each of its voices came in by an allocation and was changed by actions
since then. So the bounds of one voice hold of all of them. -/

theorem leveled_onVoice (a : Action) (h : VoiceHandle) (v : Voice) (leveled : v.Leveled) :
    (a.onVoice h v).Leveled := by
  -- levels change only where a voice is adjusted
  refine onVoice_of_kept ?_ ?_ ?_ ?_ a h leveled
  · exact fun leveled => { leveled with }
  · exact fun leveled => { leveled with }
  · exact fun bank leveled => leveled.advance bank
  · exact fun change leveled => leveled.apply change

/-- Every voice of a pool is found under some handle. -/
theorem exists_get?_of_mem_voices {v : Voice} (mem : v ∈ p.voices) : ∃ h, p.get? h = some v := by
  obtain ⟨slot, taken, held⟩ := List.mem_filterMap.mp mem
  obtain ⟨x, rfl, rfl⟩ := Option.map_eq_some_iff.mp held
  obtain ⟨i, hi⟩ := List.mem_iff_getElem?.mp taken
  rw [Array.getElem?_toList] at hi
  exact ⟨⟨i, x.serial⟩, get?_eq_some_iff.mpr hi⟩

/-- Mixing is exact. In any pool whose voices were started and changed by whatever there is to
change a voice, each side of a voice is calculated in words and goes no further than 32512 either
way, the sums fit a word after each voice, and the frame is the exact sum under the master volume,
cut off to 16 bits. -/
theorem mixing_is_exact (capacity : Nat) (actions : List Action)
    (played : ∀ v, .allocate v ∈ actions → v.IsPlayed) (bank : Bank) (volume : MasterVolume) :
    let p := (empty capacity).run actions
    (∀ v ∈ p.voices,
      (∀ volume pan, v.checkedSetMix volume pan = .ok (v.setMix volume pan)) ∧
      v.checkedOutput bank = .ok (v.output bank) ∧
      (-32512 ≤ (v.output bank).1 ∧ (v.output bank).1 ≤ 32512) ∧
      (-32512 ≤ (v.output bank).2 ∧ (v.output bank).2 ≤ 32512)) ∧
    (∀ n,
      (-2 ^ 31 ≤ (sums bank (p.voices.take n)).1 ∧ (sums bank (p.voices.take n)).1 < 2 ^ 31) ∧
      (-2 ^ 31 ≤ (sums bank (p.voices.take n)).2 ∧ (sums bank (p.voices.take n)).2 < 2 ^ 31)) ∧
    p.checkedFrame bank volume = .ok (p.render bank volume).1 ∧
    (p.render bank volume).1.left.toInt =
      max (-32768) (min ((sums bank p.voices).1 * volume.level / 256) 32767) ∧
    (p.render bank volume).1.right.toInt =
      max (-32768) (min ((sums bank p.voices).2 * volume.level / 256) 32767) := by
  intro p
  have leveled : ∀ v ∈ p.voices, v.Leveled := by
    intro v mem
    obtain ⟨h, found⟩ := exists_get?_of_mem_voices mem
    apply invariant_run leveled_onVoice _ _ found
    · simp
    · intro w mem
      exact (played w mem).leveled
  -- however large a pool was asked for, it has only so many slots
  have room : p.capacity ≤ greatestCapacity := by
    rw [capacity_run]
    exact (fits_empty capacity).capacity_le
  refine ⟨?_, ?_, checkedFrame_eq leveled room bank volume, ?_, ?_⟩
  · intro v mem
    have sound := leveled v mem
    exact ⟨Voice.checkedSetMix_eq sound, Voice.checkedOutput_eq bank sound,
      Voice.output_bounds bank sound⟩
  · intro n
    -- the first few voices are within the bounds of as many voices
    have some : ∀ v ∈ p.voices.take n, v.Leveled := by
      intro v mem
      exact leveled v (List.mem_of_mem_take mem)
    apply (withinVoices_sums bank some).in_word
    calc (p.voices.take n).length ≤ p.voices.length := List.length_take_le' _ _
      _ ≤ p.capacity := List.length_filterMap_le _ _
      _ ≤ greatestCapacity := room
  · rw [← output_eq_sums]
    exact Frame.toInt_nearest _
  · rw [← output_eq_sums]
    exact Frame.toInt_nearest _

/-- Three tones at full level on the left are louder together than a frame can be. -/
theorem mixing_is_exact_threeTones :
    let tone := (Voice.start (.named "tone" (.square .half)) 0 0 60 60 127
      (.start .linear ⟨255, 0, 255, 0⟩)).run {} [.adjust (.mix 127 (-64))]
    let p := (empty 4).run
      [.allocate tone, .allocate tone, .allocate tone, .adjustTrack 0 (.pitch 100 2 48000)]
    (sums {} p.voices).1 = 36576 ∧ p.checkedFrame {} .unity = .ok (p.render {} .unity).1 ∧
      (p.render {} .unity).1.left.toInt = 32767 ∧ (p.render {} .unity).1.right.toInt = 0 := by
  intro tone p
  obtain ⟨-, -, words, left, right⟩ := mixing_is_exact 4
    [.allocate tone, .allocate tone, .allocate tone, .adjustTrack 0 (.pitch 100 2 48000)]
    (by
      intro v mem
      have same : v = tone := by simpa using mem
      subst same
      exact ⟨_, _, _, _, _, _, _, _, _, rfl⟩)
    {} .unity
  -- three tones on the left are louder than a frame can be
  have total : sums {} p.voices = (36576, 0) := by decide +kernel
  refine ⟨by rw [total], words, left.trans ?_, right.trans ?_⟩
  · rw [total]
    decide
  · rw [total]
    decide

end VoicePool
end Chiptune
