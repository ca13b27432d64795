import Chiptune.Envelope
import Chiptune.Proofs.Checked.Basic

/-!
# Envelopes in words

The level of an envelope never leaves the span from silence to full level of its model
(`Envelope.Fits`). That is what keeps its products within 32 bits and its places within the tables
of curves.
-/

namespace Chiptune.Envelope

open Checked

/-! ## Calculations

Products are made in words of 32 bits and tables are read with a check. Which phase follows on which
is left to the plain envelope: that is no arithmetic. -/

def checkedAttackFactor (attack : UInt8) : Checked Nat :=
  let attack := min attack.toNat 127
  if attack < 109 then less 255 attack else do entry fastAttacks (← less 127 attack)

def checkedFallRate (rate : UInt8) : Checked Nat :=
  let rate := min rate.toNat 127
  if rate = 127 then return 0xFFFF
  else if rate = 126 then return 0x3C00
  else if rate < 50 then word 31 (2 * rate + 1)
  else do quotient 0x1E00 (← less 126 rate)

def checkedSustainLevel : EnvelopeModel → Adsr → Checked Int
  | .linear, adsr => return adsr.sustain.toNat
  | .attenuation, adsr => do
    let steps ← entry sustainSteps (min adsr.sustain.toNat 127)
    signed 32 (-(unitsPerStep * steps : Nat))

def checkedAttackLevel : EnvelopeModel → Adsr → Int → Checked Int
  | .linear, adsr, level => do return min (← signed 32 (level + adsr.attack.toNat)) linearMax
  | .attenuation, adsr, level => do
    let kept ← signed 64 (-level * (← checkedAttackFactor adsr.attack))
    signed 32 (-(kept / 256))

def checkedFallLevel : EnvelopeModel → (rate : UInt8) → Int → Checked Int
  | .linear, rate, level => do return (← signed 32 (level * rate.toNat)) / 256
  | .attenuation, rate, level => do signed 32 (level - (← checkedFallRate rate))

def checkedLinearGain (level : Int) : Checked Nat := do
  quotient (← word 32 ((max 0 (min level linearMax)).toNat * fullGain)) 255

def checkedAttenuationGain (level : Int) : Checked Nat :=
  if level ≤ floorLevel then return 0
  else if 0 ≤ level then return fullGain
  else entry gains (-(level / unitsPerStep)).toNat

def checkedGain (e : Envelope) : Checked Nat :=
  match e.phase, e.model with
  | .done, _ => return 0
  | _, .linear => checkedLinearGain e.level
  | _, .attenuation => checkedAttenuationGain e.level

def checkedNext (e : Envelope) : Checked Envelope := do
  let full := fullLevel e.model
  let held ← checkedSustainLevel e.model e.adsr
  let silent := silentLevel e.model
  match e.phase with
  | .attack =>
    let level ← checkedAttackLevel e.model e.adsr e.level
    if level < full then return { e with level := level }
    else if full ≤ held then return { e with level := full, phase := .sustain }
    else return { e with level := full, phase := .decay }
  | .decay =>
    let level ← checkedFallLevel e.model e.adsr.decay e.level
    if level ≤ held then return { e with level := held, phase := .sustain }
    else return { e with level := level }
  | .release =>
    let level ← checkedFallLevel e.model e.adsr.release e.level
    if level ≤ silent then return { e with level := silent, phase := .done }
    else return { e with level := level }
  | .sustain => return e
  | .done => return e

/-- The gain is worked out at each step, and only read between two of them. -/
def checkedStep (e : Envelope) : Checked Envelope := do
  let next ← checkedNext e
  let _ ← checkedGain next
  return next

def checkedStart (model : EnvelopeModel) (adsr : Adsr) : Checked Envelope :=
  checkedStep ⟨model, adsr, .attack, silentLevel model⟩

/-! ## The tables

What the tables hold is a matter of their entries, and short enough to be decided. The bounds are
what the products below need. -/

/-- The table has as many entries as it was asked for. -/
theorem length_fallingGains (count running : Nat) :
    (fallingGains count running).length = count := by
  induction count generalizing running with
  | zero => rfl
  | succ count ih => rw [fallingGains, List.length_cons, ih]

/-- There is a gain for every step of the attenuation, the last one for silence. -/
theorem size_gains : gains.size = floorStep + 1 := by
  rw [gains, List.size_toArray, length_fallingGains]

/-- No factor of a fast attack is above 255. -/
theorem fastAttacks_le {i : Nat} (h : i < 19) : fastAttacks.getD i 0 ≤ 255 := by
  revert i
  decide

/-- Nothing is sustained below the floor. -/
theorem sustainSteps_le {i : Nat} (h : i < 128) : sustainSteps.getD i 0 ≤ floorStep := by
  revert i
  decide +kernel

/-- The factor of an attack keeps less than all of the attenuation. -/
theorem attackFactor_le (attack : UInt8) : attackFactor attack ≤ 255 := by
  unfold attackFactor
  dsimp only
  split
  · omega
  · exact fastAttacks_le (by omega)

/-- The fastest fall is 65535 units in a step. -/
theorem fallRate_le (rate : UInt8) : fallRate rate ≤ 0xFFFF := by
  unfold fallRate
  dsimp only
  split
  · exact Nat.le_refl _
  · split
    · decide
    · split
      · omega
      · exact Nat.le_trans (Nat.div_le_self _ _) (by decide)

/-- The last nineteen attacks come from a table, and nothing is read behind its end. -/
theorem checkedAttackFactor_eq (attack : UInt8) :
    checkedAttackFactor attack = .ok (attackFactor attack) := by
  unfold checkedAttackFactor attackFactor
  dsimp only
  split
  · exact less_eq (by omega)
  · rw [less_eq (by omega), ok_bind]
    exact entry_eq_getD (show _ < 19 by omega) 0

/-- The divisor would be 0 at a rate of 126, which is a case of its own. -/
theorem checkedFallRate_eq (rate : UInt8) : checkedFallRate rate = .ok (fallRate rate) := by
  unfold checkedFallRate fallRate
  dsimp only
  split
  · rfl
  · split
    · rfl
    · split
      · exact word_eq (by omega)
      · rw [less_eq (by omega), ok_bind, quotient_eq (by omega)]

/-! ## Levels

The invariant of an envelope. It holds at the start and is kept by each step and by a release,
whichever the phase. -/

/-- The level lies between silence and full level. -/
structure Fits (e : Envelope) : Prop where
  low : silentLevel e.model ≤ e.level
  high : e.level ≤ fullLevel e.model

variable {e : Envelope} {model : EnvelopeModel}

/-- Silence is below full level in either model. -/
theorem silentLevel_le_fullLevel (model : EnvelopeModel) : silentLevel model ≤ fullLevel model := by
  cases model <;> decide

/-- What is sustained lies between the two. -/
theorem sustainLevel_bounds (model : EnvelopeModel) (adsr : Adsr) :
    silentLevel model ≤ sustainLevel model adsr ∧ sustainLevel model adsr ≤ fullLevel model := by
  cases model with
  | linear =>
    have := adsr.sustain.toNat_lt
    simp only [silentLevel, sustainLevel, fullLevel, linearMax]
    omega
  | attenuation =>
    have := @sustainSteps_le (min adsr.sustain.toNat 127) (by omega)
    simp only [silentLevel, sustainLevel, fullLevel, sustainAttenuation, floorLevel, unitsPerStep,
      floorStep] at this ⊢
    omega

/-- An attack never goes down below silence. -/
theorem attackLevel_low (adsr : Adsr) {level : Int} (low : silentLevel model ≤ level)
    (high : level ≤ fullLevel model) : silentLevel model ≤ attackLevel model adsr level := by
  cases model with
  | linear =>
    simp only [silentLevel, attackLevel, linearMax] at *
    omega
  | attenuation =>
    simp only [silentLevel, attackLevel, fullLevel, floorLevel] at *
    -- what is kept is at most 255 parts of 256
    have factor : -level * attackFactor adsr.attack ≤ -level * 255 :=
      Int.mul_le_mul_of_nonneg_left (Int.ofNat_le.mpr (attackFactor_le adsr.attack)) (by omega)
    omega

/-- A fall never goes up above full level. -/
theorem fallLevel_high (rate : UInt8) {level : Int} (low : silentLevel model ≤ level)
    (high : level ≤ fullLevel model) : fallLevel model rate level ≤ fullLevel model := by
  cases model with
  | linear =>
    have hrate := rate.toNat_lt
    have factor : level * rate.toNat ≤ level * 256 :=
      Int.mul_le_mul_of_nonneg_left (by omega) low
    simp only [fallLevel, fullLevel, linearMax] at *
    omega
  | attenuation =>
    simp only [fallLevel, fullLevel] at *
    omega

namespace Fits

/-- An attack that comes to the top stays there. -/
theorem stepAttack (h : e.Fits) : e.stepAttack.Fits := by
  have low := attackLevel_low e.adsr h.low h.high
  have span := silentLevel_le_fullLevel e.model
  unfold Envelope.stepAttack
  dsimp only
  split
  · next rising => exact ⟨low, Int.le_of_lt rising⟩
  · split <;> exact ⟨span, Int.le_refl _⟩

/-- A decay stops at the level that is sustained. -/
theorem stepDecay (h : e.Fits) : e.stepDecay.Fits := by
  have high := fallLevel_high e.adsr.decay h.low h.high
  obtain ⟨bottom, top⟩ := sustainLevel_bounds e.model e.adsr
  unfold Envelope.stepDecay
  dsimp only
  split
  · exact ⟨bottom, top⟩
  · next falling => exact ⟨Int.le_trans bottom (Int.le_of_lt (Int.not_le.mp falling)), high⟩

/-- A release stops at silence. -/
theorem stepRelease (h : e.Fits) : e.stepRelease.Fits := by
  have high := fallLevel_high e.adsr.release h.low h.high
  unfold Envelope.stepRelease
  dsimp only
  split
  · exact ⟨Int.le_refl _, silentLevel_le_fullLevel e.model⟩
  · next falling => exact ⟨Int.le_of_lt (Int.not_le.mp falling), high⟩

/-- Each phase has its own step, and two of them have none. -/
theorem step (h : e.Fits) : e.step.Fits := by
  unfold Envelope.step
  cases e.phase with
  | attack => exact h.stepAttack
  | decay => exact h.stepDecay
  | sustain => exact h
  | release => exact h.stepRelease
  | done => exact h

theorem start (model : EnvelopeModel) (adsr : Adsr) : (Envelope.start model adsr).Fits :=
  step ⟨Int.le_refl _, silentLevel_le_fullLevel model⟩

/-- A linear release of rate zero is over at once, and its level is silence. -/
theorem release (h : e.Fits) : e.release.Fits := by
  unfold Envelope.release
  split
  · exact h
  · split
    · next silenced =>
      constructor
      · simp [silentLevel, silenced.1]
      · simp [fullLevel, linearMax, silenced.1]
    · exact ⟨h.low, h.high⟩

end Fits

/-! ## The results of the calculations

Under the invariant each calculation gives what the plain definition gives. The last lemmas put a
step and a start together. -/

/-- The level of an attenuation is negative, so it is calculated with a sign. -/
theorem checkedSustainLevel_eq (model : EnvelopeModel) (adsr : Adsr) :
    checkedSustainLevel model adsr = .ok (sustainLevel model adsr) := by
  cases model with
  | linear => rfl
  | attenuation =>
    obtain ⟨low, high⟩ := sustainLevel_bounds .attenuation adsr
    simp only [silentLevel, fullLevel, sustainLevel, sustainAttenuation, floorLevel] at low high
    simp only [checkedSustainLevel, sustainLevel, sustainAttenuation]
    rw [entry_eq_getD (show _ < 128 by omega) 0, ok_bind, signed_eq (by omega) (by omega)]

/-- What an attack keeps of an attenuation is worked out with a sign, and is never more. -/
theorem checkedAttackLevel_eq (adsr : Adsr) {level : Int} (low : silentLevel model ≤ level)
    (high : level ≤ fullLevel model) :
    checkedAttackLevel model adsr level = .ok (attackLevel model adsr level) := by
  cases model with
  | linear =>
    have hattack := adsr.attack.toNat_lt
    simp only [silentLevel, fullLevel, linearMax, checkedAttackLevel, attackLevel] at *
    rw [signed_eq (by omega) (by omega), ok_bind, pure_eq]
  | attenuation =>
    simp only [silentLevel, fullLevel, floorLevel, checkedAttackLevel, attackLevel] at *
    have factor : -level * attackFactor adsr.attack ≤ -level * 255 :=
      Int.mul_le_mul_of_nonneg_left (Int.ofNat_le.mpr (attackFactor_le adsr.attack)) (by omega)
    have nonneg : 0 ≤ -level * attackFactor adsr.attack :=
      Int.mul_nonneg (by omega) (Int.natCast_nonneg _)
    rw [checkedAttackFactor_eq, ok_bind, signed_eq (by omega) (by omega), ok_bind,
      signed_eq (by omega) (by omega)]

/-- A linear level has 8 bits, and so has its rate. -/
theorem checkedFallLevel_eq (rate : UInt8) {level : Int} (low : silentLevel model ≤ level)
    (high : level ≤ fullLevel model) :
    checkedFallLevel model rate level = .ok (fallLevel model rate level) := by
  cases model with
  | linear =>
    simp only [silentLevel, fullLevel, linearMax, checkedFallLevel, fallLevel] at *
    have hrate := rate.toNat_lt
    have factor : level * rate.toNat ≤ level * 256 := Int.mul_le_mul_of_nonneg_left (by omega) low
    have nonneg : 0 ≤ level * rate.toNat := Int.mul_nonneg low (Int.natCast_nonneg _)
    rw [signed_eq (by omega) (by omega), ok_bind, pure_eq]
  | attenuation =>
    have hrate := fallRate_le rate
    simp only [silentLevel, fullLevel, floorLevel, checkedFallLevel, fallLevel] at *
    rw [checkedFallRate_eq, ok_bind, signed_eq (by omega) (by omega)]

/-- The level is clamped before it is multiplied. -/
theorem checkedLinearGain_eq (level : Int) : checkedLinearGain level = .ok (linearGain level) := by
  unfold checkedLinearGain linearGain linearMax fullGain
  rw [word_eq (by omega), ok_bind, quotient_eq (by decide)]

/-- Above the floor there is an entry for every level. -/
theorem checkedAttenuationGain_eq (level : Int) :
    checkedAttenuationGain level = .ok (attenuationGain level) := by
  unfold checkedAttenuationGain attenuationGain
  split
  · rfl
  · next audible =>
    split
    · rfl
    · refine entry_eq_getD ?_ 0
      unfold floorLevel at audible
      rw [size_gains, floorStep, unitsPerStep]
      omega

/-- The gain of any envelope comes out, even of one that does not fit. -/
theorem checkedGain_eq (e : Envelope) : checkedGain e = .ok e.gain := by
  obtain ⟨model, adsr, phase, level⟩ := e
  cases phase with
  | done => rfl
  | _ =>
    cases model with
    | linear => exact checkedLinearGain_eq level
    | attenuation => exact checkedAttenuationGain_eq level

/-- Each step begins with the level that is sustained, whatever the phase. -/
theorem checkedNext_eq (h : e.Fits) : checkedNext e = .ok e.step := by
  obtain ⟨model, adsr, phase, level⟩ := e
  obtain ⟨low, high⟩ := h
  dsimp only at low high
  unfold checkedNext step
  rw [checkedSustainLevel_eq, ok_bind]
  cases phase with
  | attack =>
    dsimp only
    rw [checkedAttackLevel_eq adsr low high, ok_bind]
    unfold stepAttack
    dsimp only
    split
    · rfl
    · split <;> rfl
  | decay =>
    dsimp only
    rw [checkedFallLevel_eq adsr.decay low high, ok_bind]
    unfold stepDecay
    dsimp only
    split <;> rfl
  | release =>
    dsimp only
    rw [checkedFallLevel_eq adsr.release low high, ok_bind]
    unfold stepRelease
    dsimp only
    split <;> rfl
  | sustain => rfl
  | done => rfl

theorem checkedStep_eq (h : e.Fits) : checkedStep e = .ok e.step := by
  rw [checkedStep, checkedNext_eq h, ok_bind, checkedGain_eq, ok_bind, pure_eq]

/-- An envelope starts with a step from silence. -/
theorem checkedStart_eq (model : EnvelopeModel) (adsr : Adsr) :
    checkedStart model adsr = .ok (start model adsr) :=
  checkedStep_eq ⟨Int.le_refl _, silentLevel_le_fullLevel model⟩

end Chiptune.Envelope
