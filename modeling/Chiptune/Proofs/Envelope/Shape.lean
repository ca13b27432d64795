import Chiptune.Proofs.Envelope.Moves

/-!
# The shape of an envelope

An envelope gets louder until its attack is over and never after that: its phases come in their
order, its gain does not fall while it is attacked and does not rise from then on, and it ends in
silence (`Envelope.rises_then_falls`).

This is a matter of levels first, where `Envelope.Moves` tells the direction. From levels to gains
it is carried by a map that never goes down (`Envelope.levelGain_mono`): for the linear model by its
quotient, for the other one by a table whose entries only fall.
-/

namespace Chiptune

/-- The place of a phase in the course of an envelope. -/
def EnvelopePhase.rank : EnvelopePhase → Nat
  | attack => 0
  | decay => 1
  | sustain => 2
  | release => 3
  | done => 4

namespace Envelope

variable {e e' : Envelope} {model : EnvelopeModel} {event : Event}

/-! ## Gains of levels

In both models a higher level has a higher gain. In the linear one the gain is a multiple of the
level, in the other it is looked up in a table, whose entries fall from full gain to silence. -/

/-- The gain of a level, for a voice that is not over yet. -/
def levelGain : EnvelopeModel → Int → Nat
  | .linear, level => linearGain level
  | .attenuation, level => attenuationGain level

/-- The gain is that of the level, until the envelope is done. -/
theorem gain_eq_levelGain (sounding : e.phase ≠ .done) : e.gain = levelGain e.model e.level := by
  obtain ⟨model, adsr, phase, level⟩ := e
  cases phase with
  | done => exact absurd rfl sounding
  | _ => cases model <;> rfl

/-- What is left of a running gain is no more than it was. -/
theorem le_of_mem_fallingGains {count running gain : Nat}
    (mem : gain ∈ fallingGains count running) : gain ≤ running / 0x10000 := by
  induction count generalizing running with
  | zero => cases mem
  | succ count ih =>
    rw [fallingGains, List.mem_cons] at mem
    rcases mem with rfl | mem
    · exact Nat.le_refl _
    · have smaller : running * stepRatio / 0x100000000 ≤ running := by
        apply Nat.div_le_of_le_mul
        rw [Nat.mul_comm]
        apply Nat.mul_le_mul_right
        decide
      exact Nat.le_trans (ih mem) (Nat.div_le_div_right smaller)

theorem pairwise_fallingGains (count running : Nat) :
    (fallingGains count running).Pairwise (· ≥ ·) := by
  induction count generalizing running with
  | zero => exact .nil
  | succ count ih =>
    rw [fallingGains, List.pairwise_cons]
    refine ⟨?_, ih _⟩
    intro gain mem
    have below : gain ∈ fallingGains (count + 1) running := List.mem_cons_of_mem _ mem
    exact le_of_mem_fallingGains below

/-- Further down in the table of gains nothing is greater, and behind its end there is silence. -/
theorem getD_gains_le {i j : Nat} (le : i ≤ j) : gains.getD j 0 ≤ gains.getD i 0 := by
  have falling := List.pairwise_iff_getElem.mp (pairwise_fallingGains (floorStep + 1) 0x80000000)
  have length := length_fallingGains (floorStep + 1) 0x80000000
  simp only [gains, Array.getD_eq_getD_getElem?, List.getElem?_toArray]
  rcases Nat.lt_or_ge j (floorStep + 1) with inside | behind
  · rcases Nat.eq_or_lt_of_le le with rfl | lt
    · exact Nat.le_refl _
    · rw [List.getElem?_eq_getElem (by omega), List.getElem?_eq_getElem (by omega)]
      exact falling i j (by omega) (by omega) lt
  · rw [List.getElem?_eq_none (by omega)]
    exact Nat.zero_le _

theorem getD_gains_zero : gains.getD 0 0 = fullGain := by
  simp [gains, fallingGains, fullGain]

theorem attenuationGain_le (level : Int) : attenuationGain level ≤ fullGain := by
  unfold attenuationGain
  split
  · exact Nat.zero_le _
  · split
    · exact Nat.le_refl _
    · rw [← getD_gains_zero]
      exact getD_gains_le (Nat.zero_le _)

/-- In the linear model a higher level is louder. -/
theorem linearGain_mono {a b : Int} (le : a ≤ b) : linearGain a ≤ linearGain b := by
  unfold linearGain
  apply Nat.div_le_div_right
  apply Nat.mul_le_mul_right
  omega

/-- In the attenuation model a level that is nearer to zero is louder. -/
theorem attenuationGain_mono {a b : Int} (le : a ≤ b) : attenuationGain a ≤ attenuationGain b := by
  by_cases silent : a ≤ floorLevel
  · simp [attenuationGain, silent]
  · by_cases full : 0 ≤ b
    · have audible : ¬ b ≤ floorLevel := by omega
      have atTop : attenuationGain b = fullGain := by simp [attenuationGain, audible, full]
      rw [atTop]
      exact attenuationGain_le a
    · -- both are looked up, the lower level further down
      have hb : ¬ b ≤ floorLevel := by omega
      have ha : ¬ 0 ≤ a := by omega
      simp only [attenuationGain, silent, full, ha, hb, if_false]
      apply getD_gains_le
      simp only [unitsPerStep]
      omega

/-- In both models the gain grows with the level. -/
theorem levelGain_mono (model : EnvelopeModel) {a b : Int} (le : a ≤ b) :
    levelGain model a ≤ levelGain model b := by
  cases model with
  | linear => exact linearGain_mono le
  | attenuation => exact attenuationGain_mono le

theorem levelGain_le (model : EnvelopeModel) (level : Int) : levelGain model level ≤ fullGain := by
  cases model with
  | linear =>
    simp only [levelGain, linearGain, linearMax, fullGain]
    omega
  | attenuation => exact attenuationGain_le level

/-- No gain exceeds the full one. -/
theorem gain_le (e : Envelope) : e.gain ≤ fullGain := by
  by_cases done : e.phase = .done
  · simp [done]
  · rw [gain_eq_levelGain done]
    exact levelGain_le e.model e.level

/-- Where a level is looked up at all, the table has an entry for it. -/
theorem place_lt_size_gains {level : Int} (audible : floorLevel < level) :
    (-(level / unitsPerStep)).toNat < gains.size := by
  rw [size_gains]
  simp only [floorLevel, unitsPerStep, floorStep] at *
  omega

/-! ## Each move

Ranks put the phases in their order, and a move goes to the same rank or to a later one. Level and
gain go up while the rank is that of the attack, and down from then on. -/

/-- No move leads back to an earlier phase. -/
theorem Moves.rank_le (m : e.Moves event e') : e.phase.rank ≤ e'.phase.rank := by
  have released : ∀ phase : EnvelopePhase, phase.rank ≤ 4 := by
    intro phase
    cases phase <;> decide
  have unreleased : ¬ e.IsReleased → e.phase.rank ≤ 3 := by
    intro unreleased
    cases h : e.phase <;> simp_all [IsReleased, EnvelopePhase.rank]
  cases m with
  | lets held => exact unreleased held
  | stops held => exact released e.phase
  | peaks attacking => simp [attacking, EnvelopePhase.rank]
  | stays attacking => simp [attacking, EnvelopePhase.rank]
  | settles decaying => simp [decaying, EnvelopePhase.rank]
  | dies => exact released e.phase
  | _ => exact Nat.le_refl _

/-- In its attack an envelope only goes up. -/
theorem Moves.level_le (m : e.Moves .step e') (fits : e.Fits) (attacking : e.phase = .attack) :
    e.level ≤ e'.level ∧ e'.phase ≠ .done := by
  cases m with
  | rises _ up => exact ⟨up, by simp [attacking]⟩
  | peaks => exact ⟨fits.high, by simp⟩
  | stays => exact ⟨fits.high, by simp⟩
  | _ => simp_all

/-- From then on it only goes down. -/
theorem Moves.le_level (m : e.Moves event e') (shaped : e.Shaped)
    (past : e.phase ≠ .attack ∨ event = .release) : e'.level ≤ e.level := by
  cases m with
  | rises attacking => simp [attacking] at past
  | peaks attacking => simp [attacking] at past
  | stays attacking => simp [attacking] at past
  | falls _ down => exact Int.le_of_lt down
  | settles decaying => exact Int.le_of_lt (shaped.decaying decaying)
  | fades _ down => exact Int.le_of_lt down
  | dies => exact shaped.low
  | stops _ linear =>
    have low := shaped.low
    rw [linear] at low
    exact low
  | _ => exact Int.le_refl _

/-- In the attack a step does not lower the gain. -/
theorem Moves.gain_le (m : e.Moves .step e') (fits : e.Fits) (attacking : e.phase = .attack) :
    e.gain ≤ e'.gain := by
  obtain ⟨up, sounding⟩ := m.level_le fits attacking
  rw [gain_eq_levelGain (by simp [attacking]), gain_eq_levelGain sounding, m.kind_eq.1]
  exact levelGain_mono e.model up

/-- After the attack a step does not raise the gain, and a release never does. -/
theorem Moves.le_gain (m : e.Moves event e') (shaped : e.Shaped)
    (past : e.phase ≠ .attack ∨ event = .release) : e'.gain ≤ e.gain := by
  by_cases ended : e'.phase = .done
  · simp [ended]
  · have sounding : e.phase ≠ .done := by
      intro done
      have rank := m.rank_le
      revert ended rank
      rw [done]
      cases e'.phase <;> simp [EnvelopePhase.rank]
    rw [gain_eq_levelGain ended, gain_eq_levelGain sounding, m.kind_eq.1]
    exact levelGain_mono e.model (m.le_level shaped past)

/-! ## Every run

What each move keeps is kept by a run of any events. -/

/-- While a note is sustained, its gain is that of the sustain level. -/
theorem gain_eq_of_sustain (shaped : e.Shaped) (sustaining : e.phase = .sustain) :
    e.gain = levelGain e.model (sustainLevel e.model e.adsr) := by
  rw [gain_eq_levelGain (by simp [sustaining]), shaped.sustaining sustaining]

/-- What is done stays done. -/
theorem phase_run_of_done (done : e.phase = .done) (events : List Event) :
    (e.run events).phase = .done := by
  induction events generalizing e with
  | nil => exact done
  | cons event events ih =>
    apply ih
    cases event with
    | step => simp [react, done]
    | release => simp [react, release, IsReleased, done]

/-- An envelope rises and then falls. Whatever has happened to it since its start, its level lies
between silence and full level, its gain is found in the table and is not above full gain, is that
of the sustain level throughout the sustain, and is zero for ever once the envelope is done. And
whatever happens to it next, its phase does not go back; a step in the attack does not lower its
gain, and nothing else raises it. -/
theorem rises_then_falls (model : EnvelopeModel) (adsr : Adsr) (events : List Event) :
    let e := (start model adsr).run events
    (silentLevel model ≤ e.level ∧ e.level ≤ fullLevel model) ∧
    (model = .attenuation → floorLevel < e.level → e.level < 0 →
      (-(e.level / unitsPerStep)).toNat < gains.size) ∧
    e.gain ≤ fullGain ∧
    (e.phase = .sustain → e.gain = levelGain model (sustainLevel model adsr)) ∧
    (e.phase = .done → ∀ later, ((start model adsr).run (events ++ later)).gain = 0) ∧
    ∀ event,
      let next := (start model adsr).run (events ++ [event])
      e.phase.rank ≤ next.phase.rank ∧
      (e.phase = .attack → event = .step → e.gain ≤ next.gain) ∧
      (e.phase ≠ .attack ∨ event = .release → next.gain ≤ e.gain) := by
  intro e
  -- every envelope that is reached is shaped, and of the kind that it started with
  have started := Shaped.start model adsr
  have shaped : e.Shaped := started.run events
  obtain ⟨model_eq, adsr_eq⟩ : e.model = model ∧ e.adsr = adsr := by
    obtain ⟨sameModel, sameAdsr⟩ := kind_run started events
    exact ⟨sameModel.trans (kind_start model adsr).1, sameAdsr.trans (kind_start model adsr).2⟩
  refine ⟨?_, ?_, gain_le e, ?_, ?_, ?_⟩
  · rw [← model_eq]
    exact ⟨shaped.low, shaped.high⟩
  · intro _ audible _
    exact place_lt_size_gains audible
  · intro sustaining
    rw [gain_eq_of_sustain shaped sustaining, model_eq, adsr_eq]
  · intro done later
    rw [run_append]
    exact gain_of_done (phase_run_of_done done later)
  · intro event next
    have moves : e.Moves event next := by
      -- one more event is one move
      have same : next = e.react event := run_append _ events [event]
      rw [same]
      exact moves_react shaped.toFits event
    refine ⟨moves.rank_le, ?_, moves.le_gain shaped⟩
    intro attacking stepped
    subst stepped
    exact moves.gain_le shaped.toFits attacking

/-- An attenuation envelope that is attacked slowly, held for a while and then released. -/
theorem rises_then_falls_plucked :
    let plucked := start .attenuation ⟨110, 120, 64, 126⟩
    let rising := [Event.step]
    let held := List.replicate 40 Event.step
    let ended := held ++ .release :: List.replicate 9 .step
    ((plucked.run rising).phase = .attack ∧
      (-((plucked.run rising).level / unitsPerStep)).toNat < gains.size ∧
      (plucked.run rising).gain ≤ (plucked.run (rising ++ [.step])).gain) ∧
    ((plucked.run held).phase = .sustain ∧
      (plucked.run held).gain = levelGain .attenuation (-15232) ∧
      (plucked.run (held ++ [.release])).gain ≤ (plucked.run held).gain) ∧
    (plucked.run ended).phase = .done ∧ (plucked.run (ended ++ [.release, .step])).gain = 0 := by
  intro plucked rising held ended
  have attacking : (plucked.run rising).phase = .attack := by decide +kernel
  have sustaining : (plucked.run held).phase = .sustain := by decide +kernel
  have level : sustainLevel .attenuation ⟨110, 120, 64, 126⟩ = -15232 := by decide +kernel
  have done : (plucked.run ended).phase = .done := by decide +kernel
  -- the statement is used at three places: in the attack, at sustain, and at the end
  obtain ⟨-, found, -, -, -, next⟩ := rises_then_falls .attenuation ⟨110, 120, 64, 126⟩ rising
  obtain ⟨-, -, -, steady, -, next'⟩ := rises_then_falls .attenuation ⟨110, 120, 64, 126⟩ held
  obtain ⟨-, -, -, -, silent, -⟩ := rises_then_falls .attenuation ⟨110, 120, 64, 126⟩ ended
  refine ⟨⟨attacking, ?_, ?_⟩, ⟨sustaining, ?_, ?_⟩, done, ?_⟩
  · exact found rfl (by decide +kernel) (by decide +kernel)
  · exact (next .step).2.1 attacking rfl
  · rw [steady sustaining, level]
  · exact (next' .release).2.2 (Or.inr rfl)
  · exact silent done _

end Envelope
end Chiptune
