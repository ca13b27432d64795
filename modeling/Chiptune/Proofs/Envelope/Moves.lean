import Chiptune.Proofs.Checked.Envelope

/-!
# How an envelope moves

Both models keep to one plan: an attack goes up to full level, a decay down to the sustain level, a
release down to silence. `Envelope.Moves` lists the moves of that plan, and whatever happens to an
envelope is one of them (`Envelope.moves_react`). What is said of envelopes elsewhere is read off
this list, and not off the products and tables that the levels come from.

Each move has its direction strictly, but for one case: a linear attack of rate zero stays in
silence for ever (`Envelope.IsStuck`).
-/

namespace Chiptune.Envelope

variable {e e' : Envelope} {model : EnvelopeModel} {level : Int}

/-! ## Levels

How the level changes in one step of each phase. The only step that does not move it on is that of a
linear attack of rate zero. -/

/-- The attack of the envelope never gets anywhere. -/
def IsStuck (e : Envelope) : Prop := e.model = .linear ∧ e.adsr.attack = 0

instance (e : Envelope) : Decidable e.IsStuck := inferInstanceAs (Decidable (_ ∧ _))

/-- Short of full level, an attack goes up. -/
theorem lt_attackLevel {adsr : Adsr} (high : level ≤ fullLevel model)
    (below : attackLevel model adsr level < fullLevel model)
    (unstuck : ¬ (model = .linear ∧ adsr.attack = 0)) : level < attackLevel model adsr level := by
  cases model with
  | linear =>
    have rate : adsr.attack.toNat ≠ 0 := by
      intro zero
      apply unstuck
      exact ⟨rfl, UInt8.toNat_inj.mp zero⟩
    simp only [attackLevel, fullLevel] at *
    omega
  | attenuation =>
    simp only [attackLevel, fullLevel] at *
    have factor : -level * attackFactor adsr.attack ≤ -level * 255 := by
      apply Int.mul_le_mul_of_nonneg_left
      · exact Int.ofNat_le.mpr (attackFactor_le adsr.attack)
      · omega
    omega

/-- Even one that is stuck does not come down. -/
theorem le_attackLevel {adsr : Adsr} (high : level ≤ fullLevel model)
    (below : attackLevel model adsr level < fullLevel model) :
    level ≤ attackLevel model adsr level := by
  by_cases stuck : model = .linear ∧ adsr.attack = 0
  · obtain ⟨rfl, -⟩ := stuck
    simp only [attackLevel, fullLevel] at *
    omega
  · exact Int.le_of_lt (lt_attackLevel high below stuck)

theorem fallRate_pos (rate : UInt8) : 0 < fallRate rate := by
  unfold fallRate
  dsimp only
  split
  · decide
  · split
    · decide
    · split
      · omega
      · apply Nat.div_pos
        · omega
        · omega

/-- Short of silence, a fall goes down. -/
theorem fallLevel_lt (rate : UInt8) (low : silentLevel model ≤ level)
    (audible : silentLevel model < fallLevel model rate level) :
    fallLevel model rate level < level := by
  cases model with
  | linear =>
    have small := rate.toNat_lt
    have factor : level * rate.toNat ≤ level * 255 := by
      apply Int.mul_le_mul_of_nonneg_left
      · omega
      · exact low
    simp only [silentLevel, fallLevel] at *
    omega
  | attenuation =>
    have pos := fallRate_pos rate
    simp only [fallLevel]
    omega

/-! ## What happens to an envelope

Steps and releases in any order. The envelopes that matter are those that can be reached from a
start by these events. -/

/-- An envelope is stepped, and sooner or later released. -/
inductive Event
  | step
  | release
  deriving DecidableEq, Repr

def react (e : Envelope) : Event → Envelope
  | .step => e.step
  | .release => e.release

/-- The envelope after some events, one after the other. -/
def run (e : Envelope) (events : List Event) : Envelope := events.foldl react e

theorem run_append (e : Envelope) (events later : List Event) :
    e.run (events ++ later) = (e.run events).run later :=
  List.foldl_append

/-- The envelope has come from its start through steps and releases. -/
def IsReached (e : Envelope) : Prop :=
  ∃ model adsr events, e = (start model adsr).run events

theorem isReached_start (model : EnvelopeModel) (adsr : Adsr) : (start model adsr).IsReached :=
  ⟨model, adsr, [], rfl⟩

/-! ## Moves

`Moves` has one constructor for each thing that an event can make of an envelope, with what is known
of the level there. The lemmas about shapes and endings split a step along these constructors and
never unfold it. -/

/-- What one event can make of an envelope. -/
inductive Moves (e : Envelope) : Event → Envelope → Prop
  /-- Only an attack that is stuck stays at its level. -/
  | rises {level : Int} (attacking : e.phase = .attack) (up : e.level ≤ level)
      (further : ¬ e.IsStuck → e.level < level) (below : level < fullLevel e.model) :
      Moves e .step { e with level }
  /-- The attack has come to full level. -/
  | peaks (attacking : e.phase = .attack)
      (above : sustainLevel e.model e.adsr < fullLevel e.model) :
      Moves e .step { e with level := fullLevel e.model, phase := .decay }
  /-- The sustain level is full level, so there is no decay. -/
  | stays (attacking : e.phase = .attack)
      (full : sustainLevel e.model e.adsr = fullLevel e.model) :
      Moves e .step { e with level := fullLevel e.model, phase := .sustain }
  /-- The decay is not over. -/
  | falls {level : Int} (decaying : e.phase = .decay) (down : level < e.level)
      (above : sustainLevel e.model e.adsr < level) : Moves e .step { e with level }
  /-- The decay is over. -/
  | settles (decaying : e.phase = .decay) :
      Moves e .step { e with level := sustainLevel e.model e.adsr, phase := .sustain }
  /-- A sustained level is held for any time. -/
  | holds (sustaining : e.phase = .sustain) : Moves e .step e
  /-- The release is not over. -/
  | fades {level : Int} (releasing : e.phase = .release) (down : level < e.level)
      (audible : silentLevel e.model < level) : Moves e .step { e with level }
  /-- The release is over, and so is the envelope. -/
  | dies (releasing : e.phase = .release) :
      Moves e .step { e with level := silentLevel e.model, phase := .done }
  /-- Nothing steps any more. -/
  | rests (done : e.phase = .done) : Moves e .step e
  /-- The release begins. -/
  | lets (unreleased : ¬ e.IsReleased) : Moves e .release { e with phase := .release }
  /-- In the linear model a release may be over at once. -/
  | stops (unreleased : ¬ e.IsReleased) (linear : e.model = .linear) :
      Moves e .release { e with phase := .done, level := 0 }
  /-- A second release changes nothing. -/
  | ignores (released : e.IsReleased) : Moves e .release e

/-- In the attack a step climbs, or arrives at full level and goes over to decay or sustain. -/
theorem moves_stepAttack (fits : e.Fits) (attacking : e.phase = .attack) :
    e.Moves .step e.stepAttack := by
  have top := (sustainLevel_bounds e.model e.adsr).2
  simp only [stepAttack]
  split
  · next below =>
    apply Moves.rises attacking (le_attackLevel fits.high below) _ below
    intro unstuck
    exact lt_attackLevel fits.high below unstuck
  · split
    · next full => exact .stays attacking (Int.le_antisymm top full)
    · next above => exact .peaks attacking (Int.not_le.mp above)

/-- In the decay a step falls towards the sustain level and settles there. -/
theorem moves_stepDecay (fits : e.Fits) (decaying : e.phase = .decay) :
    e.Moves .step e.stepDecay := by
  have bottom := (sustainLevel_bounds e.model e.adsr).1
  simp only [stepDecay]
  split
  · exact .settles decaying
  · next above =>
    have above := Int.not_le.mp above
    have audible := Int.lt_of_le_of_lt bottom above
    exact .falls decaying (fallLevel_lt e.adsr.decay fits.low audible) above

/-- In the release a step fades the level, until it is silent and the envelope is done. -/
theorem moves_stepRelease (fits : e.Fits) (releasing : e.phase = .release) :
    e.Moves .step e.stepRelease := by
  simp only [stepRelease]
  split
  · exact .dies releasing
  · next above =>
    have audible := Int.not_le.mp above
    exact .fades releasing (fallLevel_lt e.adsr.release fits.low audible) audible

/-- A release does nothing to an envelope that is released or done, and ends every other phase. -/
theorem moves_release (e : Envelope) : e.Moves .release e.release := by
  unfold release
  split
  · next released => exact .ignores released
  · next unreleased =>
    split
    · next silenced => exact .stops unreleased silenced.1
    · exact .lets unreleased

/-- Whatever happens to an envelope is one of these moves. -/
theorem moves_react (fits : e.Fits) (event : Event) : e.Moves event (e.react event) := by
  cases event with
  | step =>
    unfold react step
    dsimp only
    split
    · next attacking => exact moves_stepAttack fits attacking
    · next decaying => exact moves_stepDecay fits decaying
    · next sustaining => exact .holds sustaining
    · next releasing => exact moves_stepRelease fits releasing
    · next done => exact .rests done
  | release => exact moves_release e

variable {event : Event}

/-- No move leads over to another model or to other rates. -/
theorem Moves.kind_eq (m : e.Moves event e') : e'.model = e.model ∧ e'.adsr = e.adsr := by
  cases m <;> exact ⟨rfl, rfl⟩

/-! ## What every run keeps -/

/-- The level lies in its span; in a decay it is above the sustain level, and then at it. -/
structure Shaped (e : Envelope) : Prop extends e.Fits where
  /-- A decay that has come to the sustain level is no decay any more. -/
  decaying : e.phase = .decay → sustainLevel e.model e.adsr < e.level
  sustaining : e.phase = .sustain → e.level = sustainLevel e.model e.adsr

namespace Shaped

/-- A step or a release leaves the level in the range that its phase allows. -/
theorem react (h : e.Shaped) (event : Event) : (e.react event).Shaped := by
  have fits : (e.react event).Fits := by
    cases event with
    | step => exact h.toFits.step
    | release => exact h.toFits.release
  -- what has to be shown follows from the kind of move that the event was
  have moves := moves_react h.toFits event
  generalize e.react event = e' at fits moves
  refine ⟨fits, ?_, ?_⟩
  · intro decaying
    cases moves with
    | peaks _ above => exact above
    | falls _ _ above => exact above
    | ignores => exact h.decaying decaying
    | _ => simp_all
  · intro sustaining
    cases moves with
    | stays _ full => exact full.symm
    | settles => rfl
    | holds => exact h.sustaining sustaining
    | ignores => exact h.sustaining sustaining
    | _ => simp_all

/-- After any events the level is in the range that its phase allows. -/
theorem run (h : e.Shaped) (events : List Event) : (e.run events).Shaped := by
  induction events generalizing e with
  | nil => exact h
  | cons event events ih => exact ih (h.react event)

theorem start (model : EnvelopeModel) (adsr : Adsr) : (start model adsr).Shaped := by
  refine react ?_ .step
  refine ⟨⟨Int.le_refl _, silentLevel_le_fullLevel model⟩, ?_, ?_⟩
  · intro decaying
    cases decaying
  · intro sustaining
    cases sustaining

end Shaped

/-- Every envelope that can be reached has its level in the range that its phase allows. -/
theorem IsReached.shaped (reached : e.IsReached) : e.Shaped := by
  obtain ⟨model, adsr, events, rfl⟩ := reached
  exact (Shaped.start model adsr).run events

/-- The model and the rates of an envelope are those that it was started with. -/
theorem kind_run (h : e.Shaped) (events : List Event) :
    (e.run events).model = e.model ∧ (e.run events).adsr = e.adsr := by
  induction events generalizing e with
  | nil => exact ⟨rfl, rfl⟩
  | cons event events ih =>
    obtain ⟨model, adsr⟩ := ih (h.react event)
    obtain ⟨model', adsr'⟩ := (moves_react h.toFits event).kind_eq
    exact ⟨model.trans model', adsr.trans adsr'⟩

theorem kind_start (model : EnvelopeModel) (adsr : Adsr) :
    (start model adsr).model = model ∧ (start model adsr).adsr = adsr :=
  (moves_react ⟨Int.le_refl _, silentLevel_le_fullLevel model⟩ .step).kind_eq

end Chiptune.Envelope
