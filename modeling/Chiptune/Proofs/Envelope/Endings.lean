import Chiptune.Proofs.Envelope.Moves
import Chiptune.Proofs.VoicePool.Sparing
import Mathlib.Logic.Function.Iterate

/-!
# How long an envelope takes

No phase lasts for ever but the sustain, and a linear attack of rate zero. A release goes down by
one unit at least in each step, so the way from full level to the floor bounds it
(`Envelope.isDone_steps_release`). An attack and a decay come to their ends in the same way, and
`Envelope.stepsToGo` counts both at once (`Envelope.exists_sustain`).
-/

namespace Chiptune.Envelope

variable {e e' : Envelope}

theorem steps_eq_iterate (e : Envelope) (n : Nat) : e.steps n = step^[n] e := by
  induction n with
  | zero => rfl
  | succ n ih =>
    rw [Function.iterate_succ_apply', ← ih]
    rfl

/-- The first step comes before the others. -/
theorem steps_succ (e : Envelope) (n : Nat) : e.steps (n + 1) = e.step.steps n := by
  simp only [steps_eq_iterate, Function.iterate_succ_apply]

theorem steps_of_isDone (done : e.IsDone) (n : Nat) : e.steps n = e := by
  rw [steps_eq_iterate]
  exact Function.iterate_fixed (step_of_done done) n

theorem isDone_steps (done : e.IsDone) (n : Nat) : (e.steps n).IsDone := by
  rw [steps_of_isDone done]
  exact done

theorem isDone_steps_of_le {m n : Nat} (done : (e.steps m).IsDone) (le : m ≤ n) :
    (e.steps n).IsDone := by
  obtain ⟨more, rfl⟩ := Nat.exists_eq_add_of_le le
  have same : e.steps (m + more) = (e.steps m).steps more := by
    simp only [steps_eq_iterate, Nat.add_comm m more, Function.iterate_add_apply]
  rw [same]
  exact isDone_steps done more

/-! ## Releases

Each step of a release takes the level down by one unit or more. The way is longest from full level
in the attenuation model, with the slowest of all rates. -/

/-- The steps of the slowest release: from full level down to the floor by one unit each. -/
def longestRelease : Nat := 92544

theorem fullLevel_le (model : EnvelopeModel) :
    fullLevel model ≤ silentLevel model + longestRelease := by
  cases model <;> decide

/-- A release takes no more steps than there are levels above silence. -/
theorem isDone_steps_of_releasing (fits : e.Fits) (releasing : e.phase = .release) {n : Nat}
    (pos : 0 < n) (near : e.level ≤ silentLevel e.model + n) : (e.steps n).IsDone := by
  -- each step takes the level lower by one at least
  induction n generalizing e with
  | zero => exact absurd pos (Nat.lt_irrefl 0)
  | succ n ih =>
    rw [steps_succ]
    have moves : e.Moves .step e.step := moves_react fits .step
    have lower := fits.step
    generalize e.step = e' at moves lower
    cases moves with
    | fades _ down audible =>
      have left : 0 < n := by omega
      apply ih lower releasing left
      dsimp only
      omega
    | dies =>
      apply isDone_steps
      rfl
    | _ => simp_all

/-- Whatever the rate is, and wherever the envelope was released. -/
theorem isDone_steps_release (fits : e.Fits) : (e.release.steps longestRelease).IsDone := by
  have near {e : Envelope} (fits : e.Fits) : e.level ≤ silentLevel e.model + longestRelease :=
    Int.le_trans fits.high (fullLevel_le e.model)
  have moves := moves_release e
  have fits := fits.release
  generalize e.release = e' at moves fits
  cases moves with
  | lets => exact isDone_steps_of_releasing fits rfl (by decide) (near fits)
  | stops =>
    apply isDone_steps
    rfl
  | ignores released =>
    rcases released with releasing | done
    · exact isDone_steps_of_releasing fits releasing (by decide) (near fits)
    · exact isDone_steps done _

/-- Once an envelope is released, only its steps count. -/
theorem run_of_isReleased {events : List Event} (released : e.IsReleased) :
    e.run events = e.steps (events.count .step) := by
  induction events generalizing e with
  | nil => rfl
  | cons event events ih =>
    cases event with
    | step =>
      rw [List.count_cons_self, steps_succ]
      exact ih (isReleased_step released)
    | release =>
      have same : e.release = e := if_pos released
      rw [List.count_cons_of_ne (by decide)]
      show e.release.run events = _
      rw [same]
      exact ih released

/-! ## Attacks and decays

A measure counts the steps that are left before the level is held. Each step on the way there makes
it smaller, unless the attack is stuck. -/

/-- As many steps as it can take at most until the level is held. -/
def stepsToGo (e : Envelope) : Nat :=
  match e.phase with
  | .attack =>
    (fullLevel e.model - e.level).toNat + 1 + ((fullLevel e.model - silentLevel e.model).toNat + 1)
  | .decay => (e.level - silentLevel e.model).toNat + 1
  | _ => 0

theorem Moves.stepsToGo_lt (m : e.Moves .step e') (unstuck : ¬ e.IsStuck)
    (going : e.phase = .attack ∨ e.phase = .decay) : e'.stepsToGo < e.stepsToGo := by
  cases m with
  | rises attacking _ further below =>
    have up := further unstuck
    simp only [stepsToGo, attacking]
    omega
  | peaks attacking =>
    simp only [stepsToGo, attacking]
    omega
  | stays attacking =>
    simp only [stepsToGo, attacking]
    omega
  | falls decaying down above =>
    have bottom := (sustainLevel_bounds e.model e.adsr).1
    simp only [stepsToGo, decaying]
    omega
  | settles decaying => simp [stepsToGo, decaying]
  | _ => simp_all

/-- An envelope that is not released comes to be held, unless its attack is stuck. -/
theorem exists_sustain (fits : e.Fits) (unreleased : ¬ e.IsReleased) (unstuck : ¬ e.IsStuck) :
    ∃ n ≤ e.stepsToGo, (e.steps n).phase = .sustain := by
  -- on the steps that are left; in the attack those of a decay from full level are among them
  induction hgo : e.stepsToGo using Nat.strongRecOn generalizing e with
  | _ go ih =>
    by_cases going : e.phase = .attack ∨ e.phase = .decay
    · have moves : e.Moves .step e.step := moves_react fits .step
      have fewer := moves.stepsToGo_lt unstuck going
      have stuck : ¬ e.step.IsStuck := by
        rwa [IsStuck, moves.kind_eq.1, moves.kind_eq.2]
      obtain ⟨n, hn, held⟩ :=
        ih _ (hgo ▸ fewer) fits.step (not_isReleased_step unreleased) stuck rfl
      refine ⟨n + 1, by omega, ?_⟩
      rw [steps_succ]
      exact held
    · refine ⟨0, Nat.zero_le _, ?_⟩
      show e.phase = .sustain
      cases h : e.phase <;> simp_all [IsReleased]

end Chiptune.Envelope
