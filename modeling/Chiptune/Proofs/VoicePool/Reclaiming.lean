import Chiptune.Proofs.Envelope.Endings
import Chiptune.Proofs.VoicePool.Safety
import Mathlib.Data.List.Flatten

/-!
# Released voices are reclaimed

A voice that was released must not keep its slot for ever. Its envelope sees nothing of a pool but
the steps and the releases that concern its own handle (`VoicePool.envelope_foldl_onVoice`), so it
comes to its end as any released envelope does, and the next reaping takes the voice out. From then
on the handle finds nothing, whoever has the slot.
-/

namespace Chiptune.VoicePool

variable {p : VoicePool} {h : VoiceHandle} {v w : Voice} {actions : List Action}

/-! ## What an envelope sees of a pool

Out of all actions on a pool, those that reach the envelope of one voice are listed as events. The
envelope then runs as it would alone. -/

/-- What happens to the envelope of the voice under the handle `h`. -/
def Action.events (h : VoiceHandle) : Action → List Envelope.Event
  | release i => if h = i then [.release] else []
  | stepEnvelopes => [.step]
  | _ => []

theorem envelope_onVoice (h : VoiceHandle) (v : Voice) (a : Action) :
    (a.onVoice h v).envelope = v.envelope.run (a.events h) := by
  have adjusted : ∀ change : Adjustment, (change.apply v).envelope = v.envelope := by
    intro change
    cases change <;> rfl
  -- for this voice an action is a release, a step, or nothing that its envelope would notice
  cases a with
  | release i =>
    simp only [Action.onVoice, Action.events]
    split <;> rfl
  | render bank =>
    simp only [Action.onVoice, Voice.advance]
    split <;> rfl
  | adjust i change =>
    simp only [Action.onVoice]
    split
    · exact adjusted change
    · rfl
  | adjustTrack track change =>
    simp only [Action.onVoice]
    split
    · exact adjusted change
    · rfl
  | _ => rfl

theorem envelope_foldl_onVoice (h : VoiceHandle) (v : Voice) (actions : List Action) :
    (actions.foldl (Action.onVoice h) v).envelope =
      v.envelope.run (actions.flatMap (Action.events h)) := by
  induction actions generalizing v with
  | nil => rfl
  | cons a actions ih =>
    rw [List.foldl_cons, ih, envelope_onVoice, List.flatMap_cons, Envelope.run_append]

/-- If the voices of a pool have come from a start, and those that are put in, then so have all that
are found later. -/
theorem isReached_run (sound : ∀ {h v}, p.get? h = some v → v.envelope.IsReached)
    (soundToo : ∀ v, .allocate v ∈ actions → v.envelope.IsReached)
    (found : (p.run actions).get? h = some v) : v.envelope.IsReached := by
  refine invariant_run ?_ sound soundToo found
  intro a i u reached
  obtain ⟨model, adsr, events, reached⟩ := reached
  refine ⟨model, adsr, events ++ a.events i, ?_⟩
  rw [envelope_onVoice, reached, Envelope.run_append]

/-! ## Rounds

A player steps all envelopes and takes out what is finished, again and again, with anything else in
between. After enough such rounds the envelope is done, and the next reaping takes the voice out. -/

/-- Step all envelopes and take out the voices that are finished, this many times. -/
def rounds (n : Nat) : List Action :=
  (List.replicate n [Action.stepEnvelopes, .reapFinished]).flatten

theorem rounds_succ (n : Nat) :
    rounds (n + 1) = (rounds n ++ [.stepEnvelopes]) ++ [.reapFinished] := by
  simp [rounds, List.replicate_succ']

theorem flatMap_events_rounds (h : VoiceHandle) (n : Nat) :
    (rounds n).flatMap (Action.events h) = List.replicate n .step := by
  induction n with
  | zero => rfl
  | succ n ih =>
    rw [rounds_succ, List.flatMap_append, List.flatMap_append, ih, List.replicate_succ']
    simp [Action.events]

/-- After some rounds, with anything in between, there is a reaping behind as many steps. -/
theorem exists_reaping {n : Nat} (enough : (rounds (n + 1)).Sublist actions) :
    ∃ before after, actions = before ++ .reapFinished :: after ∧
      n + 1 ≤ (before.flatMap (Action.events h)).count .step := by
  rw [rounds_succ, List.append_sublist_iff] at enough
  obtain ⟨first, last, rfl, steps, reaping⟩ := enough
  obtain ⟨more, after, rfl⟩ := List.append_of_mem (List.singleton_sublist.mp reaping)
  refine ⟨first ++ more, after, by simp, ?_⟩
  have longer := (steps.trans (List.sublist_append_left first more)).flatMap (Action.events h)
  have counted := longer.count_le .step
  rw [List.flatMap_append, flatMap_events_rounds] at counted
  simpa [Action.events] using counted

/-- A released voice is gone after enough rounds, whatever else is done. -/
theorem get?_run_rounds (given : h.serial < p.nextSerial)
    (fits : ∀ {v}, p.get? h = some v → v.envelope.Fits)
    (enough : (rounds Envelope.longestRelease).Sublist actions) :
    (p.run (.release h :: actions)).get? h = none := by
  obtain ⟨before, after, rfl, count⟩ := exists_reaping (h := h) enough
  refine Option.eq_none_iff_forall_ne_some.mpr ?_
  intro w found
  have split : p.run (.release h :: (before ++ .reapFinished :: after)) =
      (((p.release h).run before).act .reapFinished).run after := by
    show (p.release h).run (before ++ .reapFinished :: after) = _
    rw [run_append]
    rfl
  have given : h.serial < (p.release h).nextSerial := by rwa [nextSerial_release]
  have later := Nat.lt_of_lt_of_le given (nextSerial_le_run _ before)
  -- what is found at the end was found right after the reaping, and so it is not finished
  rw [split] at found
  obtain ⟨u, reaped, -⟩ := get?_of_run (Nat.lt_of_lt_of_le later (nextSerial_le_act _)) found
  obtain ⟨left, unfinished⟩ := get?_reapFinished.mp reaped
  obtain ⟨x, released, rfl⟩ := get?_of_run given left
  rw [get?_release, if_pos rfl] at released
  obtain ⟨v, old, rfl⟩ := Option.map_eq_some_iff.mp released
  apply unfinished
  right
  rw [envelope_foldl_onVoice]
  show (v.envelope.release.run _).IsDone
  rw [Envelope.run_of_isReleased v.envelope.isReleased_release]
  exact Envelope.isDone_steps_of_le (Envelope.isDone_steps_release (fits old)) count

/-- Released voices are reclaimed. An envelope that is released, from wherever it has come to, is
done after 92544 steps at most. So the handle of a voice that was released finds nothing any more
once the envelopes of its pool have been stepped and the pool has been reaped as often, with
whatever else in between. And an envelope that is not released comes to be held, unless it is a
linear one with an attack of zero. -/
theorem released_voices_are_reclaimed :
    (∀ e : Envelope, e.IsReached → ∃ n ≤ 92544, (e.release.steps n).IsDone) ∧
    (∀ (capacity : Nat) (before after : List Action) (h : VoiceHandle),
      (∀ v, .allocate v ∈ before → v.envelope.IsReached) →
      h.serial < ((empty capacity).run before).nextSerial →
      (rounds 92544).Sublist after →
      ((empty capacity).run (before ++ .release h :: after)).get? h = none) ∧
    (∀ e : Envelope, e.IsReached → ¬ e.IsReleased → ¬ (e.model = .linear ∧ e.adsr.attack = 0) →
      ∃ n, (e.steps n).phase = .sustain) := by
  refine ⟨?_, ?_, ?_⟩
  · intro e reached
    exact ⟨92544, Nat.le_refl _, Envelope.isDone_steps_release reached.shaped.toFits⟩
  -- the release and the rounds are events of the envelope of this voice
  · intro capacity before after h sound given enough
    rw [run_append]
    apply get?_run_rounds given _ enough
    intro v found
    exact (isReached_run (by simp) sound found).shaped.toFits
  · intro e reached unreleased unstuck
    obtain ⟨n, -, held⟩ := Envelope.exists_sustain reached.shaped.toFits unreleased unstuck
    exact ⟨n, held⟩

/-- The first voice falls as slowly as a voice can. Another one comes in before it is gone, and the
first handle is released once more. -/
theorem released_voices_are_reclaimed_slowest :
    let slowest := Envelope.start .attenuation ⟨127, 127, 127, 0⟩
    let voice : Voice := { (default : Voice) with envelope := slowest }
    let between := [Action.allocate voice, .release ⟨0, 0⟩]
    let slowAttack := Envelope.start .linear ⟨1, 128, 100, 0⟩
    (∃ n ≤ 92544, (slowest.release.steps n).IsDone) ∧
    ((empty 2).run
      ([.allocate voice] ++ .release ⟨0, 0⟩ :: (between ++ rounds 92544))).get? ⟨0, 0⟩ = none ∧
    ∃ n, (slowAttack.steps n).phase = .sustain := by
  intro slowest voice between slowAttack
  obtain ⟨done, reclaimed, held⟩ := released_voices_are_reclaimed
  have started : slowest.IsReached := Envelope.isReached_start _ _
  have attacked : slowAttack.IsReached := Envelope.isReached_start _ _
  have unreleased : ¬ slowAttack.IsReleased := Envelope.not_isReleased_start _ _
  have rate : slowAttack.adsr.attack ≠ 0 := by
    rw [(Envelope.kind_start .linear ⟨1, 128, 100, 0⟩).2]
    decide
  refine ⟨done slowest started, ?_, held slowAttack attacked unreleased fun stuck => rate stuck.2⟩
  -- a second voice is started and the release is asked for twice in between
  apply reclaimed 2 [.allocate voice] (between ++ rounds 92544) ⟨0, 0⟩
  · intro v mem
    have same : v = voice := Action.allocate.inj (List.mem_singleton.mp mem)
    subst same
    dsimp only [voice]
    exact started
  · decide +kernel
  · exact List.sublist_append_right between (rounds 92544)

end Chiptune.VoicePool
