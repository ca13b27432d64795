import Chiptune.Proofs.VoicePool.Evolution

/-!
# What does not release a voice

`VoicePool.Evolves` lets voices be released at any time. Here is the other side of it: what leaves
an unreleased voice unreleased, as long as it is in the pool at all. That is everything but the
release of its own handle. An envelope that steps goes on to its sustain level and waits there, and
a voice that comes in takes a slot, but touches no voice in another one.
-/

namespace Chiptune

/-! ## One voice at two times

Like `Voice.Continues`, but nothing has released the voice. A step of the envelope does not: it may
end a voice, but only a release releases it. -/

theorem Envelope.not_isReleased_step {e : Envelope} (held : ¬ e.IsReleased) :
    ¬ e.step.IsReleased := by
  obtain ⟨model, adsr, phase, level⟩ := e
  cases phase with
  | attack =>
    dsimp only [step, stepAttack]
    repeat' split
    · exact held
    · simp [IsReleased]
    · simp [IsReleased]
  | decay =>
    dsimp only [step, stepDecay]
    split
    · simp [IsReleased]
    · exact held
  | sustain => exact held
  | release => exact absurd (Or.inl rfl) held
  | done => exact absurd (Or.inr rfl) held

theorem Envelope.not_isReleased_start (model : EnvelopeModel) (adsr : Adsr) :
    ¬ (start model adsr).IsReleased :=
  not_isReleased_step (by simp [IsReleased])

/-- `w` is the voice `v` at a later time, and it has not been released since. -/
structure Voice.Lasts (v w : Voice) : Prop where
  track_eq : w.track = v.track
  unreleased : ¬ v.envelope.IsReleased → ¬ w.envelope.IsReleased

namespace Voice.Lasts

variable {u v w : Voice}

theorem of_sameNote (same : v.SameNote w) : v.Lasts w :=
  ⟨same.track_eq, fun held => same.envelope_eq ▸ held⟩

theorem trans (a : u.Lasts v) (b : v.Lasts w) : u.Lasts w :=
  ⟨b.track_eq.trans a.track_eq, b.unreleased ∘ a.unreleased⟩

instance : IsPreorder Voice Voice.Lasts where
  refl v := of_sameNote (.refl v)
  trans _ _ _ := trans

theorem stepEnvelope (v : Voice) : v.Lasts v.stepEnvelope := ⟨rfl, Envelope.not_isReleased_step⟩

end Voice.Lasts

/-! ## One pool at two times

Seen through one handle. The pools may differ in everything else. -/

namespace VoicePool

variable {handle : VoiceHandle} {p : VoicePool}

/-- What the handle finds in `q` it found in `p`, and it has not been released since. -/
abbrev Spares (handle : VoiceHandle) (p q : VoicePool) : Prop := Later Voice.Lasts handle p q

/-- The releases of other handles are not seen. -/
theorem spares_releaseAll {handles : List VoiceHandle} (other : handle ∉ handles) :
    Spares handle p (p.releaseAll handles) :=
  later_releaseAll fun mem => absurd mem other

end VoicePool
end Chiptune
