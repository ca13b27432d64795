import Chiptune.Playhead.Basic
import Chiptune.Proofs.VoicePool.Later

/-!
# Voices that follow their track

Of the controls of a track only four numbers reach the voices that sound already: level, place, bend
and bend range, its `Tone`. A voice follows a tone if setting its levels and its pitch by that tone
would change nothing.

Most operations on a pool leave every voice with what it follows. They are the ones that
`VoicePool.Preserves` holds of, whoever plays the voices; the others are a matter of the track that
asks for them.
-/

namespace Chiptune

/-- What of a track's controls the voices hear that sound already. -/
structure Tone where
  level : Nat
  pan : Int
  bend : Int
  bendRange : Nat

def Controls.tone (c : Controls) : Tone where
  level := c.level
  pan := c.pan
  bend := c.bend
  bendRange := c.bendRange

/-- The voice sounds as the tone and the mute of its track say. -/
structure Voice.Follows (v : Voice) (tone : Tone) (muted : Bool) (sampleRate : Nat) : Prop where
  muted_eq : v.muted = muted
  /-- To set level and place again would change nothing. -/
  setMix_eq : v.setMix tone.level tone.pan = v
  /-- To tune the voice again would change nothing. -/
  retune_eq : v.retune tone.bend tone.bendRange sampleRate = v

/-- A generator that has a pitch keeps it while it moves on. -/
theorem Generator.retune_advance {g : Generator} {key range sampleRate : Nat} {bend : Int}
    (bank : Bank) (h : g.retune key bend range sampleRate = g) :
    (g.advance bank).retune key bend range sampleRate = g.advance bank := by
  -- in each kind a frame changes the place and a bend changes the increment
  cases g with
  | pcm c =>
    simp only [retune, pcm.injEq] at h
    have hincrement := congrArg PcmCursor.increment h
    simp only [advance]
    split
    · simp only [retune, PcmCursor.advance] at hincrement ⊢
      rw [hincrement]
    · simp only [retune, h]
  | wave sample o =>
    simp only [retune, wave.injEq, true_and] at h
    have hincrement := congrArg Oscillator.increment h
    simp only [advance]
    split
    · split
      · simp only [retune, h]
      · simp only [retune, Oscillator.advance] at hincrement ⊢
        rw [hincrement]
    · simp only [retune, h]
  | square duty o =>
    simp only [retune, square.injEq, true_and] at h
    have hincrement := congrArg Oscillator.increment h
    simp only [advance, retune, Oscillator.advance] at hincrement ⊢
    rw [hincrement]
  | noise register o =>
    simp only [retune, noise.injEq, true_and] at h
    have hincrement := congrArg Oscillator.increment h
    simp only [advance, retune, NoiseRegister.advance] at hincrement ⊢
    rw [hincrement]

namespace Voice

variable {v : Voice} {tone : Tone} {muted : Bool} {sampleRate : Nat}

/-- To retune twice is to retune once. -/
theorem retune_retune (v : Voice) (bend : Int) (range sampleRate : Nat) :
    (v.retune bend range sampleRate).retune bend range sampleRate =
      v.retune bend range sampleRate := by
  unfold retune
  cases v.generator <;> rfl

/-- The pitch of a voice is no matter of where its generator is. -/
theorem retune_advance (bank : Bank) {bend : Int} {range : Nat}
    (h : v.retune bend range sampleRate = v) :
    (v.advance bank).retune bend range sampleRate = v.advance bank := by
  have hgenerator := Generator.retune_advance bank (congrArg Voice.generator h)
  unfold advance
  split
  · simp only [retune, hgenerator]
  · exact h

/-- A voice may be mixed before it moves on, or after. -/
theorem setMix_advance (bank : Bank) (v : Voice) (volume : Nat) (pan : Int) :
    (v.advance bank).setMix volume pan = (v.setMix volume pan).advance bank := by
  unfold advance setMix
  by_cases h : v.playing <;> simp [h]

namespace Follows

/-- A voice that is released is mixed and tuned as before. -/
theorem release (f : v.Follows tone muted sampleRate) : v.release.Follows tone muted sampleRate :=
  ⟨f.muted_eq, congrArg Voice.release f.setMix_eq, congrArg Voice.release f.retune_eq⟩

theorem stepEnvelope (f : v.Follows tone muted sampleRate) :
    v.stepEnvelope.Follows tone muted sampleRate :=
  ⟨f.muted_eq, congrArg Voice.stepEnvelope f.setMix_eq, congrArg Voice.stepEnvelope f.retune_eq⟩

/-- A frame later a voice is still mixed and tuned as its track says. -/
theorem advance (bank : Bank) (f : v.Follows tone muted sampleRate) :
    (v.advance bank).Follows tone muted sampleRate where
  muted_eq := by
    rw [← f.muted_eq]
    unfold Voice.advance
    split <;> rfl
  setMix_eq := by rw [setMix_advance, f.setMix_eq]
  retune_eq := retune_advance bank f.retune_eq

/-- A voice that is muted with its track follows it. -/
theorem setMuted (f : v.Follows tone muted sampleRate) (muted' : Bool) :
    (v.setMuted muted').Follows tone muted' sampleRate :=
  ⟨rfl, congrArg (Voice.setMuted · muted') f.setMix_eq,
    congrArg (Voice.setMuted · muted') f.retune_eq⟩

/-- New levels change nothing of the pitch. -/
theorem setMix (f : v.Follows tone muted sampleRate) (level : Nat) (pan : Int) :
    (v.setMix level pan).Follows { tone with level, pan } muted sampleRate :=
  ⟨f.muted_eq, rfl, congrArg (Voice.setMix · level pan) f.retune_eq⟩

/-- A new pitch changes nothing of the levels. -/
theorem retune (f : v.Follows tone muted sampleRate) (bend : Int) (bendRange : Nat) :
    (v.retune bend bendRange sampleRate).Follows { tone with bend, bendRange } muted sampleRate :=
  ⟨f.muted_eq, congrArg (Voice.retune · bend bendRange sampleRate) f.setMix_eq,
    retune_retune v bend bendRange sampleRate⟩

end Follows

/-- `w` is the voice `v` at a later time, and follows all that it followed before. -/
structure Keeps (v w : Voice) : Prop where
  track_eq : w.track = v.track
  follows : ∀ {tone muted sampleRate}, v.Follows tone muted sampleRate →
    w.Follows tone muted sampleRate

namespace Keeps

instance : IsPreorder Voice Voice.Keeps where
  refl _ := ⟨rfl, id⟩
  trans _ _ _ a b := ⟨b.track_eq.trans a.track_eq, fun f => b.follows (a.follows f)⟩

theorem release (v : Voice) : v.Keeps v.release := ⟨rfl, .release⟩

theorem stepEnvelope (v : Voice) : v.Keeps v.stepEnvelope := ⟨rfl, .stepEnvelope⟩

theorem advance (bank : Bank) (v : Voice) : v.Keeps (v.advance bank) :=
  ⟨(SameNote.advance bank v).track_eq, .advance bank⟩

end Keeps
end Voice

namespace VoicePool

variable {p q r : VoicePool} {h : VoiceHandle} {v : Voice} {i : Nat} {tone : Tone} {muted : Bool}
  {sampleRate : Nat}

/-- All voices of a track follow its tone and its mute. -/
def Follows (p : VoicePool) (track : Nat) (tone : Tone) (muted : Bool) (sampleRate : Nat) : Prop :=
  ∀ h v, p.get? h = some v → v.track = track → v.Follows tone muted sampleRate

/-- Each voice of `q` is a voice of `p`, and follows all that it followed there. -/
def Preserves (p q : VoicePool) : Prop := ∀ h, Later Voice.Keeps h p q

theorem Preserves.refl (p : VoicePool) : p.Preserves p := fun h => .refl h p

theorem Preserves.trans (a : p.Preserves q) (b : q.Preserves r) : p.Preserves r :=
  fun h => (a h).trans (b h)

/-- What preserves the voices of a pool preserves that they follow. -/
theorem Follows.of_preserves (f : p.Follows i tone muted sampleRate) (keeps : p.Preserves q) :
    q.Follows i tone muted sampleRate := by
  intro h w hw ht
  obtain ⟨v, hv, kept⟩ := keeps h w hw
  exact kept.follows (f h v hv (kept.track_eq ▸ ht))

/-- Voices that are gone follow anything. -/
theorem follows_of_gone (gone : ∀ h, p.get? h = none) : p.Follows i tone muted sampleRate := by
  intro h v hv
  rw [gone] at hv
  cases hv

/-! ## Operations that leave every voice with what it follows

What time does to voices, and what releases do, has nothing to do with mix and pitch. -/

theorem preserves_advance (bank : Bank) (p : VoicePool) : p.Preserves (p.advance bank) :=
  fun _ => later_mapVoices (.advance bank)

theorem preserves_stepEnvelopes (p : VoicePool) : p.Preserves p.stepEnvelopes :=
  fun _ => later_mapVoices .stepEnvelope

theorem preserves_reapFinished (p : VoicePool) : p.Preserves p.reapFinished :=
  fun _ => later_reapFinished

/-- Releasing voices preserves all of them, the others as they are. -/
theorem preserves_releaseAll (p : VoicePool) (handles : List VoiceHandle) :
    p.Preserves (p.releaseAll handles) :=
  fun _ => later_releaseAll fun _ => .release

/-! ## Operations that one track asks for

A track changes its tone and the voices with it. All other tracks have kept their tone, and their
voices are not touched. -/

/-- A new voice that follows its track leaves the others with what they follow. -/
theorem Follows.allocate (f : p.Follows i tone muted sampleRate)
    (hv : v.track = i → v.Follows tone muted sampleRate) :
    (p.allocate v).2.Follows i tone muted sampleRate := by
  intro h w hw ht
  rcases get?_allocate hw with ⟨-, rfl⟩ | ⟨-, old⟩
  · exact hv ht
  · exact f h w old ht

/-- What a track does to its own voices, they follow. -/
theorem Follows.mapTrack {f : Voice → Voice} {tone' : Tone} {muted' : Bool}
    (follows : p.Follows i tone muted sampleRate)
    (hf : ∀ {v}, v.Follows tone muted sampleRate → (f v).Follows tone' muted' sampleRate) :
    (p.mapTrack i f).Follows i tone' muted' sampleRate := by
  intro h w hw ht
  rw [VoicePool.mapTrack, get?_mapVoices] at hw
  obtain ⟨v, hv, rfl⟩ := Option.map_eq_some_iff.mp hw
  split at ht
  · next mine =>
    rw [if_pos mine]
    exact hf (follows h v hv mine)
  · next other => exact absurd ht other

/-- The voices of other tracks do not notice a change to one. -/
theorem Follows.mapTrack_of_ne {f : Voice → Voice} {j : Nat} (ne : i ≠ j)
    (follows : p.Follows i tone muted sampleRate) (htrack : ∀ v, (f v).track = v.track) :
    (p.mapTrack j f).Follows i tone muted sampleRate := by
  intro h w hw ht
  rw [VoicePool.mapTrack, get?_mapVoices] at hw
  obtain ⟨v, hv, rfl⟩ := Option.map_eq_some_iff.mp hw
  split at ht
  · next other =>
    rw [htrack] at ht
    exact absurd (ht.symm.trans other) ne
  · next other =>
    rw [if_neg other]
    exact follows h v hv ht

end VoicePool
end Chiptune
