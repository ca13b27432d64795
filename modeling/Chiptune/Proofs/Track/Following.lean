import Chiptune.Proofs.Playhead.Telling
import Chiptune.Proofs.Track.Ownership

/-!
# Tracks and the voices that follow them

A track carries out the effects of its playhead one by one, and its voices go along: they follow the
tone that the effects have told of so far (`Track.follows_apply`). Since a playhead tells of all
that changes its tone, they follow the track's own controls once the tick is over (`follows_tick`).
Voices of other tracks go on as they did (`follows_tick_of_ne`).
-/

namespace Chiptune.Track

variable {env : Setting} {t : Track} {st : Stage} {i sampleRate : Nat} {tone last : Tone}
  {muted : Bool}

/-! ## Single effects

An effect that tells of a tone gives it to the voices, and a note is started in the tone that is
told of. All other effects leave the tone alone. -/

/-- To end notes preserves the voices, released or not. -/
theorem preserves_endNotes (ends : Note → Bool) (t : Track) (st : Stage) :
    st.pool.Preserves (t.endNotes ends st).2.pool := by
  rw [endNotes, releaseNotes_pool]
  exact st.pool.preserves_releaseAll _

/-- To count notes down preserves the voices. -/
theorem preserves_countDown (t : Track) (st : Stage) :
    st.pool.Preserves (t.countDown st).2.pool :=
  preserves_endNotes _ _ st

theorem preserves_makeRoom (t : Track) (st : Stage) :
    st.pool.Preserves (t.makeRoom st).2.pool := by
  unfold makeRoom
  split
  · exact .refl st.pool
  · rw [releaseNotes_pool]
    exact st.pool.preserves_releaseAll _

/-- A voice is made in the tone of its note. -/
theorem follows_of_voiceFor {index key velocity : Nat} {c : Controls} {voice : Voice}
    (h : voiceFor env index muted key velocity c = .ok voice) :
    voice.Follows c.tone muted env.sampleRate := by
  unfold voiceFor at h
  split at h
  · cases h
  · split at h
    · cases h
    · cases h
      refine ⟨rfl, rfl, ?_⟩
      exact congrArg (fun v => (Voice.setMix v c.level c.pan).setMuted muted)
        (Voice.retune_retune _ c.bend c.bendRange env.sampleRate)

/-- A note that begins on a track follows its tone, and the voices of other tracks are left alone.
-/
theorem follows_noteOn {key velocity : Nat} {duration : Option Nat} {c : Controls}
    (f : st.pool.Follows i tone muted env.sampleRate)
    (mine : t.index = i → c.tone = tone ∧ t.muted = muted) :
    (t.noteOn env key velocity duration c st).2.pool.Follows i tone muted env.sampleRate := by
  unfold noteOn
  dsimp only
  split
  · next voice hvoice =>
    refine (f.of_preserves (preserves_makeRoom t st)).allocate fun htrack => ?_
    rw [(voiceFor_eq_ok hvoice).1] at htrack
    obtain ⟨rfl, rfl⟩ := mine htrack
    exact follows_of_voiceFor hvoice
  · exact f

/-- An effect leaves the voices of its own track in the tone that it tells of. -/
theorem follows_apply {e : Effect} (inTone : e.InTone tone)
    (f : st.pool.Follows t.index tone t.muted env.sampleRate) :
    (t.apply env st e).2.pool.Follows t.index (e.toneAfter tone) t.muted env.sampleRate := by
  cases e with
  | noteOn key velocity duration c => exact follows_noteOn f fun _ => ⟨inTone, rfl⟩
  | noteOff key => exact f.of_preserves (preserves_endNotes _ t st)
  | mix c => exact f.mapTrack fun h => h.setMix c.level c.pan
  | tune c => exact f.mapTrack fun h => h.retune c.bend c.bendRange
  | tempo bpm => exact f
  | ended => exact f.of_preserves (preserves_endNotes _ t st)
  | failed error => exact f.of_preserves (preserves_endNotes _ t st)

/-- An effect on one track leaves the voices of other tracks following theirs. -/
theorem follows_apply_of_ne {e : Effect} (ne : i ≠ t.index)
    (f : st.pool.Follows i tone muted env.sampleRate) :
    (t.apply env st e).2.pool.Follows i tone muted env.sampleRate := by
  cases e with
  | noteOn key velocity duration c => exact follows_noteOn f fun same => absurd same.symm ne
  | noteOff key => exact f.of_preserves (preserves_endNotes _ t st)
  | mix c => exact f.mapTrack_of_ne ne fun _ => rfl
  | tune c => exact f.mapTrack_of_ne ne fun _ => rfl
  | tempo bpm => exact f
  | ended => exact f.of_preserves (preserves_endNotes _ t st)
  | failed error => exact f.of_preserves (preserves_endNotes _ t st)

/-! ## A tick

The playhead tells of each tone on the way to its last one, so that the voices have that in the end.
-/

/-- The voices of a track are told of each tone on the way to the last one. -/
theorem follows_applyAll {effects : List Effect} (tells : Tells tone effects last)
    (f : st.pool.Follows t.index tone t.muted env.sampleRate) :
    (applyAll env effects t st).2.pool.Follows t.index last t.muted env.sampleRate := by
  induction effects generalizing t st tone with
  | nil =>
    cases tells
    exact f
  | cons e effects ih =>
    obtain ⟨notes, same⟩ := apply_fst env t st e
    have next := follows_apply tells.1 f
    rw [applyAll_cons, same]
    exact ih (t := { t with notes }) tells.2 next

theorem follows_applyAll_of_ne {effects : List Effect} (ne : i ≠ t.index)
    (f : st.pool.Follows i tone muted env.sampleRate) :
    (applyAll env effects t st).2.pool.Follows i tone muted env.sampleRate := by
  induction effects generalizing t st with
  | nil => exact f
  | cons e effects ih =>
    obtain ⟨notes, same⟩ := apply_fst env t st e
    have next := follows_apply_of_ne (e := e) ne f
    rw [applyAll_cons]
    refine ih ?_ next
    rw [same]
    exact ne

/-- After a tick the voices of a track follow the controls that the track has then. -/
theorem follows_tick (f : st.pool.Follows t.index t.head.controls.tone t.muted env.sampleRate) :
    (t.tick env st).2.pool.Follows t.index (t.tick env st).1.head.controls.tone t.muted
      env.sampleRate := by
  by_cases finished : t.IsFinished
  · rw [tick_of_isFinished finished]
    exact f
  · obtain ⟨notes, same⟩ := tick_eq env t st
    rw [same, tick_of_not_isFinished finished]
    have counted := f.of_preserves (preserves_countDown t st)
    have tells := Playhead.tells_tick env.driver env.commandLimit t.source.stream t.head
    exact follows_applyAll (t := { (t.countDown st).1 with head := _ }) tells counted

/-- A tick of one track leaves the voices of another one following. -/
theorem follows_tick_of_ne (ne : i ≠ t.index) (f : st.pool.Follows i tone muted env.sampleRate) :
    (t.tick env st).2.pool.Follows i tone muted env.sampleRate := by
  by_cases finished : t.IsFinished
  · rw [tick_of_isFinished finished]
    exact f
  · rw [tick_of_not_isFinished finished]
    have counted := f.of_preserves (preserves_countDown t st)
    exact follows_applyAll_of_ne (t := { (t.countDown st).1 with head := _ }) ne counted

end Chiptune.Track
