import Chiptune.Proofs.Track.Notices
import Chiptune.Proofs.Track.Ownership
import Chiptune.Proofs.VoicePool.Muting

/-!
# Muted tracks go on

Of its own mute a track takes no notice but that its new voices begin muted. If they are to be heard
afterwards, it makes no difference whether the track was muted while it passed a tick, or any other
track (`Track.tick_unmuted`).
-/

namespace Chiptune

/-- The track when it can be heard. -/
def Track.unmuted (t : Track) : Track := { t with muted := false }

/-- The stage with all voices to be heard. -/
def Stage.unmuted (st : Stage) : Stage := st.modifyPool VoicePool.unmuted

namespace Track

variable {env : Setting}

/-! ## Ending notes

Which notes end, and which voices are released, is decided by handles, keys and counts. -/

theorem releaseNotes_unmuted (notes : List Note) (st : Stage) :
    st.unmuted.releaseNotes notes = (st.releaseNotes notes).unmuted := by
  have hpool : (st.unmuted.releaseNotes notes).pool = (st.releaseNotes notes).pool.unmuted := by
    rw [releaseNotes_pool, releaseNotes_pool]
    exact VoicePool.releaseAll_unmuted _ st.pool
  exact congrArg (Stage.mk · st.tempo st.notices) hpool

/-- Notes end alike, whether their voices are heard or not. -/
theorem endNotes_unmuted (ends : Note → Bool) (t : Track) (st : Stage) :
    t.unmuted.endNotes ends st.unmuted =
      ((t.endNotes ends st).1.unmuted, (t.endNotes ends st).2.unmuted) :=
  congrArg (Prod.mk _) (releaseNotes_unmuted _ st)

theorem countDown_unmuted (t : Track) (st : Stage) :
    t.unmuted.countDown st.unmuted = ((t.countDown st).1.unmuted, (t.countDown st).2.unmuted) := by
  have hgone : ∀ h : VoiceHandle,
      (st.unmuted.pool.get? h).isNone = (st.pool.get? h).isNone := by
    intro h
    show ((st.pool.mapVoices (·.setMuted false)).get? h).isNone = _
    rw [VoicePool.get?_mapVoices, Option.isNone_map]
  unfold countDown
  simp only [hgone]
  exact endNotes_unmuted _ { t with notes := t.notes.map Note.countDown } st

/-! ## Starting a note

The only place where the mute of the track goes into a voice. Unmuted afterwards, it is the voice of
an unmuted track. -/

/-- A voice is made in the same way, and only its mute comes from the track. -/
theorem voiceFor_unmuted (index : Nat) (muted : Bool) (key velocity : Nat) (c : Controls) :
    voiceFor env index false key velocity c =
      (voiceFor env index muted key velocity c).map (·.setMuted false) := by
  unfold voiceFor
  split
  · rfl
  · split <;> rfl

theorem makeRoom_unmuted (t : Track) (st : Stage) :
    t.unmuted.makeRoom st.unmuted = ((t.makeRoom st).1.unmuted, (t.makeRoom st).2.unmuted) := by
  unfold makeRoom
  rw [show t.unmuted.notes = t.notes from rfl]
  split
  · rfl
  · rw [releaseNotes_unmuted]
    rfl

/-- A voice that is unmuted before it is held, or after, is the same. -/
theorem hold_unmuted (key : Nat) (duration : Option Nat) (voice : Voice) (t : Track) (st : Stage) :
    t.unmuted.hold key duration (voice.setMuted false) st.unmuted =
      ((t.hold key duration voice st).1.unmuted, (t.hold key duration voice st).2.unmuted) := by
  unfold hold
  rw [makeRoom_unmuted]
  dsimp only
  rw [show (t.makeRoom st).2.unmuted.pool = (t.makeRoom st).2.pool.unmuted from rfl,
    VoicePool.allocate_unmuted]
  rfl

/-! ## Effects and ticks

Each effect does the same with mutes and without, and hence so does a tick. -/

theorem modifyPool_unmuted {f : VoicePool → VoicePool} (st : Stage)
    (same : f st.pool.unmuted = (f st.pool).unmuted) :
    st.unmuted.modifyPool f = (st.modifyPool f).unmuted :=
  congrArg (Stage.mk · st.tempo st.notices) same

/-- No effect looks at a mute. -/
theorem apply_unmuted (t : Track) (st : Stage) (e : Effect) :
    t.unmuted.apply env st.unmuted e =
      ((t.apply env st e).1.unmuted, (t.apply env st e).2.unmuted) := by
  -- only a new voice takes over what is muted, and it is unmuted with its track
  cases e with
  | noteOn key velocity duration c =>
    simp only [apply, noteOn]
    rw [show t.unmuted.muted = false from rfl, voiceFor_unmuted _ t.muted]
    rw [show t.unmuted.index = t.index from rfl]
    cases voiceFor env t.index t.muted (transposed key c.transpose) velocity c with
    | ok voice => exact hold_unmuted _ duration voice t st
    | error e => rfl
  | noteOff key => exact endNotes_unmuted _ t st
  | mix c =>
    exact congrArg (Prod.mk _)
      (modifyPool_unmuted st (st.pool.mapTrack_unmuted t.index fun _ => rfl))
  | tune c =>
    exact congrArg (Prod.mk _)
      (modifyPool_unmuted st (st.pool.mapTrack_unmuted t.index fun _ => rfl))
  | tempo bpm => rfl
  | ended => exact endNotes_unmuted _ t st
  | failed error =>
    simp only [apply]
    rw [endNotes_unmuted]
    rfl

theorem applyAll_unmuted (effects : List Effect) (t : Track) (st : Stage) :
    applyAll env effects t.unmuted st.unmuted =
      ((applyAll env effects t st).1.unmuted, (applyAll env effects t st).2.unmuted) := by
  induction effects generalizing t st with
  | nil => rfl
  | cons e effects ih => rw [applyAll_cons, applyAll_cons, apply_unmuted, ih]

/-- A tick of the track when nothing is muted is the tick of the track, with nothing muted. -/
theorem tick_unmuted (t : Track) (st : Stage) :
    t.unmuted.tick env st.unmuted = ((t.tick env st).1.unmuted, (t.tick env st).2.unmuted) := by
  by_cases finished : t.IsFinished
  · have finished' : t.unmuted.IsFinished := finished
    rw [tick_of_isFinished finished, tick_of_isFinished finished']
  · have finished' : ¬ t.unmuted.IsFinished := finished
    rw [tick_of_not_isFinished finished, tick_of_not_isFinished finished', countDown_unmuted]
    exact applyAll_unmuted _ { (t.countDown st).1 with head := _ } (t.countDown st).2

/-! ## What the host is told

Muted tracks tell of the same things. -/

theorem noticesOf_unmuted (t : Track) (e : Effect) :
    t.unmuted.noticesOf env e = t.noticesOf env e := by
  cases e with
  | noteOn key velocity duration c =>
    simp only [noticesOf]
    rw [show t.unmuted.muted = false from rfl, voiceFor_unmuted _ t.muted]
    rw [show t.unmuted.index = t.index from rfl]
    cases voiceFor env t.index t.muted (transposed key c.transpose) velocity c <;> rfl
  | _ => rfl

/-- A muted track tells the host what it would tell otherwise. -/
theorem noticesInTick_unmuted (t : Track) : t.unmuted.noticesInTick env = t.noticesInTick env :=
  congrArg (fun f => List.flatMap f _) (funext t.noticesOf_unmuted)

end Track
end Chiptune
