import Chiptune.Proofs.Track.Notices
import Chiptune.Proofs.Track.Ownership
import Chiptune.Proofs.VoicePool.Renumber
import Chiptune.Sequencer.Snapshot

/-!
# Tracks and serial numbers

A track keeps handles and gives them back to the pool, and does nothing else with them. If the
handles that it keeps are raised together with the numbers of the pool, it does what it would have
done anyway. Nor does it look at the notifications that wait already, so the stage of the other run
may hold whatever it likes of them (`Track.tick_renumber`).
-/

namespace Chiptune

def Note.renumber (d : Nat) (n : Note) : Note := { n with handle := n.handle.renumber d }

/-- The track with the serial numbers of its handles raised by `d`. -/
def Track.renumber (d : Nat) (t : Track) : Track :=
  { t with notes := t.notes.map (Note.renumber d) }

/-- The stage with all serial numbers raised by `d`, and with other notifications. -/
def Stage.renumber (d : Nat) (notices : Notices) (st : Stage) : Stage where
  pool := st.pool.renumber d
  tempo := st.tempo
  notices := notices

namespace Track

variable {d : Nat} {q : Notices} {env : Setting}

@[simp] theorem renumber_zero (t : Track) : t.renumber 0 = t := by
  have same : Note.renumber 0 = id := rfl
  simp [renumber, same]

/-! ## Ending notes

Notes end by their keys and counts. Their handles are only passed on to the pool. -/

/-- Handles that are renumbered with their pool release the same voices. -/
theorem releaseNotes_renumber (notes : List Note) (st : Stage) :
    (st.renumber d q).releaseNotes (notes.map (Note.renumber d)) =
      (st.releaseNotes notes).renumber d q := by
  have hhandles : (notes.map (Note.renumber d)).map Note.handle =
      (notes.map Note.handle).map (VoiceHandle.renumber d) := by
    rw [List.map_map, List.map_map]
    rfl
  have hpool : ((st.renumber d q).releaseNotes (notes.map (Note.renumber d))).pool =
      (st.releaseNotes notes).pool.renumber d := by
    rw [releaseNotes_pool, releaseNotes_pool, hhandles]
    exact VoicePool.releaseAll_renumber _ st.pool
  show Stage.mk ((st.renumber d q).releaseNotes _).pool st.tempo q = _
  rw [hpool]
  rfl

/-- A test that does not look at handles ends the same notes. -/
theorem endNotes_renumber {ends ends' : Note → Bool} (t : Track) (st : Stage)
    (same : ∀ n, ends' (n.renumber d) = ends n) :
    (t.renumber d).endNotes ends' (st.renumber d q) =
      ((t.endNotes ends st).1.renumber d, (t.endNotes ends st).2.renumber d q) := by
  have hnotes : ∀ (p p' : Note → Bool), (∀ n, p' (n.renumber d) = p n) →
      (t.notes.map (Note.renumber d)).filter p' = (t.notes.filter p).map (Note.renumber d) := by
    intro p p' h
    rw [List.filter_map]
    congr 2
    funext n
    exact h n
  unfold endNotes
  show (Track.mk _ _ _ ((t.notes.map (Note.renumber d)).filter fun n => !ends' n) _,
    (st.renumber d q).releaseNotes ((t.notes.map (Note.renumber d)).filter ends')) = _
  rw [hnotes ends ends' same, hnotes (fun n => !ends n) (fun n => !ends' n), releaseNotes_renumber]
  · rfl
  · intro n
    rw [same]

theorem countDown_renumber (t : Track) (st : Stage) :
    (t.renumber d).countDown (st.renumber d q) =
      ((t.countDown st).1.renumber d, (t.countDown st).2.renumber d q) := by
  have hcounted : ({ t.renumber d with notes := (t.renumber d).notes.map Note.countDown } : Track) =
      ({ t with notes := t.notes.map Note.countDown } : Track).renumber d := by
    simp [renumber, Note.renumber, Note.countDown, Function.comp_def]
  unfold countDown
  rw [hcounted]
  apply endNotes_renumber
  intro n
  have hfound : (st.renumber d q).pool.get? (n.renumber d).handle = st.pool.get? n.handle :=
    VoicePool.get?_renumber
  apply decide_eq_decide.mpr
  rw [hfound]
  exact Iff.rfl

/-! ## Starting a note

The handle of a new note is the one that the pool gives, renumbered like all others. -/

theorem makeRoom_renumber (t : Track) (st : Stage) :
    (t.renumber d).makeRoom (st.renumber d q) =
      ((t.makeRoom st).1.renumber d, (t.makeRoom st).2.renumber d q) := by
  have hlength : (t.renumber d).notes.length = t.notes.length := List.length_map _
  unfold makeRoom
  rw [hlength]
  split
  · rfl
  · show (Track.mk _ _ _ ((t.notes.map (Note.renumber d)).drop 1) _,
      (st.renumber d q).releaseNotes ((t.notes.map (Note.renumber d)).take 1)) = _
    rw [← List.map_drop, ← List.map_take, releaseNotes_renumber]
    rfl

/-- A note that begins gets the renumbered handle of what it would get otherwise. -/
theorem hold_renumber (key : Nat) (duration : Option Nat) (voice : Voice) (t : Track) (st : Stage) :
    (t.renumber d).hold key duration voice (st.renumber d q) =
      ((t.hold key duration voice st).1.renumber d,
        (t.hold key duration voice st).2.renumber d q) := by
  unfold hold
  rw [makeRoom_renumber]
  dsimp only
  rw [show ((t.makeRoom st).2.renumber d q).pool = (t.makeRoom st).2.pool.renumber d from rfl,
    VoicePool.allocate_renumber]
  simp [renumber, Stage.renumber, Note.renumber]

/-! ## Effects and ticks

No effect looks into a handle, and so a tick can be renumbered as a whole. -/

theorem modifyPool_renumber {f : VoicePool → VoicePool} (st : Stage)
    (same : f (st.pool.renumber d) = (f st.pool).renumber d) :
    (st.renumber d q).modifyPool f = (st.modifyPool f).renumber d q := by
  show Stage.mk (f (st.pool.renumber d)) st.tempo q = _
  rw [same]
  rfl

/-- An effect tells the host what it tells otherwise, behind whatever waits already. -/
theorem apply_renumber (t : Track) (st : Stage) (e : Effect) :
    (t.renumber d).apply env (st.renumber d q) e =
      ((t.apply env st e).1.renumber d,
        (t.apply env st e).2.renumber d (q.pushAll (t.noticesOf env e))) := by
  -- only starting and ending notes deals with handles, and only a failure is told
  cases e with
  | noteOn key velocity duration c =>
    simp only [apply, noteOn, noticesOf]
    rw [show (t.renumber d).index = t.index from rfl, show (t.renumber d).muted = t.muted from rfl]
    cases voiceFor env t.index t.muted (transposed key c.transpose) velocity c with
    | ok voice => exact hold_renumber _ duration voice t st
    | error e => rfl
  | noteOff key => exact endNotes_renumber t st fun _ => rfl
  | mix c => exact congrArg (Prod.mk _) (modifyPool_renumber st (VoicePool.mapTrack_renumber _ _))
  | tune c => exact congrArg (Prod.mk _) (modifyPool_renumber st (VoicePool.mapTrack_renumber _ _))
  | tempo bpm => rfl
  | ended => exact endNotes_renumber t st fun _ => rfl
  | failed error =>
    have hnotes : (t.renumber d).endNotes (fun _ => true) (st.renumber d q) =
        ((t.endNotes (fun _ => true) st).1.renumber d,
          (t.endNotes (fun _ => true) st).2.renumber d q) :=
      endNotes_renumber t st fun _ => rfl
    simp only [apply]
    rw [hnotes]
    rfl

theorem applyAll_renumber (effects : List Effect) (t : Track) (st : Stage) :
    applyAll env effects (t.renumber d) (st.renumber d q) =
      ((applyAll env effects t st).1.renumber d,
        (applyAll env effects t st).2.renumber d
          (q.pushAll (effects.flatMap (t.noticesOf env)))) := by
  induction effects generalizing t st q with
  | nil => rfl
  | cons e effects ih =>
    rw [applyAll_cons, applyAll_cons, apply_renumber, ih, noticesOf_apply, List.flatMap_cons,
      Notices.pushAll_append]

/-- A tick of the track with other numbers is the tick of the track, with other numbers. -/
theorem tick_renumber (t : Track) (st : Stage) :
    (t.renumber d).tick env (st.renumber d q) =
      ((t.tick env st).1.renumber d,
        (t.tick env st).2.renumber d (q.pushAll (t.noticesInTick env))) := by
  unfold noticesInTick
  by_cases finished : t.IsFinished
  · have finished' : (t.renumber d).IsFinished := finished
    rw [tick_of_isFinished finished, tick_of_isFinished finished',
      Playhead.tick_of_isFinished finished]
    rfl
  · have finished' : ¬ (t.renumber d).IsFinished := finished
    let head := (t.head.tick env.driver env.commandLimit t.source.stream).1
    -- what is told depends on neither the notes nor the playhead
    have hsame : ({ (t.countDown st).1 with head } : Track).noticesOf env = t.noticesOf env :=
      noticesOf_with t head _
    have moved : ({ (t.countDown st).1.renumber d with head } : Track) =
        ({ (t.countDown st).1 with head } : Track).renumber d := rfl
    rw [tick_of_not_isFinished finished, tick_of_not_isFinished finished', countDown_renumber,
      ← hsame]
    show applyAll env _ ({ (t.countDown st).1.renumber d with head } : Track) _ = _
    rw [moved, applyAll_renumber]
    rfl

/-! ## Between the ticks

What a host is shown of a track has no handles in it. -/

/-- The keys that a host is shown are found by handles and are the same. -/
theorem soundingKeys_renumber (pool : VoicePool) (t : Track) :
    (t.renumber d).soundingKeys (pool.renumber d) = t.soundingKeys pool := by
  have hheld : ∀ n : Note, (n.renumber d).IsHeld (pool.renumber d) ↔ n.IsHeld pool := by
    intro n
    unfold Note.IsHeld
    rw [show (n.renumber d).handle = n.handle.renumber d from rfl, VoicePool.get?_renumber]
  unfold soundingKeys
  rw [show (t.renumber d).notes = t.notes.map (Note.renumber d) from rfl, List.filter_map,
    List.map_map]
  simp only [Function.comp_def, hheld]
  rfl

end Track
end Chiptune
