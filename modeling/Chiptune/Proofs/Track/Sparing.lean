import Chiptune.Proofs.Track.Ties
import Chiptune.Proofs.VoicePool.Sparing

/-!
# What a track does not release

A track releases the voices of the notes that it ends and of the note that has to make room, and no
others. So it spares a handle that is not among theirs, and above all a handle that it does not hold
(`Track.Lacks`): no tick of it ever releases that one (`Track.Lacks.spares_tick`).
-/

namespace Chiptune.Track

variable {env : Setting} {t : Track} {st : Stage} {p : VoicePool} {handle : VoiceHandle}

/-! ## Single operations

A release needs a handle that the track holds. -/

/-- To end notes spares a handle that is not among theirs. -/
theorem spares_endNotes {ends : Note → Bool}
    (kept : handle ∉ (t.notes.filter ends).map Note.handle) :
    VoicePool.Spares handle st.pool (t.endNotes ends st).2.pool := by
  rw [endNotes, releaseNotes_pool]
  exact VoicePool.spares_releaseAll kept

/-- To make room spares a handle that is not the one of the oldest note. -/
theorem spares_makeRoom
    (kept : t.notes.length < greatestNotes ∨ handle ∉ (t.notes.take 1).map Note.handle) :
    VoicePool.Spares handle st.pool (t.makeRoom st).2.pool := by
  unfold makeRoom
  split
  · exact .refl handle st.pool
  · next full =>
    rw [releaseNotes_pool]
    exact VoicePool.spares_releaseAll (kept.resolve_left full)

theorem spares_hold (given : handle.serial < st.pool.nextSerial)
    (kept : t.notes.length < greatestNotes ∨ handle ∉ (t.notes.take 1).map Note.handle)
    (key : Nat) (duration : Option Nat) (voice : Voice) :
    VoicePool.Spares handle st.pool (t.hold key duration voice st).2.pool :=
  (spares_makeRoom kept).trans (VoicePool.later_allocate
    (Nat.lt_of_lt_of_le given (turn_makeRoom t st).evolves.nextSerial_le) voice)

/-! ## Handles of other tracks

Handles are given out once. A handle that was given out and is not among those of this track will
never be. -/

/-- The handle was given out, and not to this track. -/
structure Lacks (handle : VoiceHandle) (t : Track) (p : VoicePool) : Prop where
  serial_lt : handle.serial < p.nextSerial
  notMem : handle ∉ t.notes.map Note.handle

namespace Lacks

theorem notMem_sublist (h : t.Lacks handle p) {notes : List Note} (sub : notes.Sublist t.notes) :
    handle ∉ notes.map Note.handle :=
  fun mem => h.notMem ((sub.map Note.handle).subset mem)

/-- What a track does not hold, it does not hold after an effect either. -/
theorem apply (h : t.Lacks handle st.pool) (e : Effect) :
    (t.apply env st e).1.Lacks handle (t.apply env st e).2.pool where
  serial_lt := Nat.lt_of_lt_of_le h.serial_lt (turn_apply env t st e).evolves.nextSerial_le
  notMem mem := by
    obtain ⟨n, held, rfl⟩ := List.mem_map.mp mem
    rcases mem_notes_apply held with old | new
    · exact h.notMem (List.mem_map_of_mem old)
    · exact absurd h.serial_lt (Nat.not_lt_of_le new)

/-- No effect releases what the track does not hold. -/
theorem spares_apply (h : t.Lacks handle st.pool) (e : Effect) :
    VoicePool.Spares handle st.pool (t.apply env st e).2.pool := by
  have ended : ∀ ends : Note → Bool,
      VoicePool.Spares handle st.pool (t.endNotes ends st).2.pool := fun ends =>
    spares_endNotes (h.notMem_sublist List.filter_sublist)
  cases e with
  | noteOn key velocity duration c =>
    simp only [Track.apply, noteOn]
    split
    · exact spares_hold h.serial_lt (.inr (h.notMem_sublist (List.take_sublist 1 _))) _ _ _
    · exact .refl handle st.pool
  | noteOff key => exact ended _
  | mix c => exact VoicePool.later_mapTrack fun v => .of_sameNote (.setMix v _ _)
  | tune c => exact VoicePool.later_mapTrack fun v => .of_sameNote (.retune v _ _ _)
  | tempo bpm => exact .refl handle st.pool
  | ended => exact ended _
  | failed error => exact ended _

theorem spares_applyAll (h : t.Lacks handle st.pool) (effects : List Effect) :
    VoicePool.Spares handle st.pool (applyAll env effects t st).2.pool := by
  induction effects generalizing t st with
  | nil => exact .refl handle st.pool
  | cons e effects ih => exact (h.spares_apply e).trans (ih (h.apply e))

/-- A track never releases what it does not hold. -/
theorem spares_tick (h : t.Lacks handle st.pool) :
    VoicePool.Spares handle st.pool (t.tick env st).2.pool := by
  by_cases finished : t.IsFinished
  · rw [tick_of_isFinished finished]
    exact .refl handle st.pool
  · have same : (t.notes.map Note.countDown).map Note.handle = t.notes.map Note.handle := by
      simp [Function.comp_def, Note.countDown]
    have counted : ({ t with notes := t.notes.map Note.countDown } : Track).Lacks handle st.pool :=
      ⟨h.serial_lt, by rw [same]; exact h.notMem⟩
    have ended : VoicePool.Spares handle st.pool (t.countDown st).2.pool :=
      spares_endNotes (counted.notMem_sublist List.filter_sublist)
    have lacks : (t.countDown st).1.Lacks handle (t.countDown st).2.pool :=
      ⟨Nat.lt_of_lt_of_le h.serial_lt (turn_countDown t st).evolves.nextSerial_le,
        counted.notMem_sublist List.filter_sublist⟩
    rw [tick_of_not_isFinished finished]
    refine ended.trans ?_
    apply Lacks.spares_applyAll
    exact ⟨lacks.serial_lt, lacks.notMem⟩

end Lacks

end Chiptune.Track
