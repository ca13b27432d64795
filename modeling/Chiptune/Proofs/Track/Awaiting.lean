import Chiptune.Proofs.Track.Sparing

/-!
# Waiting for the end of a note

`Track.Awaits` is the invariant of a timed note from its start to its end: the track holds it, with
few enough younger notes for it to stay, and its voice has not been released. Nothing that a track
does takes it away but sixteen younger notes, the end of the stream, and the tick in which the count
of the note comes to zero (`Track.Awaits.tick`, `Track.Awaits.expires`).
-/

namespace Chiptune

/-- How many voices were put into a pool between two times. -/
def VoicePool.startedUntil (p q : VoicePool) : Nat := q.nextSerial - p.nextSerial

theorem VoicePool.startedUntil_add {p q r : VoicePool} (a : p.nextSerial ≤ q.nextSerial)
    (b : q.nextSerial ≤ r.nextSerial) :
    p.startedUntil q + q.startedUntil r = p.startedUntil r := by
  unfold startedUntil
  omega

namespace Track

variable {env : Setting} {t : Track} {st : Stage} {p : VoicePool}

/-! ## The commands of a tick

A tick of a track starts voices only in its own name, whatever is worked off in it. -/

theorem turn_obey (env : Setting) (moved : Playhead × List Effect) (t : Track) (st : Stage) :
    t.Turn st.pool (t.obey env moved st).1 (t.obey env moved st).2.pool := by
  have first : t.Turn st.pool { t with head := moved.1 } st.pool :=
    ⟨rfl, .refl st.pool, fun o => o.congr rfl rfl⟩
  exact first.trans (turn_applyAll env moved.2 _ st)

theorem turn_workOff (env : Setting) (budget : Nat) (t : Track) (st : Stage) :
    t.Turn st.pool (t.workOff env budget st).1 (t.workOff env budget st).2.pool := by
  induction budget generalizing t st with
  | zero => exact turn_obey env _ t st
  | succ budget ih =>
    have first := turn_obey env (t.head.step env.driver t.source.stream) t st
    rw [workOff]
    dsimp only
    split
    · exact first
    · exact first.trans (ih _ _)

/-! ## The note itself

The invariant. How many younger notes the track holds is part of it, because it is the sixteenth of
them that pushes a note out. -/

/-- The track holds the note, and no other one under its handle. No more than `younger` notes that
it holds were started later. Where the voice of the note is still in the pool, it is the track's own
and not released. -/
structure Awaits (note : Note) (younger : Nat) (t : Track) (p : VoicePool) : Prop where
  serial_lt : note.handle.serial < p.nextSerial
  /-- The note stands among the notes of the track once, with those that came later behind it. -/
  held : ∃ earlier later, t.notes = earlier ++ note :: later ∧
    note.handle ∉ (earlier ++ later).map Note.handle ∧ later.length ≤ younger
  /-- If the voice is still there, it sounds for the note. -/
  sounds : ∀ w, p.get? note.handle = some w → w.track = t.index ∧ ¬ w.envelope.IsReleased

namespace Awaits

variable {note : Note} {younger : Nat} {q : VoicePool}

/-- The voice goes on where it is spared. -/
theorem sounds_of_spares (h : t.Awaits note younger p) (spared : VoicePool.Spares note.handle p q)
    (w : Voice) (found : q.get? note.handle = some w) :
    w.track = t.index ∧ ¬ w.envelope.IsReleased := by
  obtain ⟨v, hv, lasts⟩ := spared w found
  obtain ⟨own, held⟩ := h.sounds v hv
  exact ⟨lasts.track_eq.trans own, lasts.unreleased held⟩

theorem of_spares (h : t.Awaits note younger p) (spared : VoicePool.Spares note.handle p q)
    (le : p.nextSerial ≤ q.nextSerial) : t.Awaits note younger q :=
  ⟨Nat.lt_of_lt_of_le h.serial_lt le, h.held, h.sounds_of_spares spared⟩

theorem mono {more : Nat} (h : t.Awaits note younger p) (le : younger ≤ more) :
    t.Awaits note more p := by
  obtain ⟨earlier, later, notes, alone, few⟩ := h.held
  exact ⟨h.serial_lt, ⟨earlier, later, notes, alone, Nat.le_trans few le⟩, h.sounds⟩

theorem moved (h : t.Awaits note younger p) (head : Playhead) :
    ({ t with head } : Track).Awaits note younger p :=
  ⟨h.serial_lt, h.held, h.sounds⟩

/-! ### Effects

Which effects leave the note alone, and what is left of it by those that do not. -/

/-- No other note that ends has the handle of the note. -/
theorem notMem_filter {ends : Note → Bool} (h : t.Awaits note younger p)
    (stays : ends note = false) : note.handle ∉ (t.notes.filter ends).map Note.handle := by
  obtain ⟨earlier, later, notes, alone, -⟩ := h.held
  have others : t.notes.filter ends = (earlier ++ later).filter ends := by
    simp [notes, stays]
  rw [others]
  exact fun mem => alone ((List.filter_sublist.map Note.handle).subset mem)

/-- Where other notes end, the voice is not touched. -/
theorem get?_endNotes {ends : Note → Bool} (h : t.Awaits note younger st.pool)
    (stays : ends note = false) :
    (t.endNotes ends st).2.pool.get? note.handle = st.pool.get? note.handle := by
  rw [Track.endNotes, releaseNotes_pool, VoicePool.get?_releaseAll,
    if_neg (h.notMem_filter stays)]

/-- Where other notes end, the note stays. -/
theorem endNotes {ends : Note → Bool} (h : t.Awaits note younger st.pool)
    (stays : ends note = false) :
    (t.endNotes ends st).1.Awaits note younger (t.endNotes ends st).2.pool := by
  obtain ⟨earlier, later, notes, alone, few⟩ := h.held
  have spared : VoicePool.Spares note.handle st.pool (t.endNotes ends st).2.pool :=
    spares_endNotes (h.notMem_filter stays)
  refine ⟨Nat.lt_of_lt_of_le h.serial_lt (turn_endNotes ends t st).evolves.nextSerial_le, ?_,
    h.sounds_of_spares spared⟩
  refine ⟨earlier.filter (!ends ·), later.filter (!ends ·), ?_, ?_, ?_⟩
  · simp [Track.endNotes, notes, stays]
  · rw [← List.filter_append]
    exact fun mem => alone ((List.filter_sublist.map Note.handle).subset mem)
  · exact Nat.le_trans (List.length_filter_le _ later) few

/-- Where the note itself ends, its voice is released. -/
theorem ends {ends : Note → Bool} (h : t.Awaits note younger st.pool) (picked : ends note = true) :
    (t.endNotes ends st).2.pool.get? note.handle = (st.pool.get? note.handle).map Voice.release ∧
      note.handle ∉ (t.endNotes ends st).1.notes.map Note.handle := by
  obtain ⟨earlier, later, notes, alone, -⟩ := h.held
  constructor
  · have mem : note.handle ∈ (t.notes.filter ends).map Note.handle :=
      List.mem_map_of_mem (List.mem_filter.mpr ⟨by simp [notes], picked⟩)
    rw [Track.endNotes, releaseNotes_pool, VoicePool.get?_releaseAll, if_pos mem]
  · have others : (t.endNotes ends st).1.notes = (earlier ++ later).filter (!ends ·) := by
      simp [Track.endNotes, notes, picked]
    rw [others]
    exact fun mem => alone ((List.filter_sublist.map Note.handle).subset mem)

/-- There is room for the note and fifteen younger ones. -/
theorem makeRoom (h : t.Awaits note younger st.pool) (few : younger < 15) :
    (t.makeRoom st).1.Awaits note younger (t.makeRoom st).2.pool := by
  obtain ⟨earlier, later, notes, alone, fewer⟩ := h.held
  by_cases room : t.notes.length < greatestNotes
  · rw [Track.makeRoom, if_pos room]
    exact h
  -- with so few behind it, the note is not the oldest one of a full track
  · cases earlier with
    | nil =>
      rw [notes, List.nil_append, List.length_cons, greatestNotes] at room
      omega
    | cons oldest earlier =>
      rw [List.cons_append, List.map_cons, List.mem_cons, not_or] at alone
      have spared : VoicePool.Spares note.handle st.pool (t.makeRoom st).2.pool := by
        apply spares_makeRoom
        right
        simpa [notes] using alone.1
      refine ⟨Nat.lt_of_lt_of_le h.serial_lt (turn_makeRoom t st).evolves.nextSerial_le, ?_, ?_⟩
      · refine ⟨earlier, later, ?_, alone.2, fewer⟩
        rw [Track.makeRoom, if_neg room]
        exact congrArg (List.drop 1) notes
      · rw [(turn_makeRoom t st).index_eq]
        exact h.sounds_of_spares spared

theorem hold (h : t.Awaits note younger st.pool) (few : younger < 15) (key : Nat)
    (duration : Option Nat) (voice : Voice) :
    (t.hold key duration voice st).1.Awaits note (younger + 1)
      (t.hold key duration voice st).2.pool := by
  have room := h.makeRoom few
  obtain ⟨earlier, later, notes, alone, fewer⟩ := room.held
  let new : Note := ⟨((t.makeRoom st).2.pool.allocate voice).1, key, duration.map (max 1)⟩
  have added : (t.hold key duration voice st).1.notes = (t.makeRoom st).1.notes ++ [new] := rfl
  refine ⟨Nat.lt_succ_of_lt room.serial_lt, ⟨earlier, later ++ [new], ?_, ?_, ?_⟩,
    room.sounds_of_spares (VoicePool.later_allocate room.serial_lt voice)⟩
  · rw [added, notes, List.append_assoc, List.cons_append]
  · -- the new handle has a later serial number
    rw [← List.append_assoc, List.map_append, List.mem_append, not_or]
    refine ⟨alone, fun mem => ?_⟩
    have same : note.handle = new.handle := List.mem_singleton.mp mem
    have earlier := room.serial_lt
    rw [same] at earlier
    exact Nat.lt_irrefl _ earlier
  · simpa using fewer

/-- No note-off ends a timed note. -/
theorem not_endsWith (timed : note.remaining ≠ none) (key : Option Nat) :
    decide (note.EndsWith key) = false := by
  simp [Note.EndsWith, timed]

/-- No effect but the end of the stream takes the note away. -/
theorem apply {e : Effect} (h : t.Awaits note younger st.pool) (timed : note.remaining ≠ none)
    (goes : ¬ e.IsEnd)
    (few : younger + st.pool.startedUntil (t.apply env st e).2.pool ≤ 15) :
    (t.apply env st e).1.Awaits note (younger + st.pool.startedUntil (t.apply env st e).2.pool)
      (t.apply env st e).2.pool := by
  cases e with
  | noteOn key velocity duration c =>
    simp only [Track.apply, noteOn] at few ⊢
    split at few
    · next voice sounds =>
      -- the new voice is one of the few, so the note is not cut for it
      have one : 1 ≤ st.pool.startedUntil (t.hold (transposed key c.transpose) duration voice
          st).2.pool :=
        Nat.sub_pos_of_lt (Nat.lt_succ_of_le (turn_makeRoom t st).evolves.nextSerial_le)
      exact (h.hold (by omega) _ duration voice).mono (Nat.add_le_add_left one younger)
    · exact h.mono (Nat.le_add_right _ _)
  | noteOff key =>
    exact (h.endNotes (not_endsWith timed key)).mono (Nat.le_add_right _ _)
  | mix c =>
    have same := fun v : Voice => Voice.Lasts.of_sameNote (.setMix v c.level c.pan)
    exact (h.of_spares (VoicePool.later_mapTrack same) (Nat.le_refl _)).mono (Nat.le_add_right _ _)
  | tune c =>
    have same := fun v : Voice =>
      Voice.Lasts.of_sameNote (.retune v c.bend c.bendRange env.sampleRate)
    exact (h.of_spares (VoicePool.later_mapTrack same) (Nat.le_refl _)).mono (Nat.le_add_right _ _)
  | tempo bpm => exact h.mono (Nat.le_add_right _ _)
  | ended => exact absurd trivial goes
  | failed error => exact absurd trivial goes

theorem applyAll {effects : List Effect} (h : t.Awaits note younger st.pool)
    (timed : note.remaining ≠ none) (goes : ∀ e ∈ effects, ¬ e.IsEnd)
    (few : younger + st.pool.startedUntil (applyAll env effects t st).2.pool ≤ 15) :
    (Track.applyAll env effects t st).1.Awaits note
      (younger + st.pool.startedUntil (Track.applyAll env effects t st).2.pool)
      (Track.applyAll env effects t st).2.pool := by
  induction effects generalizing t st younger with
  | nil => exact h.mono (Nat.le_add_right _ _)
  | cons e effects ih =>
    have total := VoicePool.startedUntil_add (turn_apply env t st e).evolves.nextSerial_le
      (turn_applyAll env effects (t.apply env st e).1 (t.apply env st e).2).evolves.nextSerial_le
    rw [applyAll_cons, ← total, ← Nat.add_assoc] at few ⊢
    have fewer : younger + st.pool.startedUntil (t.apply env st e).2.pool ≤ 15 :=
      Nat.le_trans (Nat.le_add_right _ _) few
    have first := h.apply timed (goes e List.mem_cons_self) fewer
    exact ih first (fun e' mem => goes e' (List.mem_cons_of_mem e mem)) few

/-! ### Ticks

The commands of a tick never touch a timed note, as long as the track goes on. The count at its
beginning does. -/

theorem obey {moved : Playhead × List Effect} (h : t.Awaits note younger st.pool)
    (timed : note.remaining ≠ none) (goes : ∀ e ∈ moved.2, ¬ e.IsEnd)
    (few : younger + st.pool.startedUntil (t.obey env moved st).2.pool ≤ 15) :
    (t.obey env moved st).1.Awaits note
      (younger + st.pool.startedUntil (t.obey env moved st).2.pool)
      (t.obey env moved st).2.pool :=
  (h.moved moved.1).applyAll timed goes few

/-- The commands of a tick that does not finish the track leave the note alone. -/
theorem workOff {budget : Nat} (h : t.Awaits note younger st.pool) (timed : note.remaining ≠ none)
    (unfinished : ¬ (t.workOff env budget st).1.IsFinished)
    (few : younger + st.pool.startedUntil (t.workOff env budget st).2.pool ≤ 15) :
    (t.workOff env budget st).1.Awaits note
      (younger + st.pool.startedUntil (t.workOff env budget st).2.pool)
      (t.workOff env budget st).2.pool := by
  induction budget generalizing t st younger with
  | zero =>
    refine absurd ?_ unfinished
    rw [Track.workOff, IsFinished, head_obey, Playhead.exhaust]
    split <;> rfl
  | succ budget ih =>
    rw [Track.workOff] at unfinished few ⊢
    dsimp only at unfinished few ⊢
    have goes (going : ¬ (t.head.step env.driver t.source.stream).1.IsFinished) :
        ∀ e ∈ (t.head.step env.driver t.source.stream).2, ¬ e.IsEnd :=
      fun e => Playhead.not_isEnd_of_step going
    rw [head_obey] at unfinished few ⊢
    split
    · next rests =>
      rw [if_pos rests] at unfinished few
      rw [IsFinished, head_obey] at unfinished
      exact h.obey timed (goes unfinished) few
    · next onward =>
      rw [if_neg onward] at unfinished few
      -- what is started is started by this command or by those after it
      let next := t.obey env (t.head.step env.driver t.source.stream) st
      have total := VoicePool.startedUntil_add
        (turn_obey env (t.head.step env.driver t.source.stream) t st).evolves.nextSerial_le
        (turn_workOff env budget next.1 next.2).evolves.nextSerial_le
      rw [← total, ← Nat.add_assoc] at few ⊢
      have first := h.obey timed (goes fun finished => onward (Or.inl finished))
        (Nat.le_trans (Nat.le_add_right _ _) few)
      exact ih first unfinished few

/-- The note when it has been counted down. -/
theorem counted (h : t.Awaits note younger p) :
    ({ t with notes := t.notes.map Note.countDown } : Track).Awaits note.countDown younger p := by
  obtain ⟨earlier, later, notes, alone, few⟩ := h.held
  refine ⟨h.serial_lt, ⟨earlier.map Note.countDown, later.map Note.countDown, ?_, ?_, ?_⟩, h.sounds⟩
  · simp [notes]
  · simpa [Function.comp_def, Note.countDown] using alone
  · simpa using few

/-- With more than one tick to go, the note is counted down. -/
theorem countDown {left : Nat} (h : t.Awaits note younger st.pool)
    (remaining : note.remaining = some left) (more : 1 < left)
    (found : (st.pool.get? note.handle).isSome) :
    (t.countDown st).1.Awaits note.countDown younger (t.countDown st).2.pool := by
  apply h.counted.endNotes
  have running : ¬ note.countDown.IsExpired := by
    simp [Note.IsExpired, Note.countDown, remaining]
    omega
  have there : ¬ (st.pool.get? note.countDown.handle).isNone := by
    rw [Option.isNone_iff_eq_none]
    exact Option.isSome_iff_ne_none.mp found
  simp [running, there]

/-- With one tick to go, it ends. -/
theorem expires (h : t.Awaits note younger st.pool) (remaining : note.remaining = some 1) :
    (t.countDown st).2.pool.get? note.handle = (st.pool.get? note.handle).map Voice.release ∧
      note.handle ∉ (t.countDown st).1.notes.map Note.handle := by
  have due : note.countDown.IsExpired := by simp [Note.IsExpired, Note.countDown, remaining]
  exact h.counted.ends (by simp [due])

/-- A tick counts the note down, and nothing else in it touches the note. -/
theorem tick {left : Nat} (h : t.Awaits note younger st.pool)
    (remaining : note.remaining = some left) (more : 1 < left)
    (found : (st.pool.get? note.handle).isSome) (unfinished : ¬ (t.tick env st).1.IsFinished)
    (few : younger + st.pool.startedUntil (t.tick env st).2.pool ≤ 15) :
    (t.tick env st).1.Awaits note.countDown
      (younger + st.pool.startedUntil (t.tick env st).2.pool) (t.tick env st).2.pool := by
  have going : ¬ t.IsFinished := fun finished => unfinished (by rwa [tick_of_isFinished finished])
  have counted := h.countDown remaining more found
  have timed : note.countDown.remaining ≠ none := by simp [Note.countDown, remaining]
  have le := (turn_countDown t st).evolves.nextSerial_le
  rw [tick_eq_workOff going] at unfinished few ⊢
  dsimp only at unfinished few ⊢
  split
  · exact (counted.moved _).mono (Nat.le_add_right _ _)
  · next woken =>
    rw [if_neg woken] at unfinished few
    -- the countdown starts no voice, but it may have let one go
    have fewer (q : VoicePool) :
        younger + (t.countDown st).2.pool.startedUntil q ≤ younger + st.pool.startedUntil q :=
      Nat.add_le_add_left (Nat.sub_le_sub_left le q.nextSerial) younger
    have worked := (counted.moved _).workOff timed unfinished (Nat.le_trans (fewer _) few)
    exact worked.mono (fewer _)

end Awaits

end Track
end Chiptune
