import Chiptune.Proofs.Track.Commands
import Chiptune.Proofs.Track.Ownership
import Chiptune.Proofs.VoicePool.Safety
import Mathlib.Logic.Relation

/-!
# Ties

A note that is started without a duration is a tie: it sounds until a note-off of its key ends it.
The key of a tie is the one that the track plays, transposed and kept within the keyboard, while a
note-off is taken at its word. So a tie ends with the note-off of the key that it *sounds* on. Where
that is not the key that was written, the note-off of the written key misses it, and the note hangs.

`Track.tie_ends` says so of one tie and all that may happen between its two commands. Whatever that
is (`Track.Happens`), what is held under the tie's handle stays the tie (`Track.Ties`).
-/

namespace Chiptune

/-! ## Releasing

What a list of releases leaves under a handle. A handle may be in it twice, which makes no
difference. -/

theorem Envelope.release_release (e : Envelope) : e.release.release = e.release := by
  conv_lhs => rw [release, if_pos e.isReleased_release]

/-- A second release changes nothing. -/
theorem Voice.release_release (v : Voice) : v.release.release = v.release := by
  simp [release, Envelope.release_release]

/-- After some handles were released, those find their voices in their release, and the others what
they found. -/
theorem VoicePool.get?_releaseAll (handles : List VoiceHandle) (p : VoicePool) (h : VoiceHandle) :
    (p.releaseAll handles).get? h =
      if h ∈ handles then (p.get? h).map Voice.release else p.get? h := by
  induction handles generalizing p with
  | nil => rfl
  | cons i handles ih =>
    show ((p.release i).releaseAll handles).get? h = _
    rw [ih, get?_release]
    by_cases first : h = i
    · cases p.get? h <;> simp [first, Voice.release_release]
    · simp [first]

namespace Track

variable {env : Setting} {t : Track} {st : Stage} {handle : VoiceHandle} {key : Nat}

/-! ## Which keys are kept

The written key and the key that sounds are one only if nothing is transposed or the keyboard ends
there. -/

/-- A key is played as it was written if nothing is transposed, or at an edge of the keyboard that
it would be moved beyond. -/
theorem transposed_eq_self_iff {transpose : Int} (inside : key ≤ 127) :
    transposed key transpose = key ↔
      transpose = 0 ∨ (key = 0 ∧ transpose ≤ 0) ∨ (key = 127 ∧ 0 ≤ transpose) := by
  unfold transposed
  omega

/-! ## What is held under a handle

Between the note-on and the note-off a lot may happen, and it is listed here: ticks are taken apart
into commands, and everything around the track is an evolution of the pool. -/

/-- The handle was given out, and what the track holds under it is a tie on this key. -/
structure Ties (handle : VoiceHandle) (key : Nat) (t : Track) (p : VoicePool) : Prop where
  serial_lt : handle.serial < p.nextSerial
  tie {n : Note} : n ∈ t.notes → n.handle = handle → n.key = key ∧ n.remaining = none

/-- What may happen to a track between two of its commands. -/
inductive Happens (env : Setting) : Track × Stage → Track × Stage → Prop
  | countDown (t : Track) (st : Stage) : Happens env (t, st) (t.countDown st)
  /-- The playhead moves somewhere and asks for something. -/
  | obey (t : Track) (st : Stage) (moved : Playhead × List Effect) :
      Happens env (t, st) (t.obey env moved st)
  | mute (t : Track) (st : Stage) (muted : Bool) : Happens env (t, st) ({ t with muted }, st)
  /-- Other tracks are at work, or sound is rendered. -/
  | elsewhere (t : Track) (st st' : Stage) (ev : st.pool.Evolves (· ≠ t.index) st'.pool) :
      Happens env (t, st) (t, st')

/-- A tick is a row of commands, each of which is performed as one happening. -/
theorem happens_workOff (budget : Nat) (t : Track) (st : Stage) :
    Relation.ReflTransGen (Happens env) (t, st) (t.workOff env budget st) := by
  induction budget generalizing t st with
  | zero => exact .single (.obey t st _)
  | succ budget ih =>
    have first : Happens env (t, st) _ := .obey t st (t.head.step env.driver t.source.stream)
    rw [workOff]
    dsimp only
    split
    · exact .single first
    · exact .head first (ih _ _)

/-- A tick of the track happens command by command. -/
theorem happens_tick (t : Track) (st : Stage) :
    Relation.ReflTransGen (Happens env) (t, st) (t.tick env st) := by
  by_cases finished : t.IsFinished
  · rw [tick_of_isFinished finished]
  · rw [tick_eq_workOff finished]
    refine .head (.countDown t st) ?_
    dsimp only
    split
    · exact .single (.obey _ _ (_, []))
    · exact .head (.obey _ _ (_, [])) (happens_workOff _ _ _)

/-! ### It stays the tie

The invariant is kept by each happening, and thus by any row of them. -/

theorem notes_makeRoom_subset (t : Track) (st : Stage) : (t.makeRoom st).1.notes ⊆ t.notes := by
  unfold makeRoom
  split
  · exact List.Subset.refl _
  · exact List.drop_subset 1 _

/-- A note that is not among the old ones has a serial number that was not given out before. -/
theorem mem_notes_apply {n : Note} {e : Effect} (mem : n ∈ (t.apply env st e).1.notes) :
    n ∈ t.notes ∨ st.pool.nextSerial ≤ n.handle.serial := by
  cases e with
  | noteOn key velocity duration c =>
    simp only [apply, noteOn] at mem
    split at mem
    · have evolves := (turn_makeRoom t st).evolves
      rcases List.mem_append.mp mem with old | new
      · exact .inl (notes_makeRoom_subset t st old)
      · rw [List.mem_singleton.mp new]
        exact .inr evolves.nextSerial_le
    · exact .inl mem
  | noteOff key => exact .inl (List.mem_filter.mp mem).1
  | ended => exact .inl (List.mem_filter.mp mem).1
  | failed error => exact .inl (List.mem_filter.mp mem).1
  | _ => exact .inl mem

/-- Where the playhead is does not matter. -/
theorem Ties.moved (h : t.Ties handle key st.pool) (head : Playhead) :
    ({ t with head } : Track).Ties handle key st.pool := ⟨h.serial_lt, h.tie⟩

/-- What a track does may end a tie or add notes under new handles, but never holds something else
under an old one. -/
theorem Ties.apply (h : t.Ties handle key st.pool) (e : Effect) :
    (t.apply env st e).1.Ties handle key (t.apply env st e).2.pool where
  serial_lt := Nat.lt_of_lt_of_le h.serial_lt (turn_apply env t st e).evolves.nextSerial_le
  tie {n} mem same := by
    rcases mem_notes_apply mem with old | new
    · exact h.tie old same
    · have := h.serial_lt
      rw [same] at new
      omega

theorem Ties.applyAll (h : t.Ties handle key st.pool) (effects : List Effect) :
    (applyAll env effects t st).1.Ties handle key (applyAll env effects t st).2.pool := by
  induction effects generalizing t st with
  | nil => exact h
  | cons e effects ih => exact ih (h.apply e)

/-- The count of a tick does not touch ties: they have no time left to count. -/
theorem Ties.countDown (h : t.Ties handle key st.pool) :
    (t.countDown st).1.Ties handle key (t.countDown st).2.pool where
  serial_lt := Nat.lt_of_lt_of_le h.serial_lt (turn_countDown t st).evolves.nextSerial_le
  tie {n} mem same := by
    obtain ⟨n, old, rfl⟩ := List.mem_map.mp (List.mem_filter.mp mem).1
    obtain ⟨onKey, untimed⟩ := h.tie old same
    exact ⟨onKey, by simp [Note.countDown, untimed]⟩

/-- Whatever happens to a track between two of its commands, a handle of a tie stays one. -/
theorem Ties.happens {a b : Track × Stage} (h : a.1.Ties handle key a.2.pool)
    (step : Happens env a b) : b.1.Ties handle key b.2.pool := by
  cases step with
  | countDown => exact h.countDown
  | obey t st moved => exact (h.moved moved.1).applyAll moved.2
  | mute => exact ⟨h.serial_lt, h.tie⟩
  | elsewhere _ _ _ ev => exact ⟨Nat.lt_of_lt_of_le h.serial_lt ev.nextSerial_le, h.tie⟩

/-- Whatever happens, what is held under the handle is the tie. -/
theorem Ties.run {a b : Track × Stage} (h : a.1.Ties handle key a.2.pool)
    (run : Relation.ReflTransGen (Happens env) a b) : b.1.Ties handle key b.2.pool := by
  induction run with
  | refl => exact h
  | tail _ step ih => exact ih.happens step

/-- The pool evolves, in the name of any tracks. -/
theorem Happens.evolves {a b : Track × Stage} (step : Happens env a b) :
    a.2.pool.Evolves (fun _ => True) b.2.pool := by
  cases step with
  | countDown t st => exact (turn_countDown t st).evolves.mono fun _ _ => trivial
  | obey t st moved =>
    exact (turn_applyAll env moved.2 { t with head := moved.1 } st).evolves.mono fun _ _ => trivial
  | mute t st => exact .refl st.pool
  | elsewhere _ _ _ ev => exact ev.mono fun _ _ => trivial

/-- In a run of happenings the pool evolves. -/
theorem evolves_of_run {a b : Track × Stage} (run : Relation.ReflTransGen (Happens env) a b) :
    a.2.pool.Evolves (fun _ => True) b.2.pool := by
  induction run with
  | refl => exact .refl a.2.pool
  | tail _ step ih => exact ih.trans step.evolves

/-! ## The two commands

What a note-on without a duration does, and what a note-off does to a track that holds such a note.
-/

theorem perform_noteOn (offset : Nat) {velocity : Nat} {duration : Option Nat} {voice : Voice}
    (sounds : voiceFor env t.index t.muted (transposed key t.head.controls.transpose) velocity
      t.head.controls = .ok voice) :
    t.perform env offset (.noteOn key velocity duration) st =
      { t with head := t.head.settle }.hold (transposed key t.head.controls.transpose) duration
        voice st := by
  simp [perform, obey, Playhead.execute, Track.apply, noteOn, sounds]

theorem perform_noteOff (offset : Nat) (written : Option Nat) :
    t.perform env offset (.noteOff written) st =
      { t with head := t.head.settle }.endNotes (fun n => n.EndsWith written) st := rfl

/-- A note begins: its voice is in the pool, and the track holds it behind the notes that it had
room for, under a handle that none of them has. -/
theorem exists_notes_hold (key : Nat) (duration : Option Nat) (voice : Voice)
    (given : ∀ n ∈ t.notes, n.handle.serial < st.pool.nextSerial)
    (capacity : 0 < st.pool.capacity) :
    let begun := t.hold key duration voice st
    ∃ note : Note, note.key = key ∧ note.remaining = duration.map (max 1) ∧
      begun.1.notes = (t.makeRoom st).1.notes ++ [note] ∧
      note.handle ∉ (t.makeRoom st).1.notes.map Note.handle ∧
      note.handle.serial < begun.2.pool.nextSerial ∧
      begun.2.pool.get? note.handle = some voice := by
  intro begun
  let room := t.makeRoom st
  have evolves : st.pool.Evolves (· = t.index) room.2.pool := (turn_makeRoom t st).evolves
  let note : Note := ⟨(room.2.pool.allocate voice).1, key, duration.map (max 1)⟩
  refine ⟨note, rfl, rfl, rfl, fun mem => ?_, Nat.lt_succ_self _, ?_⟩
  · -- the serial number of the note is greater than all that are held
    obtain ⟨n, held, same⟩ := List.mem_map.mp mem
    have older := given n (notes_makeRoom_subset t st held)
    have serial : n.handle.serial = room.2.pool.nextSerial := by rw [same]; rfl
    have := evolves.nextSerial_le
    omega
  · exact VoicePool.get?_allocate_self (evolves.capacity_eq ▸ capacity) voice

/-- A tie begins: its voice is in the pool, and nothing else is held under its handle. -/
theorem ties_hold (key : Nat) (voice : Voice)
    (given : ∀ n ∈ t.notes, n.handle.serial < st.pool.nextSerial)
    (capacity : 0 < st.pool.capacity) :
    let begun := t.hold key none voice st
    ∃ tie ∈ begun.1.notes, begun.1.Ties tie.handle key begun.2.pool ∧
      begun.2.pool.get? tie.handle = some voice := by
  intro begun
  obtain ⟨tie, onKey, untimed, notes, alone, serial, found⟩ :=
    exists_notes_hold key none voice given capacity
  refine ⟨tie, by simp [begun, notes], ⟨serial, ?_⟩, found⟩
  intro n mem same
  rw [notes] at mem
  rcases List.mem_append.mp mem with old | new
  · exact absurd (same ▸ List.mem_map_of_mem old) alone
  · rw [List.mem_singleton.mp new]
    exact ⟨onKey, untimed⟩

/-- The note-off of the key that a tie sounds on ends it, and no other does. -/
theorem Ties.noteOff {tie : Note} (h : t.Ties tie.handle key st.pool) (mem : tie ∈ t.notes)
    (written : Nat) :
    let ended := t.endNotes (fun n => n.EndsWith (some written)) st
    if written = key then
      tie.handle ∉ ended.1.notes.map Note.handle ∧
        ended.2.pool.get? tie.handle = (st.pool.get? tie.handle).map Voice.release
    else tie ∈ ended.1.notes ∧ ended.2.pool.get? tie.handle = st.pool.get? tie.handle := by
  intro ended
  have ends {n : Note} (held : n ∈ t.notes) (same : n.handle = tie.handle) :
      n.EndsWith (some written) ↔ written = key := by
    obtain ⟨onKey, untimed⟩ := h.tie held same
    simp [Note.EndsWith, untimed, onKey]
  have released : tie.handle ∈
      (t.notes.filter fun n => n.EndsWith (some written)).map Note.handle ↔ written = key := by
    constructor
    · intro picked
      obtain ⟨n, held, same⟩ := List.mem_map.mp picked
      obtain ⟨held, off⟩ := List.mem_filter.mp held
      exact (ends held same).mp (of_decide_eq_true off)
    · intro e
      exact List.mem_map_of_mem
        (List.mem_filter.mpr ⟨mem, decide_eq_true ((ends mem rfl).mpr e)⟩)
  have pool : ended.2.pool.get? tie.handle =
      if written = key then (st.pool.get? tie.handle).map Voice.release
      else st.pool.get? tie.handle := by
    simp only [ended, endNotes, releaseNotes_pool, VoicePool.get?_releaseAll, released]
  rw [pool]
  split
  · next e =>
    refine ⟨?_, rfl⟩
    intro kept
    obtain ⟨n, held, same⟩ := List.mem_map.mp kept
    obtain ⟨held, stays⟩ := List.mem_filter.mp held
    simp [(ends held same).mpr e] at stays
  · next e =>
    have stays : ¬ tie.EndsWith (some written) := fun off => e ((ends mem rfl).mp off)
    exact ⟨List.mem_filter.mpr ⟨mem, by simp [stays]⟩, rfl⟩

/-! ## Between the two commands

All parts together, for any row of happenings between the two commands. -/

/-- A tie that is still held when a note-off comes, whatever has happened since it began, is ended
by it exactly if the note-off names the key that the tie sounds on. Which transposition is in effect
by then makes no difference. In every run, the handles that a track holds were given out before
(`Owns.serial_lt`), and its pool has a slot. -/
theorem tie_ends (env : Setting) (t : Track) (st : Stage) (offset key velocity : Nat)
    {voice : Voice}
    (given : ∀ n ∈ t.notes, n.handle.serial < st.pool.nextSerial)
    (capacity : 0 < st.pool.capacity)
    (sounds : voiceFor env t.index t.muted (transposed key t.head.controls.transpose) velocity
      t.head.controls = .ok voice) :
    let soundingKey := transposed key t.head.controls.transpose
    let begun := t.perform env offset (.noteOn key velocity none) st
    ∃ tie ∈ begun.1.notes, begun.2.pool.get? tie.handle = some voice ∧
      ∀ later : Track × Stage, Relation.ReflTransGen (Happens env) begun later →
        tie ∈ later.1.notes →
        (∀ w, later.2.pool.get? tie.handle = some w → voice.Continues w) ∧
        ∀ offset' written,
          let ended := later.1.perform env offset' (.noteOff (some written)) later.2
          if written = soundingKey then
            tie.handle ∉ ended.1.notes.map Note.handle ∧
              ended.2.pool.get? tie.handle = (later.2.pool.get? tie.handle).map Voice.release
          else
            tie ∈ ended.1.notes ∧
              ended.2.pool.get? tie.handle = later.2.pool.get? tie.handle := by
  intro soundingKey begun
  -- the note begins as one that is held, and ties the key that sounds
  have begins : begun = { t with head := t.head.settle }.hold soundingKey none voice st :=
    perform_noteOn offset sounds
  obtain ⟨tie, mem, ties, found⟩ :=
    ties_hold (t := { t with head := t.head.settle }) soundingKey voice given capacity
  rw [← begins] at mem ties found
  refine ⟨tie, mem, found, fun later run held => ⟨?_, ?_⟩⟩
  -- whatever is found under its handle later on is the same voice gone on
  · intro w hw
    rcases (evolves_of_run run).found hw with ⟨v, hv, continues⟩ | ⟨new, -⟩
    · cases found.symm.trans hv
      exact continues
    · exact absurd ties.serial_lt (Nat.not_lt_of_le new)
  · intro offset' written
    have atEnd : later.1.Ties tie.handle soundingKey later.2.pool := ties.run run
    simp only [perform_noteOff]
    exact (atEnd.moved later.1.head.settle).noteOff held written

/-- What a track plays with that has a square wave for its program. -/
def squareWave : Setting where
  driver := .m4a
  bank := { programs := #[some (.single { source := .square .half })] }
  sampleRate := 100
  commandLimit := 10

theorem tie_ends_twoSemitonesUp :
    let t : Track :=
      { index := 0
        source := .ofBytes ⟨#[0x83]⟩
        head := { cursor := 0, controls := { bendRange := 2, transpose := 2 } } }
    let st : Stage := { pool := .empty 4, tempo := 150, notices := {} }
    let begun := t.perform squareWave 0 (.noteOn 60 100 none) st
    let later := begun.1.tick squareWave begun.2
    ∃ tie ∈ later.1.notes,
      tie ∈ (later.1.perform squareWave 4 (.noteOff (some 60)) later.2).1.notes ∧
      tie.handle ∉
        (later.1.perform squareWave 4 (.noteOff (some 62)) later.2).1.notes.map Note.handle := by
  intro t st begun later
  obtain ⟨voice, sounds⟩ : ∃ voice, voiceFor squareWave t.index t.muted
      (transposed 60 t.head.controls.transpose) 100 t.head.controls = .ok voice := ⟨_, rfl⟩
  obtain ⟨tie, mem, -, ends⟩ :=
    tie_ends squareWave t st 0 60 100 (by decide) (by decide) sounds
  have kept : later.1.notes = begun.1.notes := by decide +kernel
  have held : tie ∈ later.1.notes := by
    rw [kept]
    exact mem
  obtain ⟨-, off⟩ := ends later (happens_tick begun.1 begun.2) held
  -- the key that sounds is two above the written one
  have moved : transposed 60 t.head.controls.transpose ≠ 60 := by
    rw [Ne, transposed_eq_self_iff (by decide)]
    decide
  have written := off 4 60
  have sounding := off 4 62
  dsimp only at written sounding
  rw [if_neg moved.symm] at written
  rw [if_pos (by decide)] at sounding
  exact ⟨tie, held, written.1, sounding.1⟩

/-- The note-off of the written key comes, and the tie sounds on. -/
theorem hangingTie_sounds_on :
    let t : Track := .atStart .m4a 0
      (.ofBytes ⟨#[0xBC, 2, 0xCF, 60, 127, 0x81, 0xCE, 60, 0xB0, 0xB1]⟩)
    let begun := t.tick squareWave { pool := .empty 4, tempo := 150, notices := {} }
    let ended := begun.1.tick squareWave begun.2
    begun.1.soundingKeys begun.2.pool = [62] ∧
      ended.1.head.cursor = 9 ∧ ended.1.soundingKeys ended.2.pool = [62] := by
  decide +kernel

end Track
end Chiptune
