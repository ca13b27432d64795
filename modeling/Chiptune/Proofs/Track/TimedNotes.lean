import Chiptune.Proofs.EventStream.Soundness
import Chiptune.Proofs.Track.Awaiting

/-!
# Timed notes

A note that is started with a duration is counted down at the start of each later tick of its track,
and ends in the tick in which the count comes to zero, before any command is run. Nothing else in
the track ends it, unless so many notes follow that there is no room for it.

The track is looked at by itself, with everything around it as steps that may happen at any time
between its ticks (`Track.Meanwhile`): the ticks of other tracks, sound, and what the host does. A
`Track.Course` counts the ticks of the track and the notes that it starts. `Track.timed_note_lasts`
follows a note through all that, from the command that starts it.
-/

namespace Chiptune.Track

variable {env : Setting} {t : Track} {st : Stage} {p : VoicePool} {handle : VoiceHandle}

/-! ## Between the ticks of a track

Other tracks tick, sound is rendered, voices are released and stolen. A course is made of ticks of
the track and of such changes, in any order. -/

/-- What may happen around a track between two of its ticks, as long as its voices are not cut. -/
inductive Meanwhile (env : Setting) : Track × Stage → Track × Stage → Prop
  /-- Another track ticks. -/
  | otherTick {u : Track} (t : Track) (st : Stage) (other : u.index ≠ t.index)
      (owns : u.Owns st.pool) : Meanwhile env (t, st) (t, (u.tick env st).2)
  /-- A frame sounds. -/
  | frame (t : Track) (st : Stage) :
      Meanwhile env (t, st) (t, st.modifyPool (·.advance env.bank))
  /-- All envelopes step, and finished voices leave the pool. -/
  | envelopes (t : Track) (st : Stage) :
      Meanwhile env (t, st) (t, st.modifyPool fun p => p.stepEnvelopes.reapFinished)
  /-- This track or another one is muted or heard again. -/
  | mute (t : Track) (st : Stage) (own : Bool) (index : Nat) (muted : Bool) :
      Meanwhile env (t, st)
        ({ t with muted := own }, st.modifyPool (·.mapTrack index (·.setMuted muted)))
  /-- What no voice depends on is set. -/
  | adjust (t : Track) (st : Stage) (tempo : Nat) (notices : Notices) :
      Meanwhile env (t, st) (t, { st with tempo, notices })

/-- How a track and its stage go on, with so many ticks of the track, in which it starts so many
notes. -/
inductive Course (env : Setting) (a : Track × Stage) :
    (ticks started : Nat) → Track × Stage → Prop
  | refl : Course env a 0 0 a
  | meanwhile {b c : Track × Stage} {ticks started : Nat} (earlier : Course env a ticks started b)
      (step : Meanwhile env b c) : Course env a ticks started c
  | tick {b : Track × Stage} {ticks started more : Nat} (earlier : Course env a ticks started b)
      (count : b.2.pool.startedUntil (b.1.tick env b.2).2.pool = more) :
      Course env a (ticks + 1) (started + more) (b.1.tick env b.2)

section Course

variable {a b c : Track × Stage} {ticks started : Nat} {note : Note} {younger : Nat}

theorem Meanwhile.evolves (step : Meanwhile env b c) :
    b.2.pool.Evolves (fun _ => True) c.2.pool := by
  cases step with
  | otherTick t st other owns =>
    exact (turn_tick env _ st).evolves.mono fun _ _ => trivial
  | frame t st => exact st.pool.evolves_mapVoices fun v => .of_sameNote (.advance env.bank v)
  | envelopes t st =>
    exact (st.pool.evolves_mapVoices fun v => .stepEnvelope v).trans
      (VoicePool.evolves_reapFinished _)
  | mute t st own index muted =>
    exact st.pool.evolves_mapTrack index fun v => .of_sameNote (.setMuted v muted)
  | adjust t st tempo notices => exact .refl st.pool

theorem Meanwhile.head_eq (step : Meanwhile env b c) : c.1.head = b.1.head := by
  cases step <;> rfl

/-- The note is awaited on, as long as its voice is there. -/
theorem Awaits.meanwhile (h : b.1.Awaits note younger b.2.pool) (step : Meanwhile env b c)
    (found : (b.2.pool.get? note.handle).isSome) : c.1.Awaits note younger c.2.pool := by
  have le := step.evolves.nextSerial_le
  cases step with
  | @otherTick u t st other owns =>
    refine h.of_spares ?_ le
    apply Lacks.spares_tick
    refine ⟨h.serial_lt, fun mem => ?_⟩
    -- the voice is not the other track's
    obtain ⟨n, held, same⟩ := List.mem_map.mp mem
    obtain ⟨v, hv⟩ := Option.isSome_iff_exists.mp found
    have theirs := (owns.fits n held v (same ▸ hv)).1
    exact other (theirs.symm.trans (h.sounds v hv).1)
  | frame t st =>
    exact h.of_spares (VoicePool.later_mapVoices fun v => .of_sameNote (.advance env.bank v)) le
  | envelopes t st =>
    have stepped : VoicePool.Spares note.handle st.pool st.pool.stepEnvelopes :=
      VoicePool.later_mapVoices Voice.Lasts.stepEnvelope
    exact h.of_spares (stepped.trans VoicePool.later_reapFinished) le
  | mute t st own index muted =>
    have same := fun v : Voice => Voice.Lasts.of_sameNote (.setMuted v muted)
    have kept := h.of_spares (VoicePool.later_mapTrack same) le
    exact ⟨kept.serial_lt, kept.held, kept.sounds⟩
  | adjust t st tempo notices => exact h

theorem Course.evolves (course : Course env a ticks started b) :
    a.2.pool.Evolves (fun _ => True) b.2.pool := by
  induction course with
  | refl => exact .refl a.2.pool
  | meanwhile _ step ih => exact ih.trans step.evolves
  | tick _ _ ih => exact ih.trans ((turn_tick env _ _).evolves.mono fun _ _ => trivial)

/-- For every note that the track starts, a serial number is given out. -/
theorem Course.started_le (course : Course env a ticks started b) :
    a.2.pool.nextSerial + started ≤ b.2.pool.nextSerial := by
  induction course with
  | refl => exact Nat.le_refl _
  | meanwhile _ step ih => exact Nat.le_trans ih step.evolves.nextSerial_le
  | @tick b _ _ _ _ count ih =>
    have ticked := (turn_tick env b.1 b.2).evolves.nextSerial_le
    unfold VoicePool.startedUntil at count
    omega

/-- A voice that is found was found before. -/
theorem isSome_get?_of_evolves {movers : Nat → Prop} {q : VoicePool} (ev : p.Evolves movers q)
    (given : handle.serial < p.nextSerial) (found : (q.get? handle).isSome) :
    (p.get? handle).isSome := by
  obtain ⟨w, hw⟩ := Option.isSome_iff_exists.mp found
  rcases ev.found hw with ⟨v, hv, -⟩ | ⟨new, -⟩
  · exact Option.isSome_iff_exists.mpr ⟨v, hv⟩
  · exact absurd given (Nat.not_lt_of_le new)

/-- A course that has not finished the track leaves the note with so many ticks less to go. -/
theorem Awaits.course {left : Nat} (h : a.1.Awaits note younger a.2.pool)
    (remaining : note.remaining = some left) (course : Course env a ticks started b)
    (soon : ticks < left) (few : younger + started ≤ 15) (unfinished : ¬ b.1.IsFinished)
    (found : (b.2.pool.get? note.handle).isSome) :
    b.1.Awaits { note with remaining := some (left - ticks) } (younger + started) b.2.pool := by
  -- along the course, each tick takes one off what remains of the note
  induction course with
  | refl =>
    rw [Nat.sub_zero, ← remaining]
    exact h
  | @meanwhile b c ticks started earlier step ih =>
    have given := Nat.lt_of_lt_of_le h.serial_lt earlier.evolves.nextSerial_le
    have before := isSome_get?_of_evolves step.evolves given found
    rw [IsFinished, step.head_eq] at unfinished
    exact (ih soon few unfinished before).meanwhile step before
  | @tick b ticks started more earlier count ih =>
    have given := Nat.lt_of_lt_of_le h.serial_lt earlier.evolves.nextSerial_le
    have before := isSome_get?_of_evolves (turn_tick env b.1 b.2).evolves given found
    have going : ¬ b.1.IsFinished := fun finished =>
      unfinished (by rwa [tick_of_isFinished finished])
    have awaited := ih (Nat.lt_of_succ_lt soon) (by omega) going before
    rw [← count, ← Nat.add_assoc] at few ⊢
    exact awaited.tick rfl (by omega) before unfinished few

/-- The track stays finished. -/
theorem Course.isFinished (course : Course env a ticks started b) (finished : a.1.IsFinished) :
    b.1.IsFinished := by
  induction course with
  | refl => exact finished
  | meanwhile _ step ih =>
    rw [IsFinished, step.head_eq]
    exact ih
  | tick _ _ ih => rwa [tick_of_isFinished ih]

end Course

/-! ## The note from its start to its end

From the note-on in the middle of a tick, over the rest of this tick and the ticks that it has to
wait, to the tick that counts it out. -/

/-- In the tick of `t₀` that begins on the stage `st₀`, the track has come to `t` and the stage to
`st`. The next command is to be run, and no more than `budget` of them. -/
inductive AtCommand (env : Setting) (t₀ : Track) (st₀ : Stage) :
    (budget : Nat) → Track → Stage → Prop
  | first (unfinished : ¬ t₀.IsFinished) (woken : ¬ 1 < t₀.head.started.rest) :
      AtCommand env t₀ st₀ env.commandLimit
        { (t₀.countDown st₀).1 with head := { t₀.head.started with rest := 0 } }
        (t₀.countDown st₀).2
  | next {budget : Nat} {t : Track} {st : Stage} (here : AtCommand env t₀ st₀ (budget + 1) t st)
      (going : ¬ (t.head.step env.driver t.source.stream).1.IsAtRest) :
      AtCommand env t₀ st₀ budget (t.obey env (t.head.step env.driver t.source.stream) st).1
        (t.obey env (t.head.step env.driver t.source.stream) st).2

namespace AtCommand

variable {t₀ : Track} {st₀ : Stage} {budget : Nat}

/-- What is left of the tick. -/
theorem tick_eq (here : AtCommand env t₀ st₀ budget t st) :
    t₀.tick env st₀ = t.workOff env budget st := by
  induction here with
  | first unfinished woken =>
    rw [tick_eq_workOff unfinished]
    exact if_neg woken
  | next _ going ih =>
    rw [ih, workOff]
    dsimp only
    rw [head_obey, if_neg going]

theorem rest_eq (here : AtCommand env t₀ st₀ budget t st) : t.head.rest = 0 := by
  cases here with
  | first => rfl
  | next _ going =>
    rw [head_obey]
    exact Nat.eq_zero_of_not_pos fun rests => going (Or.inr rests)

theorem turn (here : AtCommand env t₀ st₀ budget t st) : t₀.Turn st₀.pool t st.pool := by
  induction here with
  | first unfinished woken =>
    have moved : (t₀.countDown st₀).1.Turn (t₀.countDown st₀).2.pool
        { (t₀.countDown st₀).1 with head := { t₀.head.started with rest := 0 } }
        (t₀.countDown st₀).2.pool :=
      ⟨rfl, .refl _, fun o => o.congr rfl rfl⟩
    exact (turn_countDown t₀ st₀).trans moved
  | next _ _ ih => exact ih.trans (turn_obey env _ _ _)

/-- Behind the command too there is only a turn of the track. -/
theorem turn_obey (here : AtCommand env t₀ st₀ (budget + 1) t st) :
    let begun := t.obey env (t.head.step env.driver t.source.stream) st
    begun.1.Turn begun.2.pool (t₀.tick env st₀).1 (t₀.tick env st₀).2.pool := by
  rw [here.tick_eq, workOff]
  dsimp only
  split
  · exact .refl _ _
  · exact turn_workOff env budget _ _

end AtCommand

/-- A voice is made unreleased. -/
theorem not_isReleased_of_voiceFor {index key velocity : Nat} {muted : Bool} {c : Controls}
    {voice : Voice} (h : voiceFor env index muted key velocity c = .ok voice) :
    ¬ voice.envelope.IsReleased := by
  unfold voiceFor at h
  split at h
  · cases h
  · split at h
    · cases h
    · cases h
      exact Envelope.not_isReleased_start _ _

/-- A note begins that is awaited. -/
theorem awaits_hold (key : Nat) (duration : Option Nat) {voice : Voice}
    (given : ∀ n ∈ t.notes, n.handle.serial < st.pool.nextSerial) (capacity : 0 < st.pool.capacity)
    (own : voice.track = t.index) (unreleased : ¬ voice.envelope.IsReleased) :
    let begun := t.hold key duration voice st
    ∃ note ∈ begun.1.notes, note.remaining = duration.map (max 1) ∧
      begun.2.pool.get? note.handle = some voice ∧ begun.1.Awaits note 0 begun.2.pool := by
  intro begun
  obtain ⟨note, -, remaining, notes, alone, serial, found⟩ :=
    exists_notes_hold key duration voice given capacity
  refine ⟨note, by simp [begun, notes], remaining, found, serial, ⟨_, [], notes, ?_, ?_⟩, ?_⟩
  · rwa [List.append_nil]
  · exact Nat.le_refl 0
  · intro w hw
    cases found.symm.trans hw
    exact ⟨own.trans (turn_makeRoom t st).index_eq.symm, unreleased⟩

/-- A note-on with a duration begins a note of so many ticks, and of one tick if that is none. At
the end of the tick it is awaited, if the track has not finished and has not started so many more
notes that there is no room for it. -/
theorem AtCommand.exists_awaited {t₀ t : Track} {st₀ st : Stage}
    {budget key velocity duration length : Nat} {voice : Voice}
    (here : AtCommand env t₀ st₀ (budget + 1) t st)
    (owns : t₀.Owns st₀.pool) (capacity : 0 < st₀.pool.capacity)
    (decoded : (t.source.stream.decode env.driver t.head.cursor t.head.status).2 =
      .ok ⟨.noteOn key velocity (some duration), length⟩)
    (sounds : voiceFor env t.index t.muted (transposed key t.head.controls.transpose) velocity
      t.head.controls = .ok voice) :
    let begun := t.obey env (t.head.step env.driver t.source.stream) st
    let done := t₀.tick env st₀
    ∃ note ∈ begun.1.notes, note.remaining = some (max 1 duration) ∧
      begun.2.pool.get? note.handle = some voice ∧
      (¬ done.1.IsFinished → begun.2.pool.startedUntil done.2.pool ≤ 15 →
        done.1.Awaits note (begun.2.pool.startedUntil done.2.pool) done.2.pool) := by
  intro begun done
  have more := EventStream.lt_size_of_decode decoded
  obtain ⟨status, decoded⟩ : ∃ status,
      t.source.stream.decode env.driver t.head.cursor t.head.status =
        (status, .ok ⟨.noteOn key velocity (some duration), length⟩) :=
    ⟨_, Prod.ext rfl decoded⟩
  let behind : Track :=
    { t with head := { t.head with status, cursor := t.head.cursor + length } }
  have begins : begun = { behind with head := behind.head.settle }.hold
      (transposed key t.head.controls.transpose) (some duration) voice st :=
    (obey_step st more decoded).trans (perform_noteOn t.head.cursor sounds)
  have given := (here.turn.owns owns).serial_lt
  have room : 0 < st.pool.capacity := here.turn.evolves.capacity_eq ▸ capacity
  obtain ⟨note, mem, remaining, found, awaits⟩ :=
    awaits_hold (t := { behind with head := behind.head.settle })
      (transposed key t.head.controls.transpose) (some duration) given room
      (voiceFor_eq_ok sounds).1 (not_isReleased_of_voiceFor sounds)
  rw [← begins] at mem found awaits
  refine ⟨note, mem, remaining, found, fun unfinished few => ?_⟩
  have timed : note.remaining ≠ none := by simp [remaining]
  -- what is left of the tick
  have stepped : (t.head.step env.driver t.source.stream).1 = behind.head.settle := by
    rw [Playhead.step, if_neg (Nat.not_le_of_gt more), decoded]
    rfl
  have going : ¬ (t.head.step env.driver t.source.stream).1.IsAtRest := by
    rw [stepped]
    rintro (finished | rests)
    · exact Playhead.not_isFinished_settle _ finished
    · exact Nat.ne_of_gt rests here.rest_eq
  have ended : done = begun.1.workOff env budget begun.2 := (here.next going).tick_eq
  rw [ended] at unfinished few ⊢
  rw [← Nat.zero_add (begun.2.pool.startedUntil _)] at few ⊢
  exact awaits.workOff timed unfinished few

section Lasting

variable {a b : Track × Stage} {ticks started younger left : Nat} {note : Note} {w : Voice}

/-- A note that is awaited is not released before it has counted its ticks. -/
theorem Awaits.course_of_get? (h : a.1.Awaits note younger a.2.pool)
    (remaining : note.remaining = some left) (course : Course env a ticks started b)
    (soon : ticks < left) (few : younger + started ≤ 15) (unfinished : ¬ b.1.IsFinished)
    (found : b.2.pool.get? note.handle = some w) :
    b.1.Awaits { note with remaining := some (left - ticks) } (younger + started) b.2.pool ∧
      ¬ w.envelope.IsReleased := by
  have awaited := h.course remaining course soon few unfinished (by simp [found])
  exact ⟨awaited, (awaited.sounds w found).2⟩

/-- A timed note is released by the count of its last tick. -/
theorem Awaits.released_by_countDown (h : a.1.Awaits note younger a.2.pool)
    (remaining : note.remaining = some left) (course : Course env a ticks started b)
    (due : ticks + 1 = left) (few : younger + started ≤ 15) (unfinished : ¬ b.1.IsFinished)
    (found : b.2.pool.get? note.handle = some w) :
    (b.1.countDown b.2).2.pool.get? note.handle = some w.release ∧
      note.handle ∉ (b.1.countDown b.2).1.notes.map Note.handle := by
  obtain ⟨awaited, -⟩ := h.course_of_get? remaining course (by omega) few unfinished found
  have last : left - ticks = 1 := by omega
  obtain ⟨released, gone⟩ := awaited.expires (by rw [last])
  exact ⟨released.trans (congrArg (Option.map Voice.release) found), gone⟩

theorem Awaits.isReleased_of_tick (h : a.1.Awaits note younger a.2.pool)
    (remaining : note.remaining = some left) (course : Course env a ticks started b)
    (due : ticks + 1 = left) (few : younger + started ≤ 15) (unfinished : ¬ b.1.IsFinished)
    (found : (b.1.tick env b.2).2.pool.get? note.handle = some w) : w.envelope.IsReleased := by
  have counted := (turn_countDown b.1 b.2).evolves
  have given := Nat.lt_of_lt_of_le h.serial_lt course.evolves.nextSerial_le
  -- the voice is the one that was there before the tick, so the count has released it
  rcases (turn_tick_of_countDown env b.2 unfinished).evolves.found found with
    ⟨v, hv, continues⟩ | ⟨new, -⟩
  · rcases counted.found hv with ⟨u, hu, -⟩ | ⟨new, -⟩
    · obtain ⟨released, -⟩ := h.released_by_countDown remaining course due few unfinished hu
      cases released.symm.trans hv
      exact continues.isReleased u.envelope.isReleased_release
    · exact absurd given (Nat.not_lt_of_le new)
  · exact absurd (Nat.lt_of_lt_of_le given counted.nextSerial_le) (Nat.not_lt_of_le new)

end Lasting

/-- A note that is started with a duration, and gets a voice, lasts exactly so many ticks, and one
tick if that is none. Whatever happens meanwhile, as long as the track goes on, starts no more than
fifteen further notes and does not lose the voice, the voice is not released before, and no note-off
would do so; and the tick that is then due begins by releasing it. -/
theorem timed_note_lasts (env : Setting) {t₀ t : Track} {st₀ st : Stage}
    {budget key velocity duration length : Nat} {voice : Voice}
    (owns : t₀.Owns st₀.pool) (capacity : 0 < st₀.pool.capacity)
    (here : AtCommand env t₀ st₀ (budget + 1) t st)
    (decoded : (t.source.stream.decode env.driver t.head.cursor t.head.status).2 =
      .ok ⟨.noteOn key velocity (some duration), length⟩)
    (sounds : voiceFor env t.index t.muted (transposed key t.head.controls.transpose) velocity
      t.head.controls = .ok voice) :
    let begun := t.obey env (t.head.step env.driver t.source.stream) st
    ∃ note ∈ begun.1.notes, begun.2.pool.get? note.handle = some voice ∧
      ∀ {ticks started : Nat} {later : Track × Stage} {w : Voice},
        Course env (t₀.tick env st₀) ticks started later →
        begun.2.pool.startedUntil (t₀.tick env st₀).2.pool + started ≤ 15 →
        ¬ later.1.IsFinished → later.2.pool.get? note.handle = some w →
        (ticks < max 1 duration → ¬ w.envelope.IsReleased ∧
          ∀ written, (later.1.endNotes (fun n => n.EndsWith written) later.2).2.pool.get?
            note.handle = some w) ∧
        (ticks + 1 = max 1 duration →
          (later.1.countDown later.2).2.pool.get? note.handle = some w.release ∧
          note.handle ∉ (later.1.countDown later.2).1.notes.map Note.handle) := by
  intro begun
  obtain ⟨note, mem, remaining, found, awaits⟩ := here.exists_awaited owns capacity decoded sounds
  refine ⟨note, mem, found, fun {ticks started later w} course few unfinished hw => ?_⟩
  -- a track that goes on later has not ended in the tick of the note
  have still : ¬ (t₀.tick env st₀).1.IsFinished := fun finished =>
    unfinished (course.isFinished finished)
  have kept := awaits still (Nat.le_trans (Nat.le_add_right _ started) few)
  constructor
  · intro soon
    obtain ⟨awaited, held⟩ := kept.course_of_get? remaining course soon few unfinished hw
    refine ⟨held, fun written => ?_⟩
    exact (awaited.get?_endNotes (Awaits.not_endsWith (by simp) written)).trans hw
  · intro due
    exact kept.released_by_countDown remaining course due few unfinished hw

/-- A frame sounds, with a step of all envelopes behind it, and the track ticks. -/
def soundAndTick (env : Setting) (a : Track × Stage) : Track × Stage :=
  a.1.tick env
    ((a.2.modifyPool (·.advance env.bank)).modifyPool fun p => p.stepEnvelopes.reapFinished)

theorem Course.soundAndTick {a b : Track × Stage} {ticks started more : Nat}
    (earlier : Course env a ticks started b)
    (count : b.2.pool.startedUntil (soundAndTick env b).2.pool = more) :
    Course env a (ticks + 1) (started + more) (soundAndTick env b) := by
  obtain ⟨t, st⟩ := b
  exact ((earlier.meanwhile (.frame t st)).meanwhile (.envelopes t _)).tick count

/-- A note of two ticks, a note-off of its key one tick later, and a rest. -/
def twoTicks : Track :=
  .atStart .m4a 0 (.ofBytes ⟨#[0xD1, 60, 100, 0x81, 0xCE, 60, 0x84, 0xB1]⟩)

theorem timed_note_lasts_twoTicks :
    let first := twoTicks.tick squareWave { pool := .empty 4, tempo := 150, notices := {} }
    let second := soundAndTick squareWave first
    ∃ v w, first.2.pool.get? ⟨0, 0⟩ = some v ∧ ¬ v.envelope.IsReleased ∧
      second.2.pool.get? ⟨0, 0⟩ = some w ∧ ¬ w.envelope.IsReleased ∧
      (second.1.countDown second.2).2.pool.get? ⟨0, 0⟩ = some w.release := by
  intro first second
  let silence : Stage := { pool := .empty 4, tempo := 150, notices := {} }
  have owns : twoTicks.Owns silence.pool :=
    owns_of_notes_eq_nil rfl fun h v hv => absurd hv (by simp [silence])
  let begun : Track := { twoTicks with head := { twoTicks.head with progress := .running } }
  have here : AtCommand squareWave twoTicks silence (9 + 1) begun silence :=
    .first (by decide) (by decide)
  have decoded : (twoTicks.source.stream.decode .m4a 0 {}).2 =
      .ok ⟨.noteOn 60 100 (some 2), 3⟩ := rfl
  obtain ⟨voice, sounds⟩ : ∃ voice, voiceFor squareWave begun.index begun.muted
      (transposed 60 begun.head.controls.transpose) 100 begun.head.controls = .ok voice := ⟨_, rfl⟩
  obtain ⟨note, mem, -, lasts⟩ := timed_note_lasts squareWave owns (by decide) here decoded sounds
  have same : note.handle = ⟨0, 0⟩ := by
    have one : (begun.obey squareWave (begun.head.step squareWave.driver begun.source.stream)
        silence).1.notes = [⟨⟨0, 0⟩, 60, some 2⟩] := by decide +kernel
    rw [one] at mem
    rw [List.mem_singleton.mp mem]
  rw [same] at lasts
  -- first no tick has passed, and then one
  have start : Course squareWave first 0 0 first := .refl
  have none : first.2.pool.startedUntil (soundAndTick squareWave first).2.pool = 0 := by
    decide +kernel
  have ticked : Course squareWave first 1 0 second := start.soundAndTick none
  obtain ⟨v, hv⟩ : ∃ v, first.2.pool.get? ⟨0, 0⟩ = some v :=
    Option.isSome_iff_exists.mp (by decide +kernel)
  obtain ⟨w, hw⟩ : ∃ w, second.2.pool.get? ⟨0, 0⟩ = some w :=
    Option.isSome_iff_exists.mp (by decide +kernel)
  have before := (lasts start (by decide +kernel) (by decide +kernel) hv).1 (by decide)
  have after := lasts ticked (by decide +kernel) (by decide +kernel) hw
  exact ⟨v, w, hv, before.1, hw, (after.1 (by decide)).1, (after.2 rfl).1⟩

end Chiptune.Track
