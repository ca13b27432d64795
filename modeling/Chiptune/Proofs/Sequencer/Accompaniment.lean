import Chiptune.Proofs.Sequencer.Notes
import Chiptune.Proofs.Track.TimedNotes

/-!
# What goes on around a track

A `Track.Course` looks at a single track, and takes everything else for something that may happen
between its ticks. Here it is seen that songs are played in no other way: as long as a song plays
on, each of its tracks is on such a course (`Sequencer.Booked.exists_course`). So what is true of
every course is true of every track of every song. Above all, a note with a duration lasts so many
ticks of the song (`Sequencer.Booked.released_when_due`).
-/

namespace Chiptune

variable {env : Setting} {tracks : List Track} {stage : Stage} {t : Track} {i : Nat}

theorem Track.Course.trans {a b c : Track × Stage} {ticks started more further : Nat}
    (first : Course env a ticks started b) (second : Course env b more further c) :
    Course env a (ticks + more) (started + further) c := by
  induction second with
  | refl => exact first
  | meanwhile _ step ih => exact ih.meanwhile step
  | tick _ count ih =>
    rw [← Nat.add_assoc, ← Nat.add_assoc]
    exact ih.tick count

namespace Sequencer

/-! ## The tick of a song

Tracks take turns on one stage. For one of them, the turns of those before it and behind it are
changes of the pool in the name of others. -/

/-- The ticks of other tracks come in between. -/
theorem course_tickTracks_of_notMem (distinct : (tracks.map Track.index).Nodup)
    (owns : ∀ u ∈ tracks, u.Owns stage.pool) (other : t.index ∉ tracks.map Track.index) :
    Track.Course env (t, stage) 0 0 (t, (tickTracks env tracks stage).2) := by
  induction tracks generalizing stage with
  | nil => exact .refl
  | cons u tracks ih =>
    rw [List.map_cons, List.nodup_cons] at distinct
    rw [List.map_cons, List.mem_cons, not_or] at other
    have ticks : Track.Course env (t, stage) 0 0 (t, (u.tick env stage).2) :=
      Track.Course.refl.meanwhile (.otherTick t stage (Ne.symm other.1) (owns u List.mem_cons_self))
    have theirs := owns_of_tick env distinct.1 fun v hv => owns v (List.mem_cons_of_mem u hv)
    exact ticks.trans (ih distinct.2 theirs other.2)

/-- The stage as the track at this place finds it when its turn comes. -/
def stageAt (env : Setting) (tracks : List Track) (i : Nat) (stage : Stage) : Stage :=
  (tickTracks env (tracks.take i) stage).2

/-- The tracks before it take their turns first. -/
theorem course_stageAt (env : Setting) (stage : Stage) (distinct : (tracks.map Track.index).Nodup)
    (owns : ∀ u ∈ tracks, u.Owns stage.pool) (ht : tracks[i]? = some t) :
    Track.Course env (t, stage) 0 0 (t, stageAt env tracks i stage) := by
  induction tracks generalizing stage i with
  | nil => cases ht
  | cons u tracks ih =>
    rw [List.map_cons, List.nodup_cons] at distinct
    cases i with
    | zero => exact .refl
    | succ i =>
      have mem : t ∈ tracks := List.mem_of_getElem? ht
      have other : u.index ≠ t.index := fun e => distinct.1 (e ▸ List.mem_map_of_mem mem)
      have ticks : Track.Course env (t, stage) 0 0 (t, (u.tick env stage).2) :=
        Track.Course.refl.meanwhile (.otherTick t stage other (owns u List.mem_cons_self))
      have theirs := owns_of_tick env distinct.1 fun v hv => owns v (List.mem_cons_of_mem u hv)
      exact ticks.trans (ih _ distinct.2 theirs ht)

/-- The tracks behind a track take their turns after it, which are foreign actions to its notes. -/
theorem course_of_turn (env : Setting) (stage : Stage) (distinct : (tracks.map Track.index).Nodup)
    (owns : ∀ u ∈ tracks, u.Owns stage.pool) (ht : tracks[i]? = some t) :
    let done := t.tick env (stageAt env tracks i stage)
    (tickTracks env tracks stage).1[i]? = some done.1 ∧
      Track.Course env done 0 0 (done.1, (tickTracks env tracks stage).2) := by
  induction tracks generalizing stage i with
  | nil => cases ht
  | cons u tracks ih =>
    rw [List.map_cons, List.nodup_cons] at distinct
    have theirs := owns_of_tick env distinct.1 fun v hv => owns v (List.mem_cons_of_mem u hv)
    cases i with
    | zero =>
      cases ht
      have others : (t.tick env stage).1.index ∉ tracks.map Track.index := by
        rw [(t.turn_tick env stage).index_eq]
        exact distinct.1
      exact ⟨rfl, course_tickTracks_of_notMem distinct.2 theirs others⟩
    | succ i => exact ih _ distinct.2 theirs ht

/-- When a song ticks, each of its tracks ticks once. -/
theorem exists_course_tickTracks (env : Setting) (stage : Stage)
    (distinct : (tracks.map Track.index).Nodup) (owns : ∀ u ∈ tracks, u.Owns stage.pool)
    (ht : tracks[i]? = some t) :
    ∃ t' started, (tickTracks env tracks stage).1[i]? = some t' ∧
      Track.Course env (t, stage) 1 started (t', (tickTracks env tracks stage).2) := by
  obtain ⟨ht', behind⟩ := course_of_turn env stage distinct owns ht
  exact ⟨_, _, ht', ((course_stageAt env stage distinct owns ht).tick rfl).trans behind⟩

/-! ## Songs that play on

The ticks of a song, frames and mutes in between, as long as the song does not end and no voice is
cut. -/

/-- The song plays on for so many ticks. It does not end in them, nor do all of its tracks, and no
voice is cut. -/
inductive PlaysOn (s : Sequencer) : (ticks : Nat) → Sequencer → Prop
  | refl : PlaysOn s 0 s
  /-- Some track is not finished, and the song plays on behind the tick. -/
  | tick {ticks : Nat} {s' : Sequencer} (earlier : PlaysOn s ticks s') (announce : Bool)
      (going : ¬ s'.tickAll.AllFinished) (onward : (s'.runTick announce).transport = .playing) :
      PlaysOn s (ticks + 1) (s'.runTick announce)
  | sound {ticks : Nat} {s' : Sequencer} (earlier : PlaysOn s ticks s') :
      PlaysOn s ticks s'.soundFrame.2
  | mute {ticks : Nat} {s' : Sequencer} (earlier : PlaysOn s ticks s') (track : Nat)
      (muted : Bool) : PlaysOn s ticks (s'.setTrackMuted track muted).2
  /-- What no track looks at may be set in between. -/
  | adjust {ticks : Nat} {s' : Sequencer} (earlier : PlaysOn s ticks s') (transport : Transport)
      (account : Nat) (volume : MasterVolume) (notices : Notices) :
      PlaysOn s ticks { s' with transport, account, volume, notices }

variable {s s' : Sequencer} {ticks : Nat}

/-- A tick that neither ends the song nor finishes all of its tracks does no more to it than its
tracks do, but that it may count a loop. -/
theorem exists_runTick_eq {announce : Bool} (going : ¬ s.tickAll.AllFinished)
    (onward : (s.runTick announce).transport = .playing) :
    ∃ songLoops notices, s.runTick announce = { s.tickAll with songLoops, notices } := by
  have unended (u : Sequencer) (h : u.checkLoopLimit.transport = .playing) :
      u.checkLoopLimit = u := by
    refine u.checkLoopLimit_cases.resolve_right fun ended => ?_
    rw [ended] at h
    cases h
  rw [runTick_eq, if_neg going, countLoops] at onward ⊢
  dsimp only at onward ⊢
  split
  · exact ⟨s.tickAll.songLoops, s.tickAll.notices, rfl⟩
  · next more =>
    rw [if_neg more] at onward
    rw [unended _ onward]
    cases announce with
    | false => exact ⟨_, s.tickAll.notices, rfl⟩
    | true => exact ⟨_, _, rfl⟩

theorem PlaysOn.booked (plays : PlaysOn s ticks s') (b : s.Booked) : s'.Booked := by
  induction plays with
  | refl => exact b
  | tick _ announce _ _ ih => exact ih.runTick announce
  | sound _ ih => exact ih.soundFrame
  | mute _ track muted ih => exact ih.setTrackMuted track muted
  | adjust _ _ _ _ _ ih => exact ⟨ih.index_eq, ih.owns, ih.ended, ih.placed⟩

/-- A track hears of a mute, of its own or of another track. -/
theorem exists_course_setTrackMuted (env : Setting) (ht : s.tracks[i]? = some t) (track : Nat)
    (muted : Bool) :
    ∃ t', (s.setTrackMuted track muted).2.tracks[i]? = some t' ∧
      Track.Course env (t, s.stage) 0 0 (t', (s.setTrackMuted track muted).2.stage) := by
  unfold setTrackMuted
  split
  · next u hu =>
    have muting (own : Bool) : Track.Course env (t, s.stage) 0 0
        ({ t with muted := own }, s.stage.modifyPool (·.mapTrack u.index (·.setMuted muted))) :=
      Track.Course.refl.meanwhile (.mute t s.stage own u.index muted)
    by_cases same : track = i
    · subst same
      cases ht.symm.trans hu
      obtain ⟨inside, -⟩ := List.getElem?_eq_some_iff.mp ht
      exact ⟨{ t with muted }, List.getElem?_set_self inside, muting muted⟩
    · refine ⟨t, ?_, muting t.muted⟩
      exact (List.getElem?_set_ne same).trans ht
  · exact ⟨t, ht, .refl⟩

theorem setting_setTrackMuted (s : Sequencer) (track : Nat) (muted : Bool) :
    (s.setTrackMuted track muted).2.setting = s.setting := by
  unfold setTrackMuted
  split <;> rfl

theorem PlaysOn.setting_eq (plays : PlaysOn s ticks s') : s'.setting = s.setting := by
  induction plays with
  | refl => rfl
  | tick _ _ going onward ih =>
    obtain ⟨_, _, same⟩ := exists_runTick_eq going onward
    rw [same]
    exact ih
  | @sound _ s' _ ih =>
    obtain ⟨_, _, same, -⟩ := soundFrame_snd s'
    rw [same]
    exact ih
  | mute _ track muted ih => exact (setting_setTrackMuted _ track muted).trans ih
  | adjust _ _ _ _ _ ih => exact ih

/-- As long as a song plays on, each of its tracks is on a course, with as many ticks as the
song. -/
theorem Booked.exists_course (b : s.Booked) (ht : s.tracks[i]? = some t)
    (plays : PlaysOn s ticks s') :
    ∃ t' started, s'.tracks[i]? = some t' ∧
      Track.Course s.setting (t, s.stage) ticks started (t', s'.stage) := by
  induction plays with
  | refl => exact ⟨t, 0, ht, .refl⟩
  | @tick ticks s' earlier announce going onward ih =>
    obtain ⟨u, started, hu, course⟩ := ih
    have booked := earlier.booked b
    -- the other tracks tick before this one or after it, and all that is a part of its course
    obtain ⟨t', more, ht', ticked⟩ :=
      exists_course_tickTracks s'.setting s'.stage booked.nodup_index booked.owns hu
    obtain ⟨songLoops, notices, same⟩ := exists_runTick_eq going onward
    rw [← earlier.setting_eq] at course ⊢
    rw [same]
    exact ⟨t', started + more, ht', (course.trans ticked).meanwhile (.adjust t' _ _ notices)⟩
  | @sound ticks s' earlier ih =>
    obtain ⟨u, started, hu, course⟩ := ih
    have sounded := course.meanwhile (.frame u s'.stage)
    obtain ⟨pool, envelopeFrames, same, hpool⟩ := soundFrame_snd s'
    have bank : s'.bank = s.setting.bank := congrArg Setting.bank earlier.setting_eq
    rw [same]
    refine ⟨u, started, hu, ?_⟩
    rw [bank] at hpool
    -- a frame moves the voices on, and now and then it steps their envelopes
    rcases hpool with rfl | rfl
    · exact sounded
    · exact sounded.meanwhile (.envelopes u _)
  | mute _ track muted ih =>
    obtain ⟨u, started, hu, course⟩ := ih
    obtain ⟨t', ht', muting⟩ := exists_course_setTrackMuted s.setting hu track muted
    exact ⟨t', started, ht', course.trans muting⟩
  | adjust _ _ _ _ notices ih =>
    obtain ⟨u, started, hu, course⟩ := ih
    exact ⟨u, started, hu, course.meanwhile (.adjust u _ _ notices)⟩

/-! ## Timed notes in a song

What is known of the notes of a single track holds in the song that the track is part of. -/

/-- From the turn of a track in one tick it is on a course to wherever the song plays on to. -/
theorem Booked.exists_course_of_turn {announce : Bool} (b : s.Booked) (ht : s.tracks[i]? = some t)
    (going : ¬ s.tickAll.AllFinished) (onward : (s.runTick announce).transport = .playing)
    (plays : PlaysOn (s.runTick announce) ticks s') :
    ∃ t' started, s'.tracks[i]? = some t' ∧
      Track.Course s.setting (t.tick s.setting (stageAt s.setting s.tracks i s.stage)) ticks started
        (t', s'.stage) := by
  obtain ⟨placed, behind⟩ := course_of_turn s.setting s.stage b.nodup_index b.owns ht
  obtain ⟨songLoops, notices, same⟩ := exists_runTick_eq going onward
  have setting := (PlaysOn.refl.tick announce going onward).setting_eq
  have ht : (s.runTick announce).tracks[i]? = some (t.tick s.setting
      (stageAt s.setting s.tracks i s.stage)).1 := by
    rw [same]
    exact placed
  obtain ⟨t', started, ht', later⟩ := (b.runTick announce).exists_course ht plays
  rw [setting, same] at later
  have course := (behind.meanwhile (.adjust _ _ _ notices)).trans later
  rw [Nat.zero_add, Nat.zero_add] at course
  exact ⟨t', started, ht', course⟩

theorem Booked.index_notMem_take (b : s.Booked) (ht : s.tracks[i]? = some t) :
    t.index ∉ (s.tracks.take i).map Track.index := by
  obtain ⟨inside, -⟩ := List.getElem?_eq_some_iff.mp ht
  have own : (s.tracks.map Track.index)[i]? = some t.index := by rw [List.getElem?_map, ht]; rfl
  rw [List.map_take, b.index_eq, List.take_range]
  rw [b.index_eq, List.getElem?_range inside] at own
  rw [← Option.some.inj own, List.mem_range]
  omega

/-- In a song, a note that a track starts with a duration lasts so many ticks of the song, and one
tick if that is none. As long as the song plays on, the track goes on, and no more than fifteen
further voices are started, its voice is not released before. And if there still is a voice behind
the tick that is due, it has been released in it. -/
theorem Booked.released_when_due {t₀ : Track} {st : Stage} {announce : Bool}
    {budget key velocity duration length : Nat} {voice : Voice} (b : s.Booked)
    (ht : s.tracks[i]? = some t₀) (capacity : 0 < s.pool.capacity)
    (going : ¬ s.tickAll.AllFinished) (onward : (s.runTick announce).transport = .playing)
    (here : Track.AtCommand s.setting t₀ (stageAt s.setting s.tracks i s.stage) (budget + 1) t st)
    (decoded : (t.source.stream.decode s.driver t.head.cursor t.head.status).2 =
      .ok ⟨.noteOn key velocity (some duration), length⟩)
    (sounds : Track.voiceFor s.setting t.index t.muted
      (Track.transposed key t.head.controls.transpose) velocity t.head.controls = .ok voice) :
    let begun := t.obey s.setting (t.head.step s.driver t.source.stream) st
    ∃ note ∈ begun.1.notes, begun.2.pool.get? note.handle = some voice ∧
      ∀ {ticks : Nat} {s' : Sequencer} {t' : Track} {w : Voice},
        PlaysOn (s.runTick announce) ticks s' → begun.2.pool.startedUntil s'.pool ≤ 15 →
        s'.tracks[i]? = some t' → ¬ t'.IsFinished →
        (ticks < max 1 duration → s'.pool.get? note.handle = some w → ¬ w.envelope.IsReleased) ∧
        (ticks + 1 = max 1 duration → s'.tickAll.pool.get? note.handle = some w →
          w.envelope.IsReleased) := by
  intro begun
  have others := evolves_tickTracks s.setting (s.tracks.take i) s.stage
  have owned : t₀.Owns (stageAt s.setting s.tracks i s.stage).pool :=
    (b.owns t₀ (List.mem_of_getElem? ht)).of_evolves others (b.index_notMem_take ht)
  obtain ⟨note, mem, remaining, found, awaits⟩ :=
    here.exists_awaited owned (others.capacity_eq ▸ capacity) decoded sounds
  refine ⟨note, mem, found, fun {ticks s' t' w} plays few ht' unfinished => ?_⟩
  obtain ⟨u, started, hu, course⟩ := b.exists_course_of_turn ht going onward plays
  cases ht'.symm.trans hu
  -- for each voice that the track has started, a serial number was given out
  have few : begun.2.pool.startedUntil (t₀.tick s.setting
      (stageAt s.setting s.tracks i s.stage)).2.pool + started ≤ 15 := by
    have own := Nat.le_sub_of_add_le' course.started_le
    refine Nat.le_trans (Nat.add_le_add_left own _) ?_
    exact Nat.le_trans (Nat.le_of_eq (VoicePool.startedUntil_add
      here.turn_obey.evolves.nextSerial_le course.evolves.nextSerial_le)) few
  have still := fun finished => unfinished (course.isFinished finished)
  have kept := awaits still (Nat.le_trans (Nat.le_add_right _ started) few)
  constructor
  · intro soon hw
    exact (kept.course_of_get? remaining course soon few unfinished hw).2
  · intro due hw
    -- the tracks before it have their turns, then the track, and then the tracks behind it
    have booked := plays.booked (b.runTick announce)
    have setting : s'.setting = s.setting := plays.setting_eq.trans
      (PlaysOn.refl.tick announce going onward).setting_eq
    have before := course_stageAt s'.setting s'.stage booked.nodup_index booked.owns ht'
    obtain ⟨-, behind⟩ := course_of_turn s'.setting s'.stage booked.nodup_index booked.owns ht'
    rw [setting] at before
    have full := course.trans before
    rcases behind.evolves.found hw with ⟨v, hv, continues⟩ | ⟨new, -⟩
    · rw [setting] at hv
      exact continues.isReleased (kept.isReleased_of_tick remaining full due few unfinished hv)
    · have given := Nat.lt_of_lt_of_le kept.serial_lt (full.tick rfl).evolves.nextSerial_le
      rw [setting] at new
      exact absurd given (Nat.not_lt_of_le new)

end Sequencer
end Chiptune
