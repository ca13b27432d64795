import Chiptune.Proofs.Checked.Counters
import Chiptune.Proofs.Checked.History
import Chiptune.Proofs.Playhead.Limit
import Chiptune.Proofs.Sequencer.Course
import Chiptune.Proofs.Sequencer.Notes

/-!
# Failures are contained

A track that fails is dead: it is finished, has nothing open and holds no notes, the host has been
told of it once, and neither further ticks nor the loop points of the song bring it back. Only
when the song is taken back to its start, the track starts anew.

The track itself knows of no notifications. That it was told of once is a fact about the events of a
run since the song was last taken back (`Sequencer.ticksSince`): what they tell of the track is its
error, and nothing if it has none (`Sequencer.Accounts`). Every event keeps it so
(`Sequencer.Course.accounts`).
-/

namespace Chiptune

/-- A song that jumps to its only command again and again. -/
def Song.endlessJump : Song where
  driver := .m4a
  sources := [.ofBytes ⟨#[0xB2, 0, 0, 0, 0]⟩]

theorem Song.fits_endlessJump : Song.endlessJump.Fits where
  initialTempo_lt := by decide
  bank := Bank.fits_empty
  source source mem := by
    cases List.mem_singleton.mp mem
    exact ⟨by decide, by decide⟩

/-- The error of track `i` that the host is told of. -/
def Notification.failure? (i : Nat) : Notification → Option DecodeError
  | .trackFailed j error => if j = i then some error else none
  | _ => none

/-- The errors of track `i` among some notifications. -/
def failuresOf (i : Nat) (told : List Notification) : List DecodeError :=
  told.filterMap (Notification.failure? i)

/-- What a track tells of its failures in two lists, it tells in each of them. -/
theorem failuresOf_append (i : Nat) (l m : List Notification) :
    failuresOf i (l ++ m) = failuresOf i l ++ failuresOf i m :=
  List.filterMap_append

/-! ## What a tick tells

Of the notifications of a tick those of one track are picked out, and compared with the error of its
playhead. -/

namespace Track

variable {env : Setting} {t : Track}

/-- A failure is told under the number of the track that it belongs to. -/
theorem failuresOf_noticesOf (env : Setting) (t : Track) (i : Nat) (e : Effect) :
    failuresOf i (t.noticesOf env e) = if t.index = i then e.failure?.toList else [] := by
  cases e with
  | noteOn key velocity duration c =>
    simp only [noticesOf]
    split <;> simp [failuresOf, Notification.failure?, Effect.failure?]
  | failed error =>
    by_cases same : t.index = i
    · simp [noticesOf, failuresOf, Notification.failure?, Effect.failure?, same]
    · simp [noticesOf, failuresOf, Notification.failure?, same]
  | _ => simp [noticesOf, failuresOf, Effect.failure?]

/-- In a tick a track tells what its playhead has failed with. -/
theorem failuresOf_noticesInTick (env : Setting) (t : Track) (i : Nat) :
    failuresOf i (t.noticesInTick env) =
      if t.index = i then
        (t.head.tick env.driver env.commandLimit t.source.stream).2.toList.filterMap
          Effect.failure?
      else [] := by
  unfold noticesInTick
  induction (t.head.tick env.driver env.commandLimit t.source.stream).2.toList with
  | nil => simp [failuresOf]
  | cons e effects ih =>
    rw [List.flatMap_cons, failuresOf_append, failuresOf_noticesOf, ih]
    split
    · cases h : e.failure? <;> simp [h]
    · rfl

end Track

/-- What a tick tells of an error comes to what was told before. -/
theorem Playhead.told_tick {driver : SoundDriver} {limit : Nat} {s : EventStream} {h : Playhead}
    (contained : h.IsContained) :
    h.error.toList ++ (h.tick driver limit s).2.toList.filterMap Effect.failure? =
      (h.tick driver limit s).1.error.toList := by
  by_cases finished : h.IsFinished
  · rw [tick_of_isFinished finished]
    exact List.append_nil _
  · have sound : h.error = none := contained.sound finished
    rw [sound, (reports_tick finished sound).told]
    rfl

namespace Sequencer

variable {s s' : Sequencer} {events : List Event} {steps : List Step} {i : Nat} {t : Track}

theorem failuresOf_turnNotices (i : Nat) (announce : Bool) (c : Score) :
    failuresOf i (c.turnNotices announce) = [] := by
  have limits : ∀ c : Score, failuresOf i c.limitNotices = [] := by
    intro c
    unfold Score.limitNotices
    split
    · split <;> rfl
    · rfl
  unfold Score.turnNotices Score.notices
  split
  · split
    · exact limits _
    · rfl
  · split
    · rfl
    · rw [failuresOf_append, limits, List.append_nil]
      split <;> rfl

/-- Of a track, all tracks together tell what it tells itself. -/
theorem failuresOf_tracks (env : Setting) {tracks : List Track}
    (distinct : (tracks.map Track.index).Nodup) (mem : t ∈ tracks) :
    failuresOf t.index (tracks.flatMap (Track.noticesInTick env)) =
      failuresOf t.index (t.noticesInTick env) := by
  induction tracks with
  | nil => cases mem
  | cons u tracks ih =>
    rw [List.map_cons, List.nodup_cons] at distinct
    rw [List.flatMap_cons, failuresOf_append]
    rcases List.mem_cons.mp mem with rfl | mem
    -- the other tracks have other numbers, so nothing that they tell is told of this one
    · have others : failuresOf t.index (tracks.flatMap (Track.noticesInTick env)) = [] := by
        refine List.filterMap_eq_nil_iff.mpr ?_
        intro n told
        obtain ⟨v, hv, told⟩ := List.mem_flatMap.mp told
        have apart : v.index ≠ t.index := fun e => distinct.1 (e ▸ List.mem_map_of_mem hv)
        have none := Track.failuresOf_noticesInTick env v t.index
        rw [if_neg apart] at none
        exact List.filterMap_eq_nil_iff.mp none n told
      rw [others, List.append_nil]
    · have apart : u.index ≠ t.index := fun e => distinct.1 (e ▸ List.mem_map_of_mem mem)
      rw [Track.failuresOf_noticesInTick env u, if_neg apart, List.nil_append, ih distinct.2 mem]

/-- What the host is told of a track in a tick is an error that its playhead tells of. -/
theorem failuresOf_told (b : Step) (booked : b.before.Booked) (mem : t ∈ b.before.tracks) :
    failuresOf t.index b.told =
      (t.head.tick b.before.driver b.before.config.commandLimit t.source.stream).2.toList.filterMap
        Effect.failure? := by
  rw [Step.told, noticesInTick, failuresOf_append, failuresOf_turnNotices, List.append_nil,
    failuresOf_tracks _ booked.nodup_index mem, Track.failuresOf_noticesInTick, if_pos rfl]
  rfl

/-! ## What was told since the song was taken back

A rewind forgives failures: the playheads begin again. So what was told is counted from the last
rewind on. -/

/-- The ticks since the song was last taken back, one event later. -/
def Event.since (ticks : List Step) : Event → List Step
  | rewind => []
  | step b => ticks ++ [b]

/-- The ticks since the song was last taken back to its start. -/
def ticksSince (events : List Event) : List Step := events.foldl Event.since []

/-- The errors of track `i` that the host was told of since then. -/
def failuresSince (i : Nat) (events : List Event) : List DecodeError :=
  failuresOf i ((ticksSince events).flatMap Step.told)

/-- Rewinding starts the count of failures anew. -/
theorem failuresSince_rewind (i : Nat) (events : List Event) :
    failuresSince i (events ++ [.rewind]) = [] := by
  unfold failuresSince ticksSince
  rw [List.foldl_append]
  rfl

/-- A tick adds the failures that are told in it. -/
theorem failuresSince_step (i : Nat) (events : List Event) (b : Step) :
    failuresSince i (events ++ [.step b]) = failuresSince i events ++ failuresOf i b.told := by
  unfold failuresSince ticksSince
  rw [List.foldl_append, ← failuresOf_append]
  show failuresOf i ((_ ++ [b]).flatMap Step.told) = _
  rw [List.flatMap_append, List.flatMap_singleton]

/-- Every part is contained, and its error is what the host was told of it since the song was taken
back. -/
structure Accounts (events : List Event) (s : Sequencer) : Prop where
  booked : s.Booked
  /-- A part that has not failed has not told of a failure. -/
  part : ∀ i p, s.score.parts[i]? = some p →
    p.head.IsContained ∧ failuresSince i events = p.head.error.toList

/-- A song that is taken back has nothing to tell yet. -/
theorem accounts_of_sound (booked : s.Booked) (sound : ∀ t ∈ s.tracks, t.head.error = none)
    (silent : ∀ i, failuresSince i events = []) : s.Accounts events where
  booked := booked
  part i p hp := by
    rw [score, List.getElem?_map, Option.map_eq_some_iff] at hp
    obtain ⟨t, ht, rfl⟩ := hp
    have soundToo : t.part.head.error = none := sound t (List.mem_of_getElem? ht)
    exact ⟨Playhead.isContained_of_sound soundToo, by rw [silent, soundToo]; rfl⟩

/-- A song that is loaded has not failed yet, and nothing was told of it. -/
theorem accounts_withSong (s : Sequencer) (song : Song) (events : List Event) :
    (s.withSong song).Accounts (events ++ [.rewind]) := by
  refine accounts_of_sound (booked_withSong s song) ?_ (failuresSince_rewind · events)
  intro t ht
  obtain ⟨u, -, rfl⟩ := List.mem_map.mp ht
  rfl

/-- Rewinding takes every track back to where it had not failed. -/
theorem accounts_rewind (booked : s.Booked) (events : List Event) :
    s.rewind.Accounts (events ++ [.rewind]) := by
  refine accounts_of_sound booked.rewind ?_ (failuresSince_rewind · events)
  intro t ht
  obtain ⟨u, -, rfl⟩ := List.mem_map.mp ht
  rfl

/-- A quiet move tells nothing and moves no playhead. -/
theorem Accounts.quiet (h : s.Accounts events) (move : Quiet s s') : s'.Accounts events where
  booked := h.booked.move move.move
  part := by
    rw [move.score_eq]
    exact h.part

end Sequencer

/-- A loop point is of no use to a playhead with an error. -/
theorem Playhead.restart?_of_failed {h : Playhead} (failed : h.error ≠ none) :
    h.restart? = none := by
  unfold restart?
  split
  · next sound => exact absurd sound failed
  · rfl

/-- A track that has failed does not go back to its loop point. -/
theorem Part.restarted_of_failed {p : Part} (failed : p.head.error ≠ none) : p.restarted = p := by
  rw [restarted, Playhead.restart?_of_failed failed]
  rfl

/-- A part that goes on from its loop point has nothing to tell. -/
theorem Part.accounts_restarted {p : Part} {told : List DecodeError}
    (h : p.head.IsContained ∧ told = p.head.error.toList) :
    p.restarted.head.IsContained ∧ told = p.restarted.head.error.toList := by
  by_cases sound : p.head.error = none
  · have soundToo : p.restarted.head.error = none := by
      unfold restarted Playhead.restart?
      rw [sound]
      split
      · rfl
      · exact sound
    refine ⟨Playhead.isContained_of_sound soundToo, ?_⟩
    rw [h.2, sound, soundToo]
  · rwa [restarted_of_failed sound]

namespace Sequencer

variable {s s' : Sequencer} {events : List Event} {steps : List Step} {i : Nat} {t : Track}

/-- After a tick, every part is where its playhead has come to, or at its loop point. -/
theorem exists_parts_after (b : Step) :
    ∃ turned : Part → Part, b.after.score.parts = b.before.score.parts.map turned ∧
      ∀ p, turned p = p.tick b.before.driver b.before.config.commandLimit ∨
        turned p = (p.tick b.before.driver b.before.config.commandLimit).restarted := by
  let ticked := Part.tick b.before.driver b.before.config.commandLimit
  rw [Step.after, score_runTick]
  obtain ⟨parts, _, _, passed, -, ⟨-, same, -⟩ | ⟨-, back, -⟩⟩ := b.before.score.pass_cases
  · rw [passed, same]
    exact ⟨ticked, rfl, fun p => Or.inl rfl⟩
  · rw [passed, back]
    exact ⟨Part.restarted ∘ ticked, List.map_map, fun p => Or.inr rfl⟩

/-- A tick: what every track tells, and what it has failed with, stay the same. -/
theorem Accounts.step {b : Step} (h : b.before.Accounts events) :
    b.after.Accounts (events ++ [.step b]) where
  booked := h.booked.runTick b.announce
  part i p' hp' := by
    obtain ⟨turned, parts, ways⟩ := exists_parts_after b
    rw [parts, List.getElem?_map, Option.map_eq_some_iff] at hp'
    obtain ⟨p, hp, rfl⟩ := hp'
    obtain ⟨contained, told⟩ := h.part i p hp
    rw [score, List.getElem?_map, Option.map_eq_some_iff] at hp
    obtain ⟨t, ht, rfl⟩ := hp
    -- the host is told of the failure in the very tick in which the part fails
    have ticked : (t.part.tick b.before.driver b.before.config.commandLimit).head.IsContained ∧
        failuresSince i (events ++ [.step b]) =
          (t.part.tick b.before.driver b.before.config.commandLimit).head.error.toList := by
      refine ⟨Playhead.isContained_tick contained, ?_⟩
      rw [failuresSince_step, told, ← h.booked.index_of_getElem? ht,
        failuresOf_told b h.booked (List.mem_of_getElem? ht)]
      exact Playhead.told_tick contained
    rcases ways t.part with same | same
    · rw [same]
      exact ticked
    · rw [same]
      exact Part.accounts_restarted ticked

/-- Every event keeps account of the failures. -/
theorem Course.accounts (h : Course s events s') :
    ∀ prior, s.Accounts prior → s'.Accounts (prior ++ events) := by
  -- along the course, with the events before it as a parameter
  induction h with
  | nil s =>
    intro prior start
    rwa [List.append_nil]
  | load song _ ih =>
    intro prior _
    rw [List.append_cons]
    exact ih _ (accounts_withSong _ song prior)
  | rewind _ ih =>
    intro prior start
    rw [List.append_cons]
    exact ih _ (accounts_rewind start.booked prior)
  | step b _ ih =>
    intro prior start
    rw [List.append_cons]
    exact ih _ start.step
  | quiet move _ ih =>
    intro prior start
    exact ih _ (start.quiet move)

/-- Without a song there is nothing to account for. -/
theorem accounts_empty (config : Config) : (empty config).Accounts [] :=
  accounts_of_sound (booked_after config []) (fun _ ht => (by cases ht)) fun _ => rfl

/-! ## A track that has failed

It stays finished, for neither a tick nor a loop point gets it going. Only a rewind does. -/

/-- Only to be taken back makes a part go on that has failed. -/
theorem Course.part_of_failed (h : Course s (steps.map .step) s') {p : Part}
    (hp : s.score.parts[i]? = some p) (failed : p.head.error ≠ none)
    (finished : p.head.IsFinished) : s'.score.parts[i]? = some p := by
  generalize hevents : steps.map Event.step = events at h
  induction h generalizing steps with
  | nil => exact hp
  | load => cases steps <;> cases hevents
  | rewind => cases steps <;> cases hevents
  | step b rest ih =>
    cases steps with
    | nil => cases hevents
    | cons b' steps =>
      cases hevents
      obtain ⟨turned, parts, ways⟩ := exists_parts_after b
      have still : p.tick b.before.driver b.before.config.commandLimit = p := by
        rw [Part.tick, Playhead.tick_of_isFinished finished]
      -- a part that is finished does not tick, and one that has failed does not go back
      have same : turned p = p := by
        rcases ways p with ticked | back
        · rw [ticked, still]
        · rw [back, still, Part.restarted_of_failed failed]
      refine ih ?_ rfl
      rw [parts, List.getElem?_map, hp, Option.map_some, same]
  | quiet move _ ih =>
    refine ih ?_ hevents
    rw [move.score_eq]
    exact hp

/-- A track of `s` that is over for good: it holds nothing, its ticks do nothing, it has no loop
point to go on from, and whatever ticks follow, only its mute can change. -/
structure Dead (s : Sequencer) (t : Track) : Prop where
  finished : t.IsFinished
  nestings : t.head.nestings = []
  notes : t.notes = []
  /-- Its ticks do nothing, to itself or to others. -/
  still : ∀ (env : Setting) (stage : Stage), t.tick env stage = (t, stage)
  /-- It cannot go on from a loop point. -/
  stuck : t.restart? = none
  /-- It stays as it is through any number of ticks. Only whether it is muted may change. -/
  lasting : ∀ (steps : List Step) (s' : Sequencer), Course s (steps.map .step) s' →
    ∃ muted, { t with muted } ∈ s'.tracks

theorem part_of_track (ht : s.tracks[i]? = some t) : s.score.parts[i]? = some t.part := by
  rw [score, List.getElem?_map, ht]
  rfl

/-- In particular each track is contained, and its failure was told once, or there was none. -/
theorem Accounts.track (h : s.Accounts events) (mem : t ∈ s.tracks) :
    t.head.IsContained ∧ failuresSince t.index events = t.head.error.toList := by
  obtain ⟨i, ht⟩ := List.getElem?_of_mem mem
  rw [h.booked.index_of_getElem? ht]
  exact h.part i t.part (part_of_track ht)

/-- A track that has failed is dead. -/
theorem Accounts.dead_of_failed (h : s.Accounts events) (mem : t ∈ s.tracks)
    (failed : t.head.error ≠ none) : s.Dead t := by
  obtain ⟨error, he⟩ := Option.ne_none_iff_exists'.mp failed
  obtain ⟨finished, closed⟩ := (h.track mem).1 error he
  have silent : t.notes = [] := h.booked.ended t mem finished
  refine ⟨finished, closed, silent, ?_, ?_, ?_⟩
  · intro env stage
    exact Track.tick_of_isFinished finished
  · rw [Track.restart?, Playhead.restart?_of_failed failed]
    rfl
  · intro steps s' course
    -- later on the track at the same place has the same source and playhead, and so the same number
    have booked : s'.Booked := (course.accounts events h).booked
    obtain ⟨i, ht⟩ := List.getElem?_of_mem mem
    have later := course.part_of_failed (part_of_track ht) failed finished
    rw [score, List.getElem?_map, Option.map_eq_some_iff] at later
    obtain ⟨⟨index, source, head, notes, muted⟩, ht', same⟩ := later
    obtain ⟨rfl, rfl⟩ : source = t.source ∧ head = t.head := by simpa [Track.part] using same
    have place : index = t.index :=
      (booked.index_of_getElem? ht').trans (h.booked.index_of_getElem? ht).symm
    have silentToo : notes = [] := booked.ended _ (List.mem_of_getElem? ht') finished
    rw [place, silentToo, ← silent] at ht'
    exact ⟨muted, List.mem_of_getElem? ht'⟩

/-- A track fails at the limit in a tick in which its playhead does. -/
theorem failed_tick_iff (contained : t.head.IsContained) (env : Setting) (stage : Stage)
    (offset : Nat) :
    ¬ t.IsFinished ∧
        (t.tick env stage).1.head.error = some (.commandLimit env.commandLimit offset) ↔
      t.head.IsDue ∧
        t.head.woken.Exhausts env.commandLimit t.source.stream
          (t.head.logInTick env.driver env.commandLimit t.source.stream) offset := by
  obtain ⟨notes, ticked⟩ := t.tick_eq env stage
  rw [ticked]
  by_cases finished : t.IsFinished
  · constructor
    · intro failed
      exact absurd finished failed.1
    · intro used
      exact absurd finished used.1.1
  · have sound : t.head.error = none := contained.sound finished
    exact (and_iff_right finished).trans (Playhead.error_tick_iff sound offset)

/-- Ticks are bounded, and failures contained. At every moment of every run, the next tick of every
track decodes no more commands than a track may run, and in words it ends and comes out right,
unless the stream has gone back too often or lengthened its pause too much to count. The track
fails at the limit exactly if it has run that many commands in the tick, none of which rested,
ended it or failed, and there is something left to run. What the host was told of its failures
since the song was last taken back is its error, and nothing if it has none; and a track that has
failed is dead. -/
theorem failures_are_contained {config : Config} {requests : List Request}
    (moment : IsMomentAfter config requests events s) (mem : t ∈ s.tracks) :
    let env := s.setting
    let stream := t.source.stream
    let inWords := t.head.checkedTick env.driver env.commandLimit stream
    (t.head.decodesInTick env.driver env.commandLimit stream).length ≤ config.commandLimit ∧
      (config.Fits → (∀ song, Request.load song ∈ requests → song.Fits) →
        (inWords = .ok (t.head.tick env.driver env.commandLimit stream) ∨
          inWords = .error (.full .trackLoops) ∨ inWords = .error (.full .lastPause)) ∧
        ∀ stage : Stage, stage.Fits → Checked.Gives (t.checkedTick env stage) (t.tick env stage)) ∧
      (∀ (stage : Stage) (offset : Nat),
        ¬ t.IsFinished ∧
            (t.tick env stage).1.head.error = some (.commandLimit config.commandLimit offset) ↔
          t.head.IsDue ∧
            t.head.woken.Exhausts config.commandLimit stream
              (t.head.logInTick env.driver config.commandLimit stream) offset) ∧
      failuresSince t.index events = t.head.error.toList ∧
      (t.head.error ≠ none → s.Dead t) := by
  intro env stream inWords
  have accounts : s.Accounts events := moment.course.accounts [] (accounts_empty config)
  obtain ⟨contained, told⟩ := accounts.track mem
  -- no request changes the limit that the sequencer was made with
  have limit : env.commandLimit = config.commandLimit := by
    have kept : s.config = ((empty config).after requests).config :=
      congrArg Fixture.config (fixture_of_moves moment.isMoment.moves)
    show s.config.commandLimit = config.commandLimit
    rw [kept, config_after]
    rfl
  refine ⟨?_, ?_, ?_, told, accounts.dead_of_failed mem⟩
  · rw [← limit]
    exact t.head.length_decodesInTick_le
  · intro hconfig hsongs
    have fits : s.Fits := ((fits_empty hconfig).after hsongs).moves moment.isMoment.moves
    have track := fits.track t mem
    refine ⟨Playhead.checkedTick_cases track.source fits.setting.commandLimit_lt track.head, ?_⟩
    intro stage hstage
    exact Track.gives_checkedTick fits.setting track hstage
  · intro stage offset
    rw [← limit]
    exact failed_tick_iff contained env stage offset

theorem failures_are_contained_endlessJump :
    let config : Config := { sampleRate := 100, commandLimit := 5 }
    let requests : List Request := [.load .endlessJump, .play]
    let begun := (empty config).after requests
    let failed := (empty config).after (requests ++ [.render 8])
    (∀ t ∈ begun.tracks,
      t.head.checkedTick .m4a 5 t.source.stream = .ok (t.head.tick .m4a 5 t.source.stream) ∧
        t.head.woken.Exhausts 5 t.source.stream (t.head.logInTick .m4a 5 t.source.stream) 0) ∧
      ∀ t ∈ failed.tracks,
        failuresSince t.index (along eventsIn (empty config) (requests ++ [.render 8])) =
            [.commandLimit 5 0] ∧
          failed.Dead t := by
  intro config requests begun failed
  constructor
  · intro t mem
    have hconfig : config.Fits := ⟨by decide, by decide⟩
    have hsongs : ∀ song, Request.load song ∈ requests → song.Fits := by
      intro song mem
      have same : song = .endlessJump := by simpa [requests] using mem
      exact same ▸ Song.fits_endlessJump
    have fails : ∀ t ∈ begun.tracks, ¬ t.IsFinished ∧
        (t.tick begun.setting begun.stage).1.head.error = some (.commandLimit 5 0) := by
      decide +kernel
    -- so early no counter is full, and the tick comes out in words
    have counts : ∀ t ∈ begun.tracks,
        (t.head.checkedTick .m4a 5 t.source.stream).isOk = true := by decide +kernel
    have moment : IsMomentAfter config requests _ begun := .done
    obtain ⟨-, inWords, atLimit, -⟩ := failures_are_contained moment mem
    have used := ((atLimit begun.stage 0).mp (fails t mem)).2
    refine ⟨(inWords hconfig hsongs).1.resolve_right ?_, used⟩
    have counted := counts t mem
    rintro (full | full) <;>
      · rw [show t.head.checkedTick .m4a 5 t.source.stream = _ from full] at counted
        cases counted
  · intro t mem
    have broken : ∀ t ∈ failed.tracks, t.head.error = some (.commandLimit 5 0) := by decide +kernel
    obtain ⟨-, -, -, told, dead⟩ := failures_are_contained .done mem
    rw [broken t mem] at told
    exact ⟨told, dead (by simp [broken t mem])⟩

end Sequencer
end Chiptune
