import Chiptune.Proofs.Sequencer.Playback

/-!
# Playing a song that has ended

A song ends by itself in one of two ways: all its tracks have run out, or it has gone round as often
as it may. Either way it stops, falls silent and tells the host. What `play` then does depends on
the tracks: if all of them have run out, the song starts over, and otherwise it goes on from where
its limit caught it (`Sequencer.play_after_end`).
-/

namespace Chiptune

/-- A song that rests for a tick and jumps back to its start, over and over. -/
def Song.roundAndRound : Song :=
  { driver := .m4a, sources := [.ofBytes ⟨#[0x81, 0xB2, 0, 0, 0, 0]⟩] }

/-- The request leaves a song that is stopped where it is. -/
def Request.IsQuiet : Request → Prop
  | .load _ => False
  | .play => False
  | .stop => False
  | .seek _ => False
  | _ => True

instance (r : Request) : Decidable r.IsQuiet := by
  unfold Request.IsQuiet
  split <;> infer_instance

namespace Sequencer

variable {s q : Sequencer} {config : Config} {requests : List Request} {song : Song}

/-! ## The tick that ends a song

Such a tick leaves a reason behind that can be seen in the score: all tracks are finished, or the
limit of loops is reached. -/

/-- The states behind ticks are those in which a tick of a playing song ends. -/
theorem exists_of_mem_ticksIn {r : Request} (h : q ∈ s.ticksIn r) :
    ∃ (t : Sequencer) (announce : Bool), q = t.runTick announce ∧ t.transport = .playing := by
  cases r with
  | seek target => exact (passes_replay _ _).exists_of_mem h
  | render count => exact (passes_frames count s).exists_of_mem h
  | _ => cases h

/-- A song that is stopped by a tick has run out or has reached its limit of loops. -/
theorem allFinished_or_limit_of_mem_ticksIn {r : Request} (h : q ∈ s.ticksIn r)
    (ended : q.transport = .stopped) :
    q.AllFinished ∨ ∃ limit, q.config.loopLimit = some limit ∧ limit ≤ q.songLoops := by
  obtain ⟨t, announce, hq, playing⟩ := exists_of_mem_ticksIn h
  have hpass : q.score = t.score.pass := by rw [hq, score_runTick]
  rcases t.score.transport_pass with hsame | ⟨-, hwhy⟩
  · rw [← hpass] at hsame
    cases (ended.symm.trans hsame).trans playing
  · rw [← hpass, allFinished_score] at hwhy
    exact hwhy

theorem getLast?_waiting_endSong (s : Sequencer) :
    s.endSong.notices.waiting.getLast? = some .songEnded := List.getLast?_concat

/-- The song that a tick has stopped says so. -/
theorem getLast?_waiting_runTick {announce : Bool} (playing : s.transport = .playing)
    (ended : (s.runTick announce).transport = .stopped) :
    (s.runTick announce).notices.waiting.getLast? = some .songEnded := by
  obtain ⟨tracks, songLoops, notices, -, h | h⟩ := runTick_cases announce s
  · rw [h] at ended
    cases playing.symm.trans ended
  · rw [h]
    exact getLast?_waiting_endSong _

/-- After the request in which a song has ended, its score is what it was right after its last
tick. -/
theorem score_answer_of_ended {r : Request} (h : q ∈ s.ticksIn r) (ended : q.transport = .stopped) :
    (s.answer r).score = q.score := by
  have halted : q.transport ≠ .playing := by
    rw [ended]
    decide
  cases r with
  | seek target =>
    have hscore : (s.sought target).score = q.score :=
      (passes_replay _ _).eq_of_not_playing h halted
    have hsought : (s.sought target).transport ≠ .playing := fun playing =>
      halted ((congrArg Score.transport hscore).symm.trans playing)
    rw [answer, seek_eq, if_neg hsought]
    exact hscore
  | render count =>
    rw [answer_render]
    exact (passes_frames count s).eq_of_not_playing h halted
  | _ => cases h

/-! ## Between the end and the next start

Requests that do not start the song leave its score as it was right after that tick. -/

/-- A quiet request leaves the score of a song that is stopped alone. -/
theorem score_answer_of_isQuiet {r : Request} (stopped : s.transport = .stopped)
    (quiet : r.IsQuiet) : (s.answer r).score = s.score := by
  have halted : s.transport ≠ .playing := by
    rw [stopped]
    decide
  cases r with
  | load song => cases quiet
  | play => cases quiet
  | stop => cases quiet
  | seek target => cases quiet
  | pause policy => rw [answer, pause, if_neg halted]
  | setVolume volume => rfl
  | setTrackMuted track muted => exact score_setTrackMuted track muted s
  | popNotice => rfl
  | drainNotices => rfl
  | render count =>
    have hfixed : s.nextFrame.2 = s := by rw [nextFrame, if_neg halted]
    rw [answer_render, Function.iterate_fixed hfixed]

theorem score_after_of_isQuiet (stopped : s.transport = .stopped)
    (quiet : ∀ r ∈ requests, r.IsQuiet) : (s.after requests).score = s.score := by
  induction requests generalizing s with
  | nil => rfl
  | cons r requests ih =>
    have hscore := score_answer_of_isQuiet stopped (quiet r List.mem_cons_self)
    have hstopped : (s.answer r).transport = .stopped :=
      (congrArg Score.transport hscore).trans stopped
    rw [after_cons, ih hstopped fun r hr => quiet r (List.mem_cons_of_mem _ hr), hscore]

theorem song?_of_isQuiet {r : Request} (quiet : r.IsQuiet) : r.song? = none := by
  cases r with
  | load song => cases quiet
  | _ => rfl

theorem song?_of_mem_ticksIn {r : Request} (h : q ∈ s.ticksIn r) : r.song? = none := by
  cases r with
  | load song => cases h
  | _ => rfl

/-- After its end a song stays as it was right after its last tick, until it is played again. -/
theorem score_after_end {quiet : List Request} {r : Request}
    (tick : q ∈ (s.after requests).ticksIn r) (ended : q.transport = .stopped)
    (hquiet : ∀ r ∈ quiet, r.IsQuiet) :
    (s.after (requests ++ r :: quiet)).score = q.score := by
  have hanswer := score_answer_of_ended tick ended
  have hstopped := (congrArg Score.transport hanswer).trans ended
  rw [after_append, after_cons, score_after_of_isQuiet hstopped hquiet, hanswer]

/-- Neither the request in which the song ends nor the quiet ones behind it load another song. -/
theorem loadedSong?_after_end {quiet : List Request} {r : Request} (tick : q ∈ s.ticksIn r)
    (hquiet : ∀ r ∈ quiet, r.IsQuiet) :
    loadedSong? (requests ++ r :: quiet) = loadedSong? requests := by
  refine loadedSong?_append requests fun r' hr' => ?_
  rcases List.mem_cons.mp hr' with rfl | hr'
  · exact song?_of_mem_ticksIn tick
  · exact song?_of_isQuiet (hquiet r' hr')

/-! ## Playing again

Only then it matters which of the two reasons it was, because `play` looks at the tracks and not at
the limit. -/

/-- A song that is stopped is rewound if all its tracks are finished, and else goes on. -/
theorem score_play_of_stopped (stopped : s.transport = .stopped) (tracks : s.tracks ≠ []) :
    s.play.score =
      if s.AllFinished then ({ s.rewind with transport := .playing } : Sequencer).score
      else { s.score with transport := .playing } := by
  rw [play, stopped]
  dsimp only
  rw [if_neg tracks]
  split <;> rfl

/-- Whether a song that has ended by itself starts over. It does exactly if its tracks had all run
out when it ended. If they had not, the song had reached its limit of loops, and goes on from
there. -/
theorem play_after_end (config : Config) {quiet : List Request} {r : Request}
    (loaded : loadedSong? requests = some song)
    (tick : q ∈ ((empty config).after requests).ticksIn r) (ended : q.transport = .stopped)
    (hquiet : ∀ r ∈ quiet, r.IsQuiet) :
    let p := ((empty config).after (requests ++ r :: quiet)).play
    q.notices.waiting.getLast? = some .songEnded ∧
    p.transport = .playing ∧
    ((p.tick = 0 ∧ p.songLoops = 0 ∧ p.tempo = max 1 song.initialTempo ∧
        p.tracks.map Track.head =
          song.sources.map fun source => .atStart song.driver source.start) ↔ q.AllFinished) ∧
    (¬ q.AllFinished → (∃ limit, config.loopLimit = some limit ∧ limit ≤ q.songLoops) ∧
      p.tick = q.tick ∧ p.songLoops = q.songLoops ∧ p.tempo = q.tempo ∧
        p.tracks.map Track.head = q.tracks.map Track.head) := by
  intro p
  obtain ⟨t, announce, hq, playing⟩ := exists_of_mem_ticksIn tick
  have hpass : q.score = t.score.pass := by rw [hq, score_runTick]
  let s := (empty config).after (requests ++ r :: quiet)
  have hscore : s.score = q.score := score_after_end tick ended hquiet
  have hloaded := (loadedSong?_after_end tick hquiet).trans loaded
  have hfixture : s.fixture = .ofSong config song := fixture_after config hloaded
  have htracks : s.tracks ≠ [] := tracks_ne_nil hfixture (isPlayable_of_loadedSong? loaded)
  have hfinished : s.AllFinished ↔ q.AllFinished := by
    rw [← allFinished_score, ← allFinished_score, hscore]
  have hplay := score_play_of_stopped ((congrArg Score.transport hscore).trans ended) htracks
  have hnotice : q.notices.waiting.getLast? = some .songEnded := by
    rw [hq] at ended ⊢
    exact getLast?_waiting_runTick playing ended
  by_cases finished : q.AllFinished
  · rw [if_pos (hfinished.mpr finished), score_rewind_playing hfixture] at hplay
    have hheads : p.tracks.map Track.head = (Score.atStart config song).parts.map Part.head := by
      rw [← map_head_parts, hplay]
    refine ⟨hnotice, congrArg Score.transport hplay, iff_of_true ?_ finished, absurd finished⟩
    refine ⟨congrArg Score.tick hplay, congrArg Score.songLoops hplay,
      congrArg Score.tempo hplay, ?_⟩
    rw [hheads, Score.atStart, List.map_map]
    rfl
  · rw [if_neg fun h => finished (hfinished.mp h), hscore] at hplay
    have htick : p.tick = q.tick := congrArg Score.tick hplay
    have hq' : q.tick = t.tick + 1 := by
      rw [show q.tick = t.score.pass.tick from congrArg Score.tick hpass, Score.tick_pass]
      rfl
    -- a tick has passed, so the song is not at its start
    refine ⟨hnotice, congrArg Score.transport hplay, iff_of_false ?_ finished, fun _ => ⟨?_, htick,
      congrArg Score.songLoops hplay, congrArg Score.tempo hplay, ?_⟩⟩
    · rintro ⟨zero, -⟩
      omega
    · have hlimit := (allFinished_or_limit_of_mem_ticksIn tick ended).resolve_left finished
      rw [show q.config.loopLimit = config.loopLimit from congrArg
        (fun f : Fixture => f.config.loopLimit) ((IsMoment.tick tick).fixture loaded)] at hlimit
      exact hlimit
    · rw [← map_head_parts, hplay, ← map_head_parts]

theorem play_after_end_roundAndRound :
    let config : Config := { loopLimit := some 2 }
    let ticks := ((empty config).after [.load .roundAndRound]).ticksIn (.seek 9)
    ∃ q ∈ ticks, q.transport = .stopped ∧ ¬ q.AllFinished ∧
      ((empty config).after [.load .roundAndRound, .seek 9, .pause .cut]).play.tick = 3 := by
  intro config ticks
  have third : ticks[2]?.map (fun q => (q.transport, decide q.AllFinished, q.tick)) =
      some (.stopped, false, 3) := by decide +kernel
  obtain ⟨q, hq, hthird⟩ := Option.map_eq_some_iff.mp third
  obtain ⟨ended, hthird⟩ := Prod.mk.inj hthird
  obtain ⟨unfinished, htick⟩ := Prod.mk.inj hthird
  have unfinished := of_decide_eq_false unfinished
  have again := play_after_end config
    (show loadedSong? [.load .roundAndRound] = some .roundAndRound from rfl)
    (List.mem_of_getElem? hq) ended (show ∀ r ∈ [Request.pause .cut], r.IsQuiet by decide)
  exact ⟨q, List.mem_of_getElem? hq, ended, unfinished, (again.2.2.2 unfinished).2.1.trans htick⟩

/-- A song that has reached its limit of loops has ended, and does not start over. -/
theorem roundAndRound_plays_on :
    let s := (empty { sampleRate := 100, loopLimit := some 2 }).after
      [.load .roundAndRound, .play, .render 10]
    s.transport = .stopped ∧ s.notices.waiting = [.loopWrapped 1, .loopWrapped 2, .songEnded] ∧
      s.play.transport = .playing ∧ s.play.tick = 3 ∧ s.play.songLoops = 2 := by
  decide +kernel

end Sequencer
end Chiptune
