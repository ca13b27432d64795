import Chiptune.Proofs.Sequencer.Frames

/-!
# A sequencer without a song

Before a song has been loaded there are no tracks, and so it is true of all tracks that they have
run out. `play` looks for tracks first and does nothing, but `seek` passes a tick of whatever is
there. That tick finds the song at its end: a sequencer without a song that is asked to seek any
tick beyond the start counts one tick and tells the host that the song has ended.

Nothing else ever happens. `Songless` says what stays, `Songless.answer` what each request does, and
`without_song` what any number of them come to.
-/

namespace Chiptune

/-- The request asks for a tick beyond the start. -/
def Request.SeeksAhead (config : Config) : Request → Prop
  | .seek target => 0 < min target config.maxSeekTicks
  | _ => False

instance (config : Config) : DecidablePred (Request.SeeksAhead config)
  | .seek _ => inferInstanceAs (Decidable (_ < _))
  | .load _ | .play | .pause _ | .stop | .setVolume _ | .setTrackMuted _ _ | .popNotice
  | .drainNotices | .render _ => .isFalse id

/-- Where the request leaves a sequencer without a song that was at `tick`. -/
def Request.songlessTick (config : Config) (tick : Nat) : Request → Nat
  | .stop => 0
  | .seek target => min 1 (min target config.maxSeekTicks)
  | _ => tick

/-- Of a sequencer without a song, the host hears of its end whenever it seeks ahead. -/
def Request.songlessNotices (config : Config) (r : Request) : List Notification :=
  if r.SeeksAhead config then [.songEnded] else []

theorem Request.songlessNotices_seek (config : Config) (target : Nat) :
    songlessNotices config (.seek target) =
      if 0 < min target config.maxSeekTicks then [.songEnded] else [] := rfl

/-- Requests that do not seek ahead leave the song at its start. -/
theorem Request.foldl_songlessTick {config : Config} {requests : List Request}
    (stay : ∀ r ∈ requests, ¬ r.SeeksAhead config) :
    requests.foldl (songlessTick config) 0 = 0 := by
  induction requests with
  | nil => rfl
  | cons r requests ih =>
    have atStart : r.songlessTick config 0 = 0 := by
      have stays := stay r List.mem_cons_self
      cases r with
      | seek target =>
        show min 1 (min target config.maxSeekTicks) = 0
        rw [Nat.eq_zero_of_not_pos stays]
        rfl
      | _ => rfl
    rw [List.foldl_cons, atStart]
    exact ih fun r' mem => stay r' (List.mem_cons_of_mem _ mem)

namespace Sequencer

variable {s : Sequencer} {config : Config} {requests : List Request}

/-- There is nothing to play, and nothing is played. -/
structure Songless (config : Config) (s : Sequencer) : Prop where
  tracks_eq : s.tracks = []
  transport_eq : s.transport = .stopped
  maxSeekTicks_eq : s.config.maxSeekTicks = config.maxSeekTicks

theorem songless_empty (config : Config) : (empty config).Songless config := ⟨rfl, rfl, rfl⟩

theorem Songless.not_playing (h : s.Songless config) : s.transport ≠ .playing := by
  rw [h.transport_eq]
  decide

/-! ## Seeking without tracks

All tracks are finished if there are none. So the first tick of a seek ends a song that does not
exist. -/

/-- Where there are no tracks, all tracks have run out, and the tick ends the song. -/
theorem runTick_of_no_tracks (announce : Bool) (noTracks : s.tracks = []) :
    s.runTick announce = { s with tick := s.tick + 1 }.endSong := by
  have ticked : s.tickAll = { s with tick := s.tick + 1 } := by
    simp [tickAll, noTracks, tickTracks, stage]
  have finished : ({ s with tick := s.tick + 1 } : Sequencer).AllFinished := by
    simp [AllFinished, noTracks]
  rw [runTick_eq, ticked, if_pos finished, wrapOrEnd]
  simp [noTracks]

theorem noticesInTick_of_no_tracks (announce : Bool) (noTracks : s.tracks = []) :
    s.noticesInTick announce = [.songEnded] := by
  simp [noticesInTick, Score.turnNotices, Score.notices, Score.tickAll, Score.AllFinished, score,
    noTracks]

theorem replay_of_not_playing (ticks : Nat) (held : s.transport ≠ .playing) :
    s.replay ticks = s ∧ s.noticesInReplay ticks = [] := by
  cases ticks with
  | zero => exact ⟨rfl, rfl⟩
  | succ ticks => exact ⟨by rw [replay, if_neg held], by rw [noticesInReplay, if_neg held]⟩

/-- A replay passes one tick, which is the last one. -/
theorem replay_of_no_tracks (ticks : Nat) (noTracks : s.tracks = [])
    (playing : s.transport = .playing) :
    s.replay (ticks + 1) = { s with tick := s.tick + 1 }.endSong.cutVoices ∧
      s.noticesInReplay (ticks + 1) = [.songEnded] := by
  let q := ({ s with tick := s.tick + 1 } : Sequencer).endSong.cutVoices
  have ended : q.transport ≠ .playing := by
    show Transport.stopped ≠ .playing
    decide
  obtain ⟨stays, silent⟩ := replay_of_not_playing ticks ended
  constructor
  · rw [replay, if_pos playing, runTick_of_no_tracks false noTracks, stays]
  · rw [noticesInReplay, if_pos playing, noticesInTick_of_no_tracks false noTracks,
      runTick_of_no_tracks false noTracks, silent, List.append_nil]

theorem Songless.seek (h : s.Songless config) (target : Nat) :
    (s.seek target).Songless config ∧
      (s.seek target).tick = min 1 (min target config.maxSeekTicks) ∧
      s.noticesIn (.seek target) = Request.songlessNotices config (.seek target) := by
  have noTracks : s.rewind.tracks = [] := by simp [rewind, h.tracks_eq]
  rw [Sequencer.seek, noticesIn, h.maxSeekTicks_eq, Request.songlessNotices_seek]
  cases min target config.maxSeekTicks with
  | zero => exact ⟨⟨noTracks, h.transport_eq, h.maxSeekTicks_eq⟩, rfl, rfl⟩
  | succ ticks =>
    obtain ⟨played, told⟩ :=
      replay_of_no_tracks (s := { s.rewind with transport := .playing }) ticks noTracks rfl
    rw [played, told]
    refine ⟨⟨?_, rfl, h.maxSeekTicks_eq⟩, ?_, rfl⟩
    · simp [cutVoices, endSong, notify, noTracks]
    · show 0 + 1 = min 1 (ticks + 1)
      omega

/-! ## Any request, and any number of them

Each request keeps the sequencer empty, and its tick and its notifications can be read off the list
of requests. -/

/-- What is asked of a sequencer without a song. Unless a song is loaded, only `seek` and `stop`
move the tick, and only `seek` is heard of. -/
theorem Songless.answer {r : Request} (h : s.Songless config) (noSong : r.song? = none) :
    (s.answer r).Songless config ∧
      (s.answer r).tick = r.songlessTick config s.tick ∧
      s.noticesIn r = r.songlessNotices config ∧
      ∀ frame ∈ s.framesIn r, frame = .silence := by
  have nothing (frame : Frame) (mem : frame ∈ ([] : List Frame)) : frame = .silence := nomatch mem
  -- there are no tracks to play, to mute or to finish, so only a seek does anything
  cases r with
  | load song =>
    have refused : ¬ song.IsPlayable := by
      intro playable
      simp [Request.song?, playable] at noSong
    rw [answer_load, if_neg refused]
    exact ⟨h, rfl, rfl, nothing⟩
  | play =>
    have idle : s.play = s := by simp [play, h.transport_eq, h.tracks_eq]
    rw [Sequencer.answer, idle]
    exact ⟨h, rfl, rfl, nothing⟩
  | pause policy =>
    rw [Sequencer.answer, pause, if_neg h.not_playing]
    exact ⟨h, rfl, rfl, nothing⟩
  | stop =>
    refine ⟨⟨?_, rfl, h.maxSeekTicks_eq⟩, rfl, rfl, nothing⟩
    simp [Sequencer.answer, stop, rewind, h.tracks_eq]
  | seek target =>
    obtain ⟨songless, tick, told⟩ := h.seek target
    exact ⟨songless, tick, told, nothing⟩
  | setTrackMuted track muted =>
    have unknown : (s.setTrackMuted track muted).2 = s := by simp [setTrackMuted, h.tracks_eq]
    rw [Sequencer.answer, unknown]
    exact ⟨h, rfl, rfl, nothing⟩
  | setVolume volume => exact ⟨⟨h.1, h.2, h.3⟩, rfl, rfl, nothing⟩
  | popNotice => exact ⟨⟨h.1, h.2, h.3⟩, rfl, rfl, nothing⟩
  | drainNotices => exact ⟨⟨h.1, h.2, h.3⟩, rfl, rfl, nothing⟩
  | render count =>
    have told : s.noticesInFrames count = [] := by
      induction count with
      | zero => rfl
      | succ count ih =>
        rw [noticesInFrames, noticesInFrame, if_neg h.not_playing,
          nextFrame_of_not_playing h.not_playing]
        exact ih rfl
    rw [(render_of_not_playing count h.not_playing).1, noticesIn, told, framesIn, toList_render,
      firstFrames_of_not_playing count h.not_playing]
    exact ⟨h, rfl, rfl, fun frame mem => List.eq_of_mem_replicate mem⟩

theorem Songless.after (h : s.Songless config) (noSong : ∀ r ∈ requests, r.song? = none) :
    (s.after requests).Songless config ∧
      (s.after requests).tick = requests.foldl (Request.songlessTick config) s.tick ∧
      along noticesIn s requests = requests.flatMap (Request.songlessNotices config) ∧
      ∀ frame ∈ along framesIn s requests, frame = .silence := by
  induction requests generalizing s with
  | nil => exact ⟨h, rfl, rfl, fun frame mem => nomatch mem⟩
  | cons r requests ih =>
    obtain ⟨songless, tick, told, silent⟩ := h.answer (noSong r List.mem_cons_self)
    obtain ⟨songless', tick', told', silent'⟩ :=
      ih songless fun r' mem => noSong r' (List.mem_cons_of_mem _ mem)
    refine ⟨songless', ?_, ?_, ?_⟩
    · rw [after_cons, tick', tick, List.foldl_cons]
    · rw [along, told, told', List.flatMap_cons]
    · intro frame mem
      rcases List.mem_append.mp mem with mem | mem
      · exact silent frame mem
      · exact silent' frame mem

/-- Where nothing is told, an empty queue of notifications stays empty. -/
theorem notices_after_of_silent (waiting : s.notices = {})
    (silent : along noticesIn s requests = []) : (s.after requests).notices = {} := by
  induction requests generalizing s with
  | nil => exact waiting
  | cons r requests ih =>
    obtain ⟨silent, silent'⟩ := List.append_eq_nil_iff.mp silent
    refine ih ?_ silent'
    by_cases takes : r.TakesNotices
    · cases r with
      | popNotice =>
        show (s.notices.pop).2 = {}
        rw [waiting]
        rfl
      | drainNotices => rfl
      | _ => exact takes.elim
    · rw [notices_answer takes, silent, waiting]
      rfl

/-- A sequencer on which no song has been loaded, whatever was asked of it: it is stopped and gives
silence. It is not inert, for each time that it is asked to seek ahead, it goes to the first tick
and tells the host of the end of a song. -/
theorem without_song (config : Config) (songless : loadedSong? requests = none) :
    let s := (empty config).after requests
    s.transport = .stopped ∧
    (∀ frame ∈ along framesIn (empty config) requests, frame = .silence) ∧
    s.tick = requests.foldl (Request.songlessTick config) 0 ∧
    along noticesIn (empty config) requests =
      requests.flatMap (Request.songlessNotices config) ∧
    ((∀ r ∈ requests, ¬ r.SeeksAhead config) →
      s.tick = 0 ∧ along noticesIn (empty config) requests = [] ∧ s.notices = {}) := by
  intro s
  have noSong : ∀ r ∈ requests, r.song? = none := fun r mem =>
    List.findSome?_eq_none_iff.mp songless r (List.mem_reverse.mpr mem)
  obtain ⟨stopped, tick, told, silent⟩ := (songless_empty config).after noSong
  refine ⟨stopped.transport_eq, silent, tick, told, fun stay => ?_⟩
  have nothing : along noticesIn (empty config) requests = [] := by
    rw [told, List.flatMap_eq_nil_iff]
    intro r mem
    rw [Request.songlessNotices, if_neg (stay r mem)]
  exact ⟨tick.trans (Request.foldl_songlessTick stay), nothing, notices_after_of_silent rfl nothing⟩

theorem without_song_seekPlayStop :
    let config : Config := { sampleRate := 100 }
    let requests : List Request :=
      [.load { driver := .m4a }, .play, .seek 5, .render 3, .seek 9, .stop, .seek 2]
    let s := (empty config).after requests
    loadedSong? requests = none ∧ s.transport = .stopped ∧ s.tick = 1 ∧
      along noticesIn (empty config) requests = [.songEnded, .songEnded, .songEnded] := by
  intro config requests s
  -- a song without tracks is refused
  have songless : loadedSong? requests = none := rfl
  obtain ⟨stopped, -, tick, told, -⟩ := without_song config songless
  exact ⟨songless, stopped, tick, told⟩

/-- Nothing has been loaded, and the host hears that the song has ended. -/
theorem seek_songless_ends :
    let s := (empty {}).seek 5
    s.transport = .stopped ∧ s.tick = 1 ∧ s.notices.waiting = [.songEnded] := by
  decide +kernel

end Sequencer
end Chiptune
