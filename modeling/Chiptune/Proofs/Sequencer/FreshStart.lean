import Chiptune.Proofs.Sequencer.Playback
import Chiptune.Proofs.Sequencer.Twin

/-!
# Starting afresh

At its start a song is stopped and silent, and its state is made of little: what the song fixes,
the volume, which tracks are muted, the next serial number, and the notifications that still wait.
`Fixture.start` puts these together, and `stop_eq_start` and `withSong_eq_start` say that to stop,
and to load, leads there from anywhere.

Of the past, then, only serial numbers and notifications are left, and they do not matter to twins.
So a song that has been loaded, or stopped, plays like the same song in a new sequencer
(`Sequencer.plays_as_new`).
-/

namespace Chiptune

/-- A song of one long note on a square wave. -/
def Song.oneNote : Song where
  driver := .m4a
  bank := { programs := #[some (.single { source := .square .half })] }
  sources := [.ofBytes ⟨#[0xCF, 60, 127, 0xB0, 0xB1]⟩]

namespace Sequencer

variable {s : Sequencer} {config : Config} {song : Song}

/-! ## Mutes

A new sequencer can be asked to mute the same tracks, one by one. -/

theorem tracks_setTrackMuted (s : Sequencer) (i : Nat) (muted : Bool) :
    (s.setTrackMuted i muted).2.tracks = s.tracks.modify i fun t => { t with muted } := by
  unfold setTrackMuted
  apply List.ext_getElem?
  intro j
  split
  · show (s.tracks.set i _)[j]? = _
    grind [Track.setMuted]
  · grind

/-- What to ask of a new sequencer so that it mutes the same tracks. -/
def muteRequests (s : Sequencer) : List Request :=
  (s.tracks.map Track.muted).mapIdx fun i muted => .setTrackMuted i muted

/-! ## The start of a song

Both ways to a start, a stop and a load, are equal to one and the same state, made of the fixture,
volume, mutes and what is left of numbers and notifications. -/

/-- A song at its start. -/
def Fixture.start (f : Fixture) (volume : MasterVolume) (mutes : List Bool) (nextSerial : Nat)
    (notices : Notices) : Sequencer where
  config := f.config
  driver := f.driver
  songIndex := f.songIndex
  bank := f.bank
  tracks := f.sources.zipWith
    (fun (i, source) muted => { Track.atStart f.driver i source with muted }) mutes
  pool := { slots := Array.replicate f.capacity none, nextSerial }
  volume
  notices
  initialTempo := f.initialTempo
  tempo := f.initialTempo

/-- To stop leads to the start of the song. -/
theorem stop_eq_start (s : Sequencer) :
    s.stop = s.fixture.start s.volume (s.tracks.map Track.muted) s.pool.nextSerial s.notices := by
  have htracks : s.tracks.map (Track.reset s.driver) =
      (s.fixture.start s.volume (s.tracks.map Track.muted) s.pool.nextSerial s.notices).tracks := by
    show _ = (s.tracks.map fun t => (t.index, t.source)).zipWith _ (s.tracks.map Track.muted)
    rw [List.zipWith_map, List.zipWith_self]
    rfl
  unfold stop rewind
  rw [htracks]
  rfl

/-- To load a song is to start it, with all tracks heard and serial numbers from the first one. -/
theorem withSong_eq_start (h : s.config = config.withSampleRate config.sampleRate) :
    s.withSong song =
      (Fixture.ofSong config song).start s.volume (.replicate song.sources.length false) 0
        s.notices := by
  have hstop : s.withSong song = (s.withSong song).stop := (rewind_rewind _).symm
  have hmutes : (s.withSong song).tracks.map Track.muted =
      .replicate song.sources.length false := by
    apply List.eq_replicate_iff.mpr
    refine ⟨by simp [withSong, rewind], fun muted h => ?_⟩
    obtain ⟨t, ht, rfl⟩ := List.mem_map.mp h
    obtain ⟨u, hu, rfl⟩ := List.mem_map.mp ht
    obtain ⟨i, hi, rfl⟩ := List.mem_mapIdx.mp hu
    rfl
  rw [hstop, stop_eq_start, fixture_withSong song h, hmutes]
  rfl

section

variable (f : Fixture) (volume : MasterVolume) (mutes : List Bool) (nextSerial : Nat)
  (notices : Notices)

/-- Serial numbers and notifications are handed on to the start as they are. -/
theorem renumber_start (d : Nat) (q : Notices) :
    (f.start volume mutes nextSerial notices).renumber d q =
      f.start volume mutes (nextSerial + d) q := by
  have htracks : (f.start volume mutes nextSerial notices).tracks.map (Track.renumber d) =
      (f.start volume mutes nextSerial notices).tracks := by
    simp only [Fixture.start, List.map_zipWith]
    rfl
  have hpool : (f.start volume mutes nextSerial notices).pool.renumber d =
      { slots := Array.replicate f.capacity none, nextSerial := nextSerial + d } := by
    simp [Fixture.start, VoicePool.renumber]
  unfold renumber
  rw [htracks, hpool]
  rfl

theorem setTrackMuted_start (i : Nat) (muted : Bool) :
    ((f.start volume mutes nextSerial notices).setTrackMuted i muted).2 =
      f.start volume (mutes.set i muted) nextSerial notices := by
  -- only tracks and voices can be muted, and at a fresh start there are no voices
  have hsnd : ∀ s : Sequencer, (s.setTrackMuted i muted).2 =
      { s with
        tracks := (s.setTrackMuted i muted).2.tracks
        pool := (s.setTrackMuted i muted).2.pool } := by
    intro s
    unfold setTrackMuted
    split <;> rfl
  have htracks :
      (f.start volume mutes nextSerial notices).tracks.modify i (fun t => { t with muted }) =
        (f.start volume (mutes.set i muted) nextSerial notices).tracks := by
    apply List.ext_getElem?
    intro j
    grind [Fixture.start]
  have hpool : ((f.start volume mutes nextSerial notices).setTrackMuted i muted).2.pool =
      (f.start volume mutes nextSerial notices).pool := by
    unfold setTrackMuted
    split
    · simp [Fixture.start, Track.setMuted, VoicePool.mapTrack, VoicePool.mapVoices]
    · rfl
  rw [hsnd, tracks_setTrackMuted, htracks, hpool]
  rfl

/-- Tracks are muted one by one; those in `done` have been muted, or not, as they should be. -/
theorem after_mutes (done : List Bool) {muted rest : List Bool}
    (length : muted.length = rest.length) :
    (f.start volume (done ++ rest) nextSerial notices).after
        (muted.mapIdx fun i muted => .setTrackMuted (done.length + i) muted) =
      f.start volume (done ++ muted) nextSerial notices := by
  induction muted generalizing done rest with
  | nil => rw [List.eq_nil_of_length_eq_zero length.symm]; rfl
  | cons m muted ih =>
    obtain ⟨r, rest, rfl⟩ := List.exists_cons_of_length_eq_add_one length.symm
    have hset : (done ++ r :: rest).set (done.length + 0) m = done ++ [m] ++ rest := by simp
    have hlater : (fun i muted => Request.setTrackMuted (done.length + (i + 1)) muted) =
        fun i muted => .setTrackMuted ((done ++ [m]).length + i) muted := by
      funext i muted
      rw [List.length_append, List.length_singleton, Nat.add_right_comm, Nat.add_assoc]
    rw [List.mapIdx_cons, after_cons, answer, setTrackMuted_start, hset, hlater,
      ih (done ++ [m]) (Nat.succ.inj length), List.append_assoc]
    rfl

end

/-! ## Nothing is left of the past

Two starts with one fixture, volume and mutes are twins. Twins sound and look the same whatever
comes. -/

/-- Whatever the host asks for next, it hears the same of both, sees the same, and is told the same,
behind what waits of earlier notifications. -/
def PlaysLike (s s' : Sequencer) : Prop :=
  ∀ requests : List Request,
    let told := along noticesIn s' requests
    along framesIn s requests = along framesIn s' requests ∧
    (s.after requests).snapshot = (s'.after requests).snapshot ∧
    along noticesIn s requests = told ∧
    ((∀ r ∈ requests, ¬ r.TakesNotices) →
      (s.after requests).notices = s.notices.pushAll told ∧
        (s'.after requests).notices = s'.notices.pushAll told)

theorem Twin.playsLike {s' : Sequencer} (h : Twin s s') : s'.PlaysLike s := by
  intro requests told
  have htold : along noticesIn s' requests = told :=
    likeness_twin.along_eq likeness_twin.noticesIn_eq requests h
  have hframes := likeness_twin.along_eq Twin.framesIn_eq requests h
  have hshown := (likeness_twin.after requests h).snapshot_eq
  refine ⟨hframes, hshown, htold, fun leave => ⟨?_, notices_after leave⟩⟩
  rw [← htold]
  exact notices_after leave

/-- A new sequencer that has just loaded a song. -/
theorem new_eq_start (config : Config) (playable : song.IsPlayable) (volume : MasterVolume) :
    (empty config).after [.setVolume volume, .load song] =
      (Fixture.ofSong config song).start volume (.replicate song.sources.length false) 0 {} := by
  rw [after_cons, after_cons, after_nil, answer_load, if_pos playable]
  exact withSong_eq_start rfl

theorem twin_load (playable : song.IsPlayable)
    (h : s.config = config.withSampleRate config.sampleRate) :
    Twin ((empty config).after [.setVolume s.volume, .load song]) (s.withSong song) := by
  refine ⟨0, s.notices, ?_⟩
  rw [new_eq_start config playable, renumber_start]
  exact withSong_eq_start h

theorem twin_stop (playable : song.IsPlayable) (h : s.fixture = .ofSong config song) :
    Twin (((empty config).after [.setVolume s.volume, .load song]).after s.muteRequests)
      s.stop := by
  have hlength : s.tracks.length = song.sources.length := by
    rw [← map_source_of_fixture h, List.length_map]
  have hmuted : (s.tracks.map Track.muted).length =
      (List.replicate song.sources.length false).length := by simp [hlength]
  have hmutes := after_mutes (.ofSong config song) s.volume 0 {} [] hmuted
  simp only [List.length_nil, Nat.zero_add, List.nil_append] at hmutes
  refine ⟨s.pool.nextSerial, s.notices, ?_⟩
  rw [new_eq_start config playable, muteRequests, hmutes, renumber_start, Nat.zero_add, ← h]
  exact stop_eq_start s

/-- What was played before makes no difference. A song that has just been loaded plays like the same
song in a new sequencer of the same volume, and so does, if the new one mutes the same tracks, a
song that has been stopped. -/
theorem plays_as_new (config : Config) (history : List Request) (song : Song) :
    let s := (empty config).after history
    let new := (empty config).after [.setVolume s.volume, .load song]
    (song.IsPlayable → (s.answer (.load song)).PlaysLike new) ∧
    (loadedSong? history = some song → s.stop.PlaysLike (new.after s.muteRequests)) := by
  intro s new
  constructor
  · intro playable
    rw [answer_load, if_pos playable]
    exact (twin_load playable (config_after config history)).playsLike
  · intro loaded
    exact (twin_stop (isPlayable_of_loadedSong? loaded) (fixture_after config loaded)).playsLike

theorem plays_as_new_oneNote :
    let s := (empty { sampleRate := 100 }).after
      [.load .oneNote, .play, .render 3, .setTrackMuted 0 true]
    let new := (empty { sampleRate := 100 }).after [.setVolume s.volume, .load .oneNote]
    s.pool.nextSerial = 1 ∧ s.pool.activeCount = 1 ∧ (s.answer (.load .oneNote)).PlaysLike new ∧
      s.stop.PlaysLike (new.after [.setTrackMuted 0 true]) := by
  intro s new
  have hmutes : s.tracks.map Track.muted = [true] := by decide +kernel
  have hrequests : s.muteRequests = [.setTrackMuted 0 true] := by
    rw [muteRequests, hmutes]
    rfl
  obtain ⟨loading, stopping⟩ := plays_as_new { sampleRate := 100 }
    [.load .oneNote, .play, .render 3, .setTrackMuted 0 true] .oneNote
  refine ⟨by decide +kernel, by decide +kernel, loading (by decide), ?_⟩
  rw [← hrequests]
  exact stopping rfl

end Sequencer
end Chiptune
