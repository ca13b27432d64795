import Chiptune.Proofs.Sequencer.History
import Chiptune.Proofs.Sequencer.Tick

/-!
# What a loaded song fixes

Until another song is loaded, nothing touches its index, the driver, the bank, the initial tempo,
the streams of the tracks, the number of slots in the pool and the choices of the host.
`Sequencer.fixture` collects them; no move changes it (`fixture_of_move`), and after any requests it
is that of the song that was loaded last (`fixture_after`).
-/

namespace Chiptune

/-- The song that a request loads, if it can be loaded. -/
def Request.song? : Request → Option Song
  | .load song => if song.IsPlayable then some song else none
  | _ => none

/-- The song that is loaded after some requests: the last one that could be. -/
def loadedSong? (requests : List Request) : Option Song := requests.reverse.findSome? Request.song?

/-- A later request decides, if it loads a song at all. -/
theorem loadedSong?_concat (requests : List Request) (r : Request) :
    loadedSong? (requests ++ [r]) = (r.song? <|> loadedSong? requests) := by
  unfold loadedSong?
  rw [List.reverse_concat, List.findSome?_cons]
  cases r.song? <;> rfl

/-- Requests that load nothing leave the song that was loaded before. -/
theorem loadedSong?_append (requests : List Request) {later : List Request}
    (h : ∀ r ∈ later, r.song? = none) : loadedSong? (requests ++ later) = loadedSong? requests := by
  have hnone : later.reverse.findSome? Request.song? = none :=
    List.findSome?_eq_none_iff.mpr fun r hr => h r (List.mem_reverse.mp hr)
  unfold loadedSong?
  rw [List.reverse_append, List.findSome?_append, hnone, Option.none_or]

/-- Only playable songs are ever loaded. -/
theorem isPlayable_of_loadedSong? {requests : List Request} {song : Song}
    (h : loadedSong? requests = some song) : song.IsPlayable := by
  obtain ⟨r, -, hr⟩ := List.exists_of_findSome?_eq_some h
  cases r with
  | load other =>
    rw [Request.song?] at hr
    split at hr
    · next playable =>
      cases hr
      exact playable
    · cases hr
  | _ => cases hr

namespace Sequencer

variable {s s' : Sequencer} {config : Config} {requests : List Request} {song : Song}

/-! ## The fixed part

What a song and a configuration fix, as one value, so that later proofs can compare it at once. -/

/-- What stays as it is until another song is loaded. -/
structure Fixture where
  config : Config
  songIndex : Option Nat
  driver : SoundDriver
  bank : Bank
  initialTempo : Nat
  /-- The index and the stream of each track. -/
  sources : List (Nat × TrackSource)
  capacity : Nat

def fixture (s : Sequencer) : Fixture where
  config := s.config
  songIndex := s.songIndex
  driver := s.driver
  bank := s.bank
  initialTempo := s.initialTempo
  sources := s.tracks.map fun t => (t.index, t.source)
  capacity := s.pool.capacity

/-- What a song fixes. -/
def Fixture.ofSong (config : Config) (song : Song) : Fixture where
  config := config.withSampleRate config.sampleRate
  songIndex := some song.index
  driver := song.driver
  bank := song.bank
  initialTempo := max 1 song.initialTempo
  sources := song.sources.mapIdx fun i source => (i, source)
  capacity := (VoicePool.empty song.driver.profile.maxVoices).capacity

/-! ## No move changes it

Ticks, frames and mutes are gone through, and each of them leaves every field as it is. -/

/-- A tick leaves to every track its index and its source. -/
theorem map_source_tickTracks (env : Setting) (tracks : List Track) (stage : Stage) :
    (tickTracks env tracks stage).1.map (fun t => (t.index, t.source)) =
      tracks.map fun t => (t.index, t.source) := by
  refine map_tickTracks env (fun t stage => ?_) tracks stage
  obtain ⟨notes, h⟩ := Track.tick_eq env t stage
  rw [h]

theorem fixture_cutVoices (s : Sequencer) : s.cutVoices.fixture = s.fixture := by
  simp [fixture, cutVoices, Track.clearNotes, Function.comp_def]

theorem fixture_endSong (s : Sequencer) : s.endSong.fixture = s.fixture := fixture_cutVoices s

theorem fixture_tickAll (s : Sequencer) : s.tickAll.fixture = s.fixture := by
  have hcapacity := (evolves_tickTracks s.setting s.tracks s.stage).capacity_eq
  unfold fixture tickAll
  rw [map_source_tickTracks, hcapacity]
  rfl

/-- A tick leaves the fixture alone. -/
theorem fixture_runTick (announce : Bool) (s : Sequencer) :
    (s.runTick announce).fixture = s.fixture := by
  obtain ⟨tracks, songLoops, notices, htracks, h⟩ := runTick_cases announce s
  have hsame : { s.tickAll with tracks, songLoops, notices }.fixture = s.fixture := by
    rw [← fixture_tickAll s]
    rcases htracks with rfl | rfl
    · rfl
    · simp [fixture, Function.comp_def]
  rcases h with h | h
  · rw [h, hsame]
  · rw [h, fixture_endSong, hsame]

/-- Muting changes nothing of a track but whether it is muted. -/
theorem map_tracks_setTrackMuted {α : Type} (s : Sequencer) (i : Nat) (muted : Bool)
    (f : Track → α) (hf : ∀ (t : Track) (muted : Bool), f { t with muted } = f t) :
    (s.setTrackMuted i muted).2.tracks.map f = s.tracks.map f := by
  unfold setTrackMuted
  split
  · next t ht =>
    refine List.ext_getElem? fun j => ?_
    rw [List.getElem?_map, List.getElem?_map, List.getElem?_set]
    split
    · next e =>
      obtain ⟨hlt, -⟩ := List.getElem?_eq_some_iff.mp ht
      rw [if_pos hlt, ← e, ht, Option.map_some, Option.map_some, Track.setMuted, hf]
    · rfl
  · rfl

/-- No move changes the fixture: only loading does. -/
theorem fixture_of_move (h : Move s s') : s'.fixture = s.fixture := by
  cases h with
  | rewind => simp [fixture, rewind, Track.reset, Track.atStart, Function.comp_def]
  | tick announce => exact fixture_runTick announce s
  | cut => exact fixture_cutVoices s
  | sound =>
    obtain ⟨pool, envelopeFrames, hsound, hpool⟩ := soundFrame_snd s
    have hcapacity : pool.capacity = s.pool.capacity := by
      rcases hpool with rfl | rfl
      -- whether or not the envelopes step, no slot is added or taken away
      · exact VoicePool.capacity_mapVoices _ _
      · simp [VoicePool.advance, VoicePool.stepEnvelopes]
    rw [hsound, fixture, hcapacity]
    rfl
  | mute i muted =>
    have htracks := map_tracks_setTrackMuted s i muted (fun t => (t.index, t.source)) fun _ _ => rfl
    have hcapacity : (s.setTrackMuted i muted).2.pool.capacity = s.pool.capacity := by
      unfold setTrackMuted
      split
      · exact VoicePool.capacity_mapVoices _ _
      · rfl
    unfold fixture
    rw [htracks, hcapacity]
    unfold setTrackMuted
    split <;> rfl
  | adjust => rfl

theorem fixture_of_moves (h : Moves s s') : s'.fixture = s.fixture := by
  induction h with
  | refl => rfl
  | tail _ hmove ih => exact (fixture_of_move hmove).trans ih

theorem map_source_of_fixture (h : s.fixture = .ofSong config song) :
    s.tracks.map Track.source = song.sources := by
  calc s.tracks.map Track.source
    _ = s.fixture.sources.map Prod.snd := by simp [fixture, Function.comp_def]
    _ = song.sources := by
      rw [h]
      exact List.ext_getElem? fun i => by simp [Fixture.ofSong, Function.comp_def]

theorem tracks_ne_nil (h : s.fixture = .ofSong config song) (playable : song.IsPlayable) :
    s.tracks ≠ [] := by
  intro none
  have hsources := map_source_of_fixture h
  rw [none, List.map_nil] at hsources
  exact playable.1 hsources.symm

/-- The fixture is set where a song is loaded. -/
theorem fixture_withSong (song : Song) (h : s.config = config.withSampleRate config.sampleRate) :
    (s.withSong song).fixture = .ofSong config song := by
  have hsources : (s.withSong song).tracks.map (fun t => (t.index, t.source)) =
      song.sources.mapIdx fun i source => (i, source) := by
    refine List.ext_getElem? fun i => ?_
    simp [withSong, rewind, Track.reset, Track.atStart, Function.comp_def]
  have hcapacity : (s.withSong song).pool.capacity =
      (VoicePool.empty song.driver.profile.maxVoices).capacity := VoicePool.capacity_killAll
  simp only [fixture, Fixture.ofSong, hsources, hcapacity, ← h]
  rfl

/-! ## After any requests

The fixture is that of the song that was loaded last, and of the configuration from the beginning.
-/

/-- The choices of the host stay as they are, and a sample rate of zero was raised to one. -/
theorem config_after (config : Config) (requests : List Request) :
    ((empty config).after requests).config = config.withSampleRate config.sampleRate := by
  refine invariant_after (P := fun s => s.config = config.withSampleRate config.sampleRate)
    rfl ?_ ?_ requests
  · exact fun s song h => h
  · intro s s' hmove h
    exact (congrArg Fixture.config (fixture_of_move hmove)).trans h

/-- After a song has been loaded, and whatever was asked since, the sequencer holds that song. -/
theorem fixture_after (config : Config) (loaded : loadedSong? requests = some song) :
    ((empty config).after requests).fixture = .ofSong config song := by
  induction requests using List.reverseRecOn with
  | nil => cases loaded
  | append_singleton requests r ih =>
    rw [loadedSong?_concat] at loaded
    rw [after_concat]
    -- only a song that can be loaded takes the place of the one before
    by_cases h : ∃ other, r = .load other
    · obtain ⟨other, rfl⟩ := h
      rw [answer_load]
      by_cases playable : other.IsPlayable
      · rw [if_pos playable]
        rw [Request.song?, if_pos playable, Option.orElse_eq_orElse, Option.orElse_some] at loaded
        cases loaded
        exact fixture_withSong _ (config_after config requests)
      · rw [if_neg playable]
        rw [Request.song?, if_neg playable] at loaded
        exact ih loaded
    · have none : r.song? = none := by
        cases r with
        | load other => exact absurd ⟨other, rfl⟩ h
        | _ => rfl
      rw [none] at loaded
      exact (fixture_of_moves (moves_answer fun other e => h ⟨other, e⟩)).trans (ih loaded)

/-- At every moment the fixture is the one of the song loaded last. -/
theorem IsMoment.fixture (loaded : loadedSong? requests = some song)
    (h : IsMoment config requests s) : s.fixture = .ofSong config song :=
  (fixture_of_moves h.moves).trans (fixture_after config loaded)

end Sequencer
end Chiptune
