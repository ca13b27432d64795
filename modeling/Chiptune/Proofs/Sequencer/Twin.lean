import Chiptune.Proofs.Sequencer.Likeness
import Chiptune.Proofs.Track.Renumber

/-!
# Twins

Two sequencers are twins if they differ in their serial numbers and in the notifications that wait,
and in nothing else. To be twins is a likeness (`likeness_twin`): whatever the host asks them for,
twins stay twins and tell the same. They also render the same frames (`Twin.framesIn_eq`) and look
the same on a display (`Twin.snapshot_eq`).
-/

namespace Chiptune.Sequencer

variable {s s' : Sequencer} {d : Nat} {q : Notices}

/-- The sequencer with all serial numbers raised by `d`, and with other notifications. -/
def renumber (d : Nat) (q : Notices) (s : Sequencer) : Sequencer :=
  { s with
    tracks := s.tracks.map (Track.renumber d)
    pool := s.pool.renumber d
    notices := q }

/-- The second sequencer is the first one with other serial numbers and other notifications. -/
def Twin (s s' : Sequencer) : Prop := ∃ (d : Nat) (q : Notices), s' = s.renumber d q

/-- What does not depend on handles is the same for every track. -/
theorem map_tracks_renumber {α : Type} {f : Track → α} (same : ∀ t, f (Track.renumber d t) = f t) :
    (s.renumber d q).tracks.map f = s.tracks.map f := by
  rw [renumber, List.map_map]
  exact List.map_congr_left fun t _ => same t

/-- A score tells nothing of handles. -/
theorem score_renumber : (s.renumber d q).score = s.score := by
  unfold score
  rw [map_tracks_renumber fun _ => rfl]
  rfl

/-- To take the notifications out makes a twin. -/
theorem twin_drained (s : Sequencer) : Twin s s.drainNotices.2 := by
  have tracks : s.tracks.map (Track.renumber 0) = s.tracks :=
    List.map_id'' Track.renumber_zero s.tracks
  exact ⟨0, {}, by simp [drainNotices, renumber, tracks]⟩

/-! ## Without voices

To cut the voices and to load a song leave no handles behind, or none that could differ. -/

/-- To cut all voices and to renumber handles can change places. -/
theorem cutVoices_renumber : (s.renumber d q).cutVoices = s.cutVoices.renumber d q := by
  simp [renumber, cutVoices, Track.renumber, Track.clearNotes, Function.comp_def]

theorem rewind_renumber : (s.renumber d q).rewind = s.rewind.renumber d q := by
  simp [renumber, rewind, Track.renumber, Track.reset, Track.atStart, Function.comp_def]

/-- A song that is loaded gets new tracks and a new pool, so that nothing but notifications may
differ. -/
theorem withSong_renumber (song : Song) :
    (s.renumber d q).withSong song = (s.withSong song).renumber 0 q := by
  simp [renumber, withSong, rewind, Track.renumber, Track.reset, Track.atStart,
    VoicePool.renumber, VoicePool.killAll, VoicePool.empty, Function.comp_def]

/-! ## A tick

Tracks are renumbered along with the pool, and notifications are set to whatever was told. -/

/-- Tracks tick alike when their handles are renumbered. Their notices may be other ones. -/
theorem tickTracks_renumber (env : Setting) (tracks : List Track) (stage : Stage) (q : Notices) :
    ∃ q', tickTracks env (tracks.map (Track.renumber d)) (stage.renumber d q) =
      ((tickTracks env tracks stage).1.map (Track.renumber d),
        (tickTracks env tracks stage).2.renumber d q') := by
  induction tracks generalizing stage q with
  | nil => exact ⟨q, rfl⟩
  | cons t tracks ih =>
    obtain ⟨q', h⟩ := ih (t.tick env stage).2 (q.pushAll (t.noticesInTick env))
    refine ⟨q', ?_⟩
    rw [List.map_cons, tickTracks, Track.tick_renumber]
    dsimp only
    rw [h]
    rfl

theorem tickAll_renumber : ∃ q', (s.renumber d q).tickAll = s.tickAll.renumber d q' := by
  obtain ⟨q', h⟩ := tickTracks_renumber (d := d) s.setting s.tracks s.stage q
  -- the setting is the same, since nothing in it has a number
  have htracks :
      tickTracks (s.renumber d q).setting (s.renumber d q).tracks (s.renumber d q).stage =
        ((tickTracks s.setting s.tracks s.stage).1.map (Track.renumber d),
          (tickTracks s.setting s.tracks s.stage).2.renumber d q') := h
  refine ⟨q', ?_⟩
  unfold tickAll
  rw [htracks]
  rfl

theorem restarted_renumber (t : Track) : (t.renumber d).restarted = t.restarted.renumber d := by
  rw [Track.restarted_eq, Track.restarted_eq]
  rfl

theorem map_restarted_renumber :
    (s.renumber d q).tracks.map Track.restarted =
      (s.tracks.map Track.restarted).map (Track.renumber d) := by
  rw [renumber, List.map_map, List.map_map]
  exact List.map_congr_left fun t _ => restarted_renumber t

/-! ## Frames

Voices sound without a look at their handles. -/

theorem countEnvelopeFrame_renumber (s : Sequencer) :
    (s.renumber d q).countEnvelopeFrame = s.countEnvelopeFrame.renumber d q := by
  unfold countEnvelopeFrame
  show (if s.envelopeFrames + 1 < s.envelopePeriod then _ else
    ({ s.renumber d q with
      envelopeFrames := 0
      pool := ((s.pool.renumber d).mapVoices Voice.stepEnvelope).reapFinished } : Sequencer)) = _
  rw [VoicePool.mapVoices_renumber, VoicePool.reapFinished_renumber]
  split <;> rfl

/-- A frame sounds the same: the pool sounds its voices, not their numbers. -/
theorem soundFrame_renumber (s : Sequencer) :
    (s.renumber d q).soundFrame = (s.soundFrame.1, s.soundFrame.2.renumber d q) := by
  have hadvance : (s.pool.renumber d).advance s.bank = (s.pool.advance s.bank).renumber d :=
    VoicePool.mapVoices_renumber _
  show (s.volume.frame ((s.pool.renumber d).output s.bank),
    ({ s.renumber d q with
      pool := (s.pool.renumber d).advance s.bank
      account := s.account + s.frameIncome } : Sequencer).countEnvelopeFrame) = _
  rw [VoicePool.output_renumber, hadvance]
  exact congrArg (Prod.mk _) (countEnvelopeFrame_renumber
    { s with pool := s.pool.advance s.bank, account := s.account + s.frameIncome })

/-! ## Mutes

A mute is looked up by the index of a track. -/

theorem setTrackMuted_renumber (i : Nat) (muted : Bool) :
    ((s.renumber d q).setTrackMuted i muted).2 = (s.setTrackMuted i muted).2.renumber d q := by
  have htrack : (s.renumber d q).tracks[i]? = (s.tracks[i]?).map (Track.renumber d) :=
    List.getElem?_map
  unfold setTrackMuted
  rw [htrack]
  cases s.tracks[i]? with
  | none => rfl
  | some t =>
    show ({ s.renumber d q with
      tracks := (s.tracks.map (Track.renumber d)).set i (Track.renumber d { t with muted })
      pool := (s.pool.renumber d).mapTrack t.index (·.setMuted muted) } : Sequencer) = _
    rw [← List.map_set, VoicePool.mapTrack_renumber]
    rfl

/-! ## The likeness

All parts of a likeness are there. -/

/-- Twins stay twins under every request. -/
theorem likeness_twin : Likeness Twin where
  -- twins differ in serial numbers and queues, and each part renumbers or pushes on its side
  score_eq := by
    rintro s _ ⟨d, q, rfl⟩
    exact score_renumber
  config_eq := by
    rintro s _ ⟨d, q, rfl⟩
    rfl
  account_eq := by
    rintro s _ ⟨d, q, rfl⟩
    rfl
  noticesOfTracks_eq := by
    rintro s _ ⟨d, q, rfl⟩
    show (s.tracks.map (Track.renumber d)).flatMap (Track.noticesInTick s.setting) = _
    rw [List.flatMap_map]
    rfl
  setTransport := by
    rintro s _ transport ⟨d, q, rfl⟩
    exact ⟨d, q, rfl⟩
  setAccount := by
    rintro s _ account ⟨d, q, rfl⟩
    exact ⟨d, q, rfl⟩
  setSongLoops := by
    rintro s _ songLoops ⟨d, q, rfl⟩
    exact ⟨d, q, rfl⟩
  notify := by
    rintro s _ n ⟨d, q, rfl⟩
    exact ⟨d, q.push n, rfl⟩
  cutVoices := by
    rintro s _ ⟨d, q, rfl⟩
    exact ⟨d, q, cutVoices_renumber⟩
  rewind := by
    rintro s _ ⟨d, q, rfl⟩
    exact ⟨d, q, rewind_renumber⟩
  tickAll := by
    rintro s _ ⟨d, q, rfl⟩
    exact ⟨d, tickAll_renumber⟩
  restarted := by
    rintro s _ ⟨d, q, rfl⟩
    refine ⟨d, q, ?_⟩
    rw [map_restarted_renumber]
    rfl
  soundFrame := by
    rintro s _ ⟨d, q, rfl⟩
    rw [soundFrame_renumber]
    exact ⟨d, q, rfl⟩
  withSong := by
    rintro s _ song ⟨d, q, rfl⟩
    exact ⟨0, q, withSong_renumber song⟩
  setVolume := by
    rintro s _ volume ⟨d, q, rfl⟩
    exact ⟨d, q, rfl⟩
  setTrackMuted := by
    rintro s _ i muted ⟨d, q, rfl⟩
    exact ⟨d, q, setTrackMuted_renumber i muted⟩
  popNotice := by
    rintro s _ ⟨d, q, rfl⟩
    exact ⟨d, q.pop.2, rfl⟩
  drainNotices := by
    rintro s _ ⟨d, q, rfl⟩
    exact ⟨d, {}, rfl⟩

/-! ## What twins sound and look like

What a host gets from one of them it gets from the other. -/

/-- A frame sounds the same from twins. -/
theorem Twin.nextFrame_fst (h : Twin s s') : s'.nextFrame.1 = s.nextFrame.1 := by
  have ticked := likeness_twin.passDueTicks h
  unfold nextFrame
  rw [likeness_twin.transport_eq h]
  split
  · dsimp only
    rw [likeness_twin.transport_eq ticked]
    split
    · obtain ⟨d, q, e⟩ := ticked
      rw [e, soundFrame_renumber]
    · rfl
  · rfl

/-- Twins render the same frames. -/
theorem Twin.renderOnto_fst (count : Nat) (frames : Array Frame) (h : Twin s s') :
    (s'.renderOnto count frames).1 = (s.renderOnto count frames).1 := by
  induction count generalizing s s' frames with
  | zero => rfl
  | succ count ih =>
    rw [renderOnto, renderOnto]
    dsimp only
    rw [h.nextFrame_fst]
    exact ih _ (likeness_twin.nextFrame h)

/-- The frames that are rendered while the sequencer does what was asked. -/
def framesIn (s : Sequencer) : Request → List Frame
  | .render count => (s.render count).1.toList
  | _ => []

/-- Twins answer every request with the same frames. -/
theorem Twin.framesIn_eq (r : Request) (h : Twin s s') : s'.framesIn r = s.framesIn r := by
  cases r with
  | render count => exact congrArg Array.toList (h.renderOnto_fst count #[])
  | _ => rfl

/-- Twins show a host the same picture. -/
theorem Twin.snapshot_eq (h : Twin s s') : s'.snapshot = s.snapshot := by
  obtain ⟨d, q, rfl⟩ := h
  have htracks : (s.tracks.map (Track.renumber d)).map (Track.snapshot (s.pool.renumber d)) =
      s.tracks.map (Track.snapshot s.pool) := by
    rw [List.map_map]
    apply List.map_congr_left
    intro t _
    show ({ t.snapshot s.pool with
      keys := (t.renumber d).soundingKeys (s.pool.renumber d) } : TrackSnapshot) = _
    rw [Track.soundingKeys_renumber]
    rfl
  show ({ s.snapshot with
    activeVoices := (s.pool.renumber d).activeCount
    tracks := (s.tracks.map (Track.renumber d)).map (Track.snapshot (s.pool.renumber d)) }
      : Snapshot) = _
  rw [htracks, VoicePool.activeCount_renumber]
  rfl

end Chiptune.Sequencer
