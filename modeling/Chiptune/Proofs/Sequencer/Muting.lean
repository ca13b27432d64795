import Chiptune.Proofs.Sequencer.Following
import Chiptune.Proofs.Sequencer.Likeness
import Chiptune.Proofs.Track.Muting

/-!
# Muted songs go on

Which tracks are muted and how loud the whole is, its `Sequencer.mixing`, is heard and nothing else.
Two sequencers are `Alike` if they are the same but for that, and to be alike is a likeness
(`likeness_alike`): whatever the host asks them for, alike sequencers stay alike.

Since voices follow their tracks, the mutes of the tracks determine those of the voices, and alike
sequencers of one mixing are the same (`Alike.eq`).
-/

namespace Chiptune.Sequencer

variable {s s' : Sequencer}

/-- The sequencer when all of it can be heard, as loud as it is. -/
def unmuted (s : Sequencer) : Sequencer :=
  { s with
    tracks := s.tracks.map Track.unmuted
    pool := s.pool.unmuted
    volume := .unity }

/-- Which tracks are muted, and the volume. -/
def mixing (s : Sequencer) : List Bool × MasterVolume := (s.tracks.map Track.muted, s.volume)

/-- The sequencers are the same but for what is muted and for the volume. -/
def Alike (s s' : Sequencer) : Prop := s'.unmuted = s.unmuted

theorem Alike.refl (s : Sequencer) : s.Alike s := rfl

theorem Alike.symm (h : s.Alike s') : s'.Alike s := Eq.symm h

theorem Alike.trans {s'' : Sequencer} (h : s.Alike s') (h' : s'.Alike s'') : s.Alike s'' :=
  Eq.trans h' h

/-! ## What is done while something is muted

Every part of the sequencer commutes with `unmuted`. -/

/-- Muting does not touch the score. -/
theorem score_unmuted (s : Sequencer) : s.unmuted.score = s.score := by
  simp [score, unmuted, Track.unmuted, Track.part, Function.comp_def]

/-- Cutting voices does not look at what is muted. -/
theorem cutVoices_unmuted (s : Sequencer) : s.cutVoices.unmuted = s.unmuted.cutVoices := by
  simp [unmuted, cutVoices, Track.unmuted, Track.clearNotes, Function.comp_def]

/-- A rewind does not look at the mutes. -/
theorem rewind_unmuted (s : Sequencer) : s.rewind.unmuted = s.unmuted.rewind := by
  simp [unmuted, rewind, Track.unmuted, Track.reset, Track.atStart, Function.comp_def]

/-- In a song that has just been loaded no track is muted. -/
theorem withSong_unmuted (song : Song) (s : Sequencer) :
    (s.withSong song).unmuted = s.unmuted.withSong song := by
  rw [withSong, rewind_unmuted]
  have htracks : (song.sources.mapIdx (Track.atStart song.driver)).map Track.unmuted =
      song.sources.mapIdx (Track.atStart song.driver) := by
    apply List.ext_getElem?
    intro i
    rw [List.getElem?_map, List.getElem?_mapIdx, Option.map_map]
    rfl
  refine congrArg rewind ?_
  simp [unmuted, htracks, VoicePool.unmuted, VoicePool.mapVoices, VoicePool.empty]

/-- Each track finds a stage that differs only in what is muted. -/
theorem tickTracks_unmuted (env : Setting) (tracks : List Track) (stage : Stage) :
    tickTracks env (tracks.map Track.unmuted) stage.unmuted =
      ((tickTracks env tracks stage).1.map Track.unmuted,
        (tickTracks env tracks stage).2.unmuted) := by
  induction tracks generalizing stage with
  | nil => rfl
  | cons t tracks ih =>
    rw [List.map_cons, tickTracks, Track.tick_unmuted]
    dsimp only
    rw [ih]
    rfl

/-- A tick does not look at the mutes, although a new voice takes its mute from its track. -/
theorem tickAll_unmuted (s : Sequencer) : s.tickAll.unmuted = s.unmuted.tickAll := by
  -- neither the setting nor the tempo and the notifications know of mutes
  have htracks : tickTracks s.unmuted.setting s.unmuted.tracks s.unmuted.stage =
      ((tickTracks s.setting s.tracks s.stage).1.map Track.unmuted,
        (tickTracks s.setting s.tracks s.stage).2.unmuted) :=
    tickTracks_unmuted s.setting s.tracks s.stage
  unfold tickAll
  rw [htracks]
  rfl

/-- Going back to a loop point leaves the mute of a track alone. -/
theorem map_restarted_unmuted (s : Sequencer) :
    s.unmuted.tracks.map Track.restarted = (s.tracks.map Track.restarted).map Track.unmuted := by
  rw [unmuted, List.map_map, List.map_map]
  refine List.map_congr_left fun t _ => ?_
  show t.unmuted.restarted = t.restarted.unmuted
  rw [Track.restarted_eq, Track.restarted_eq]
  rfl

/-- The envelopes of muted voices move on like all others. -/
theorem countEnvelopeFrame_unmuted (s : Sequencer) :
    s.countEnvelopeFrame.unmuted = s.unmuted.countEnvelopeFrame := by
  have hpool : s.unmuted.pool.stepEnvelopes.reapFinished =
      s.pool.stepEnvelopes.reapFinished.unmuted := by
    rw [show s.unmuted.pool = s.pool.unmuted from rfl, VoicePool.stepEnvelopes_unmuted,
      VoicePool.reapFinished_unmuted]
  unfold countEnvelopeFrame
  rw [hpool, show s.unmuted.envelopePeriod = s.envelopePeriod from rfl,
    show s.unmuted.envelopeFrames = s.envelopeFrames from rfl]
  split <;> rfl

/-- A muted voice moves on with its recording, only it is not heard. -/
theorem soundFrame_unmuted (s : Sequencer) : s.soundFrame.2.unmuted = s.unmuted.soundFrame.2 := by
  have hadvanced : s.unmuted.soundFrame.2 =
      ({ s.unmuted with
        pool := s.pool.unmuted.advance s.bank
        account := s.account + s.frameIncome } : Sequencer).countEnvelopeFrame := rfl
  rw [hadvanced, VoicePool.advance_unmuted]
  exact countEnvelopeFrame_unmuted
    { s with pool := s.pool.advance s.bank, account := s.account + s.frameIncome }

/-- To mute a track or to let it be heard leaves everything but the mixing as it was. -/
theorem unmuted_setTrackMuted (i : Nat) (muted : Bool) (s : Sequencer) :
    (s.setTrackMuted i muted).2.unmuted = s.unmuted := by
  have htracks := map_tracks_setTrackMuted s i muted Track.unmuted fun _ _ => rfl
  have hpool : (s.setTrackMuted i muted).2.pool.unmuted = s.pool.unmuted := by
    unfold setTrackMuted
    split
    · next t _ => exact s.pool.unmuted_mapTrack_setMuted t.index muted
    · rfl
  unfold unmuted
  rw [htracks, hpool]
  unfold setTrackMuted
  split <;> rfl

/-! ## The likeness

Hence to be alike is a likeness, and all that is known of likenesses applies. -/

/-- To mute a track is to make a difference in what is muted. -/
theorem alike_setTrackMuted (i : Nat) (muted : Bool) (s : Sequencer) :
    s.Alike (s.setTrackMuted i muted).2 :=
  unmuted_setTrackMuted i muted s

theorem alike_setVolume (volume : MasterVolume) (s : Sequencer) : s.Alike (s.setVolume volume) :=
  rfl

/-- What takes no notice of the mixing leaves alike sequencers alike. -/
theorem Alike.map {f : Sequencer → Sequencer} (same : ∀ s, (f s).unmuted = f s.unmuted)
    (h : s.Alike s') : (f s).Alike (f s') := by
  rw [Alike, same, same, h]

/-- What is muted is a difference that a likeness allows for. -/
theorem likeness_alike : Likeness Alike where
  score_eq {s s'} h := by rw [← score_unmuted s', h, score_unmuted]
  config_eq {s s'} h := by
    have hconfig : s'.unmuted.config = s.unmuted.config := by rw [h]
    exact hconfig
  account_eq {s s'} h := by
    have haccount : s'.unmuted.account = s.unmuted.account := by rw [h]
    exact haccount
  noticesOfTracks_eq {s s'} h := by
    -- what a track tells does not depend on whether it is muted
    have htold : ∀ s : Sequencer, s.tracks.flatMap (Track.noticesInTick s.setting) =
        s.unmuted.tracks.flatMap (Track.noticesInTick s.unmuted.setting) := by
      intro s
      show _ = (s.tracks.map Track.unmuted).flatMap (Track.noticesInTick s.setting)
      rw [List.flatMap_map]
      exact congrArg (List.flatMap · s.tracks)
        (funext fun t => (Track.noticesInTick_unmuted t).symm)
    rw [htold s, htold s', h]
  setTransport transport := .map (f := fun s => { s with transport }) fun _ => rfl
  setAccount account := .map (f := fun s => { s with account }) fun _ => rfl
  setSongLoops songLoops := .map (f := fun s => { s with songLoops }) fun _ => rfl
  notify n := .map (f := fun s => s.notify n) fun _ => rfl
  cutVoices := .map cutVoices_unmuted
  rewind := .map rewind_unmuted
  tickAll := .map tickAll_unmuted
  restarted := .map (f := fun s => { s with tracks := s.tracks.map Track.restarted }) fun s => by
    rw [map_restarted_unmuted]
    rfl
  soundFrame := .map soundFrame_unmuted
  withSong song := .map (withSong_unmuted song)
  -- volume and mutes are the differences that are allowed for, and so they are set on each side
  setVolume {s s'} volume h :=
    (alike_setVolume volume s).symm.trans (h.trans (alike_setVolume volume s'))
  setTrackMuted {s s'} i muted h :=
    (alike_setTrackMuted i muted s).symm.trans (h.trans (alike_setTrackMuted i muted s'))
  popNotice := .map (f := fun s => s.popNotice.2) fun _ => rfl
  drainNotices := .map (f := fun s => s.drainNotices.2) fun _ => rfl

/-! ## What the mixing tells apart

Voices are muted as their tracks are. So if two alike sequencers have the same mixing, they are
equal, voices and all. -/

/-- Notes and voices agree, and the voices follow their tracks. -/
def InOrder (s : Sequencer) : Prop := s.Booked ∧ s.Follows

/-- Without a song nothing is muted. -/
theorem inOrder_empty (config : Config) : (empty config).InOrder := by
  have new : IsMoment config [] (empty config) := .done
  exact new.booked_follows

/-- The tracks stay numbered, and their voices muted with them, in every move. -/
theorem InOrder.moves (h : Moves s s') (o : s.InOrder) : s'.InOrder :=
  h.invariant (P := InOrder) (fun move o => ⟨o.1.move move, o.2.move move o.1⟩) o

/-- The mutes of tracks and voices stay in order in every request. -/
theorem InOrder.answer (r : Request) (o : s.InOrder) : (s.answer r).InOrder := by
  by_cases load : ∃ song, r = .load song
  · obtain ⟨song, rfl⟩ := load
    rw [answer_load]
    split
    · exact ⟨booked_withSong s song, follows_of_silent fun _ => VoicePool.get?_killAll⟩
    · exact o
  · exact o.moves (moves_answer fun song e => load ⟨song, e⟩)

theorem InOrder.after (requests : List Request) (o : s.InOrder) : (s.after requests).InOrder := by
  induction requests generalizing s with
  | nil => exact o
  | cons r requests ih => exact ih (o.answer r)

/-- A voice is muted if its track is. -/
theorem InOrder.muted_eq (o : s.InOrder) {h : VoiceHandle} {v : Voice}
    (hv : s.pool.get? h = some v) : (s.tracks.map Track.muted)[v.track]? = some v.muted := by
  obtain ⟨t, ht⟩ : ∃ t, s.tracks[v.track]? = some t :=
    ⟨_, List.getElem?_eq_getElem (o.1.placed h v hv)⟩
  have hindex := o.1.index_of_getElem? ht
  have follows := o.2 t (List.mem_of_getElem? ht) h v hv hindex.symm
  rw [List.getElem?_map, ht, Option.map_some, follows.muted_eq]

/-- Alike sequencers of one mixing are the same. -/
theorem Alike.eq (h : s.Alike s') (o : s.InOrder) (o' : s'.InOrder)
    (mixing : s'.mixing = s.mixing) :
    s' = s := by
  obtain ⟨hmuted, hvolume⟩ := Prod.mk.inj mixing
  -- a track is known by what it is unmuted and whether it is muted
  have htracks : s'.tracks = s.tracks := by
    have hpairs : s'.tracks.map (fun t => (t.unmuted, t.muted)) =
        s.tracks.map fun t => (t.unmuted, t.muted) := by
      have hunmuted : s'.tracks.map Track.unmuted = s.tracks.map Track.unmuted :=
        congrArg Sequencer.tracks h
      rw [← List.zip_map', ← List.zip_map', hunmuted, hmuted]
    refine List.map_injective_iff.mpr ?_ hpairs
    intro t t' same
    obtain ⟨hunmuted, hmuted⟩ := Prod.mk.inj same
    calc t
      _ = { t.unmuted with muted := t.muted } := rfl
      _ = { t'.unmuted with muted := t'.muted } := by rw [hunmuted, hmuted]
      _ = t' := rfl
  -- a voice is muted if its track is, and both have the same track
  have hpool : s'.pool = s.pool := by
    have hunmuted : s'.pool.unmuted = s.pool.unmuted := congrArg Sequencer.pool h
    apply VoicePool.eq_of_unmuted_eq hunmuted
    intro i v w hv hw
    have hvw : v.setMuted false = w.setMuted false := by
      have hfound := congrArg (VoicePool.get? · i) hunmuted
      simpa [VoicePool.unmuted, hv, hw] using hfound
    have htrack : (v.setMuted false).track = (w.setMuted false).track := congrArg Voice.track hvw
    change v.track = w.track at htrack
    have hmutes := o'.muted_eq hv
    rw [hmuted, htrack, o.muted_eq hw] at hmutes
    exact (Option.some.inj hmutes).symm
  calc s'
    _ = { s'.unmuted with tracks := s'.tracks, pool := s'.pool, volume := s'.volume } := rfl
    _ = { s.unmuted with tracks := s.tracks, pool := s.pool, volume := s.volume } := by
      rw [h, htracks, hpool, hvolume]
    _ = s := rfl

end Chiptune.Sequencer
