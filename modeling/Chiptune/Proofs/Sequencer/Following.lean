import Chiptune.Proofs.Sequencer.Notes
import Chiptune.Proofs.Track.Following

/-!
# Live parameters

A host and seven commands change how a track sounds, at times when voices of the track sound
already, released ones among them. `Sequencer.Follows` says that none of these changes passes a
voice by: the voices of every track follow the controls that it has. Every move keeps it.

What it comes to is `voices_follow_tracks`: to set the levels, the pitch and the mute of any voice
again, from the controls of its track, would change nothing.
-/

namespace Chiptune

/-- A song of one note that fades for a long time. Its volume, place and bend change meanwhile. -/
def Song.fadingNote : Song where
  driver := .m4a
  bank := { programs := #[some (.single { source := .square .half, adsr := { release := 250 } })] }
  sources := [.ofBytes
    ⟨#[0xCF, 60, 127, 0x82, 0xBE, 40, 0xCE, 60, 0x81, 0xBF, 20, 0xC0, 80, 0x98, 0xB1]⟩]

namespace Sequencer

variable {s s' : Sequencer}

/-- The voices of every track follow its controls. -/
def Follows (s : Sequencer) : Prop :=
  ∀ t ∈ s.tracks, s.pool.Follows t.index t.head.controls.tone t.muted s.config.sampleRate

/-! ## The tracks of one tick

Each track gives its tone to its own voices and leaves those of the others alone. The induction is
on the tracks that are still to tick. -/

/-- Tracks that tick leave the voices of any other track as they are. -/
theorem follows_tickTracks_of_not_mem {env : Setting} {tracks : List Track} {stage : Stage}
    {i : Nat} {tone : Tone} {muted : Bool} (other : i ∉ tracks.map Track.index)
    (f : stage.pool.Follows i tone muted env.sampleRate) :
    (tickTracks env tracks stage).2.pool.Follows i tone muted env.sampleRate := by
  induction tracks generalizing stage with
  | nil => exact f
  | cons t tracks ih =>
    rw [List.map_cons, List.mem_cons, not_or] at other
    exact ih other.2 (Track.follows_tick_of_ne other.1 f)

/-- After each track has ticked, its voices follow it, and the ticks of the others do not disturb
them. -/
theorem follows_tickTracks {env : Setting} {tracks : List Track} {stage : Stage}
    (distinct : (tracks.map Track.index).Nodup)
    (f : ∀ t ∈ tracks,
      stage.pool.Follows t.index t.head.controls.tone t.muted env.sampleRate) :
    ∀ t ∈ (tickTracks env tracks stage).1,
      (tickTracks env tracks stage).2.pool.Follows t.index t.head.controls.tone t.muted
        env.sampleRate := by
  induction tracks generalizing stage with
  | nil => simp [tickTracks]
  | cons t tracks ih =>
    rw [List.map_cons, List.nodup_cons] at distinct
    have mine : (t.tick env stage).2.pool.Follows (t.tick env stage).1.index
        (t.tick env stage).1.head.controls.tone (t.tick env stage).1.muted env.sampleRate := by
      obtain ⟨notes, same⟩ := Track.tick_eq env t stage
      have follows := Track.follows_tick (f t List.mem_cons_self)
      rw [same] at follows ⊢
      exact follows
    -- the first track does not touch the voices of the others, nor they its own
    have theirs : ∀ u ∈ tracks, (t.tick env stage).2.pool.Follows u.index u.head.controls.tone
        u.muted env.sampleRate := by
      intro u hu
      refine Track.follows_tick_of_ne ?_ (f u (List.mem_cons_of_mem t hu))
      intro same
      exact distinct.1 (same ▸ List.mem_map_of_mem hu)
    have others : (t.tick env stage).1.index ∉ tracks.map Track.index := by
      rw [(Track.turn_tick env t stage).index_eq]
      exact distinct.1
    have kept := follows_tickTracks_of_not_mem others mine
    intro u hu
    change u ∈ (t.tick env stage).1 :: (tickTracks env tracks (t.tick env stage).2).1 at hu
    rcases List.mem_cons.mp hu with rfl | rest
    · exact kept
    · exact ih distinct.2 theirs u rest

/-! ## Moves

Where all voices are cut nothing can be wrong. All other moves keep the voices following. -/

/-- Where there are no voices, all of them follow. -/
theorem follows_of_silent (gone : ∀ h, s.pool.get? h = none) : s.Follows :=
  fun _ _ => VoicePool.follows_of_gone gone

/-- What the song does after its tracks have ticked, does not touch controls or tones. -/
theorem Follows.runTick (announce : Bool) (b : s.Booked) (f : s.Follows) :
    (s.runTick announce).Follows := by
  obtain ⟨tracks, songLoops, notices, htracks, h⟩ := runTick_cases announce s
  rcases h with h | h
  · have ticked : s.tickAll.Follows := follows_tickTracks b.nodup_index f
    rw [h]
    rcases htracks with rfl | rfl
    · exact ticked
    · -- at its loop point a track has the controls that it had at its end
      intro u hu
      obtain ⟨t, ht, rfl⟩ := List.mem_map.mp hu
      have hcontrols : t.restarted.head.controls = t.head.controls := by
        rw [Track.restarted_eq]
        cases hr : t.head.restart? with
        | none => rfl
        | some head =>
          unfold Playhead.restart? at hr
          split at hr
          · cases hr
            rfl
          · cases hr
      have hmuted : t.restarted.muted = t.muted := by rw [Track.restarted_eq]
      rw [Track.index_restarted, hcontrols, hmuted]
      exact ticked t ht
  · rw [h]
    exact follows_of_silent fun _ => VoicePool.get?_killAll

theorem Follows.soundFrame (f : s.Follows) : s.soundFrame.2.Follows := by
  obtain ⟨pool, envelopeFrames, h, hpool⟩ := soundFrame_snd s
  have advanced := s.pool.preserves_advance s.bank
  have keeps : s.pool.Preserves pool := by
    rcases hpool with rfl | rfl
    · exact advanced
    · exact (advanced.trans (VoicePool.preserves_stepEnvelopes _)).trans
        (VoicePool.preserves_reapFinished _)
  rw [h]
  intro t ht
  exact (f t ht).of_preserves keeps

/-- A host mutes a track together with its voices. -/
theorem Follows.setTrackMuted (i : Nat) (muted : Bool) (b : s.Booked) (f : s.Follows) :
    (s.setTrackMuted i muted).2.Follows := by
  unfold Sequencer.setTrackMuted
  split
  · next t ht =>
    have mine : (s.pool.mapTrack t.index (·.setMuted muted)).Follows t.index t.head.controls.tone
        muted s.config.sampleRate :=
      (f t (List.mem_of_getElem? ht)).mapTrack fun h => h.setMuted muted
    -- the voices of the track that is muted are muted with it; all others are left alone
    intro u hu
    obtain ⟨j, hu⟩ := List.mem_iff_getElem?.mp hu
    rw [List.getElem?_set] at hu
    split at hu
    · split at hu
      · cases hu
        exact mine
      · cases hu
    · next ne =>
      refine (f u (List.mem_of_getElem? hu)).mapTrack_of_ne ?_ fun _ => rfl
      rw [b.index_of_getElem? hu, b.index_of_getElem? ht]
      exact Ne.symm ne
  · exact f

/-- Every move leaves the voices following their tracks. -/
theorem Follows.move (h : Move s s') (b : s.Booked) (f : s.Follows) : s'.Follows := by
  cases h with
  | rewind => exact follows_of_silent fun _ => VoicePool.get?_killAll
  | tick announce => exact f.runTick announce b
  | cut => exact follows_of_silent fun _ => VoicePool.get?_killAll
  | sound => exact f.soundFrame
  | mute i muted => exact f.setTrackMuted i muted b
  | adjust => exact f

/-- Both invariants at every moment. The second needs the first, which says that tracks are numbered
apart. -/
theorem IsMoment.booked_follows {config : Config} {requests : List Request}
    (h : IsMoment config requests s) : s.Booked ∧ s.Follows := by
  refine h.invariant (P := fun s => s.Booked ∧ s.Follows) ?_ ?_ ?_
  · refine ⟨booked_of_silent rfl (by simp [empty]) (by simp [empty]), ?_⟩
    exact follows_of_silent fun _ => VoicePool.get?_empty _
  · intro s song _
    exact ⟨booked_withSong s song, follows_of_silent fun _ => VoicePool.get?_killAll⟩
  · intro s s' move b
    exact ⟨b.1.move move, b.2.move move b.1⟩

/-- Voices follow their tracks. At every moment of every run, each voice, released or not, belongs
to a track of the song; it is muted if that is, and has the levels and the pitch that it would be
given now from the controls of that track. -/
theorem voices_follow_tracks {config : Config} {requests : List Request}
    (h : IsMoment config requests s) {slot : Nat} {x : HeldVoice}
    (hslot : s.pool.slots[slot]? = some (some x)) :
    ∃ t, s.tracks[x.voice.track]? = some t ∧ t.index = x.voice.track ∧
      x.voice.muted = t.muted ∧
      x.voice.setMix t.head.controls.level t.head.controls.pan = x.voice ∧
      x.voice.retune t.head.controls.bend t.head.controls.bendRange s.config.sampleRate =
        x.voice := by
  obtain ⟨b, f⟩ := h.booked_follows
  have hv : s.pool.get? ⟨slot, x.serial⟩ = some x.voice := VoicePool.get?_eq_some_iff.mpr hslot
  obtain ⟨t, ht⟩ : ∃ t, s.tracks[x.voice.track]? = some t :=
    ⟨_, List.getElem?_eq_getElem (b.placed _ _ hv)⟩
  have hindex := b.index_of_getElem? ht
  have follows := f t (List.mem_of_getElem? ht) _ _ hv hindex.symm
  exact ⟨t, ht, hindex, follows.muted_eq, follows.setMix_eq, follows.retune_eq⟩

theorem voices_follow_tracks_fadingNote :
    let s := (empty { sampleRate := 100 }).after [.load .fadingNote, .play, .render 12]
    ∃ (x : HeldVoice) (t : Track), s.pool.slots[0]? = some (some x) ∧
      x.voice.envelope.IsReleased ∧ s.tracks[0]? = some t ∧
      (t.head.controls.volume, t.head.controls.pan, t.head.controls.bend) = (40, -44, 2048) ∧
      x.voice.setMix t.head.controls.level t.head.controls.pan = x.voice ∧
      x.voice.retune t.head.controls.bend t.head.controls.bendRange 100 = x.voice := by
  intro s
  have hvoice : (s.pool.slots[0]?.join.map fun x =>
      (decide x.voice.envelope.IsReleased, x.voice.track)) = some (true, 0) := by decide +kernel
  have hcontrols : (s.tracks[0]?.map fun t =>
      (t.head.controls.volume, t.head.controls.pan, t.head.controls.bend)) =
        some (40, -44, 2048) := by decide +kernel
  have moment : IsMoment { sampleRate := 100 } [.load .fadingNote, .play, .render 12] s := .done
  have hconfig := config_after { sampleRate := 100 } [.load .fadingNote, .play, .render 12]
  change s.config = _ at hconfig
  -- from here on it does not matter how the sequencer came to be
  clear_value s
  obtain ⟨x, hjoin, hx⟩ := Option.map_eq_some_iff.mp hvoice
  obtain ⟨hreleased, htrack⟩ := Prod.mk.inj hx
  have hslot := Option.join_eq_some_iff.mp hjoin
  obtain ⟨t, ht, -, -, hmix, htune⟩ := voices_follow_tracks moment hslot
  rw [hconfig] at htune
  rw [htrack] at ht
  rw [ht] at hcontrols
  exact ⟨x, t, hslot, of_decide_eq_true hreleased, ht, Option.some.inj hcontrols, hmix, htune⟩

end Sequencer
end Chiptune
