import Chiptune.Proofs.Sequencer.Fixture
import Chiptune.Proofs.Track.Ownership
import Chiptune.Sequencer.Snapshot
import Mathlib.Data.List.Perm.Lattice

/-!
# No hung and no lost notes

Voices live in the pool, where they are stolen, replaced, reaped and killed, and notes live in the
tracks, where they expire, are matched, make room and are forgotten. `Sequencer.Booked` says that
the two sides agree: every track owns its voices, every voice belongs to a track, and a track that
is over holds nothing. Every move keeps it, so it holds at every moment of every run.

`notes_match_voices` draws the conclusions: each unreleased voice has exactly one note, no live
handle is held twice, and the keys of a snapshot are those of the voices that wait for their
release.
-/

namespace Chiptune

/-- The notes of the tracks and the voices of the pool agree. -/
structure Sequencer.Booked (s : Sequencer) : Prop where
  /-- Tracks are numbered in their order. -/
  index_eq : s.tracks.map Track.index = List.range s.tracks.length
  owns : ∀ t ∈ s.tracks, t.Owns s.pool
  /-- Finished tracks have no notes. -/
  ended : ∀ t ∈ s.tracks, t.EndsNotes
  /-- Every voice belongs to a track of the song, released or not. -/
  placed : ∀ h v, s.pool.get? h = some v → v.track < s.tracks.length

namespace Sequencer

variable {s s' : Sequencer}

/-! ## The tracks of one tick

A track that ticks may steal the voice of another one, but does nothing else to it. What each track
owns is kept through the turns of all others, by induction on the tracks. -/

/-- The tick of one track leaves the voices of the others to them. -/
theorem owns_of_tick (env : Setting) {u : Track} {tracks : List Track} {stage : Stage}
    (alone : u.index ∉ tracks.map Track.index) (owns : ∀ t ∈ tracks, t.Owns stage.pool) :
    ∀ t ∈ tracks, t.Owns (u.tick env stage).2.pool := by
  intro t ht
  refine (owns t ht).of_evolves (u.turn_tick env stage).evolves fun e => ?_
  exact alone (e ▸ List.mem_map_of_mem ht)

/-- When tracks tick one after another, each one ends up with notes of its own: what the others do
to the pool does not touch them. -/
theorem owns_tickTracks (env : Setting) {tracks : List Track} {stage : Stage}
    (distinct : (tracks.map Track.index).Nodup) (owns : ∀ t ∈ tracks, t.Owns stage.pool) :
    ∀ t ∈ (tickTracks env tracks stage).1, t.Owns (tickTracks env tracks stage).2.pool := by
  induction tracks generalizing stage with
  | nil => simp [tickTracks]
  | cons t tracks ih =>
    have turn := Track.turn_tick env t stage
    rw [List.map_cons, List.nodup_cons] at distinct
    have mine : (t.tick env stage).1.Owns (t.tick env stage).2.pool :=
      turn.owns (owns t List.mem_cons_self)
    -- the first track's turn leaves the others alone, and theirs leave the first one alone
    have theirs := owns_of_tick env distinct.1 fun u hu => owns u (List.mem_cons_of_mem t hu)
    intro u hu
    rcases List.mem_cons.mp hu with rfl | hu
    · refine mine.of_evolves (evolves_tickTracks env tracks _) ?_
      rw [turn.index_eq]
      exact distinct.1
    · exact ih distinct.2 theirs u hu

/-- A track that has finished has no notes left, after every tick. -/
theorem endsNotes_tickTracks (env : Setting) {tracks : List Track} (stage : Stage)
    (ended : ∀ t ∈ tracks, t.EndsNotes) :
    ∀ t ∈ (tickTracks env tracks stage).1, t.EndsNotes := by
  induction tracks generalizing stage with
  | nil => simp [tickTracks]
  | cons t tracks ih =>
    intro u hu
    rcases List.mem_cons.mp hu with rfl | hu
    · exact Track.endsNotes_tick env stage (ended t List.mem_cons_self)
    · exact ih _ (fun v hv => ended v (List.mem_cons_of_mem t hv)) u hu

/-! ## Moves keep the agreement

The agreement holds trivially where all voices are cut, and each other move keeps it. -/

theorem Booked.nodup_index (b : s.Booked) : (s.tracks.map Track.index).Nodup := by
  rw [b.index_eq]
  exact List.nodup_range

/-- Where there are no voices and no notes, nothing can disagree. -/
theorem booked_of_silent (index_eq : s.tracks.map Track.index = List.range s.tracks.length)
    (notes : ∀ t ∈ s.tracks, t.notes = []) (voices : ∀ h, s.pool.get? h = none) : s.Booked where
  index_eq := index_eq
  owns t ht := Track.owns_of_notes_eq_nil (notes t ht) fun h v hv => by simp [voices] at hv
  ended t ht := fun _ => notes t ht
  placed h v hv := by simp [voices] at hv

/-- When all voices are cut, the tracks forget their notes as well. -/
theorem Booked.cutVoices (b : s.Booked) : s.cutVoices.Booked := by
  refine booked_of_silent ?_ ?_ ?_
  · simpa [Sequencer.cutVoices, Track.clearNotes, Function.comp_def] using b.index_eq
  · simp [Sequencer.cutVoices, Track.clearNotes]
  · simp [Sequencer.cutVoices]

theorem Booked.rewind (b : s.Booked) : s.rewind.Booked := by
  refine booked_of_silent ?_ ?_ ?_
  · simpa [Sequencer.rewind, Track.reset, Track.atStart, Function.comp_def] using b.index_eq
  · simp [Sequencer.rewind, Track.reset, Track.atStart]
  · simp [Sequencer.rewind]

/-- A song that is put in holds no notes, whatever was held before. -/
theorem booked_withSong (s : Sequencer) (song : Song) : (s.withSong song).Booked := by
  refine booked_of_silent ?_ ?_ ?_
  · refine List.ext_getElem? fun i => ?_
    simp only [withSong, Sequencer.rewind, List.map_map, List.getElem?_map, List.getElem?_mapIdx,
      List.length_map, List.length_mapIdx]
    by_cases hi : i < song.sources.length
    · simp [hi, Track.reset, Track.atStart]
    · simp [Nat.not_lt.mp hi]
  · intro t ht
    obtain ⟨u, -, rfl⟩ := List.mem_map.mp ht
    rfl
  · simp [withSong, Sequencer.rewind]

/-- A change of the pool that keeps its voices for what they are keeps the agreement. -/
theorem Booked.of_evolves {pool : VoicePool} (b : s.Booked)
    (ev : s.pool.Evolves (fun _ => False) pool) : { s with pool }.Booked where
  index_eq := b.index_eq
  owns t ht := (b.owns t ht).of_evolves ev id
  ended := b.ended
  placed h w hw := by
    rcases ev.found hw with ⟨v, hv, hvw⟩ | ⟨-, never⟩
    · exact hvw.track_eq ▸ b.placed h v hv
    · exact never.elim

/-- A tick of all tracks keeps the agreement, since each one leaves the voices of the others to
them. -/
theorem Booked.tickAll (b : s.Booked) : s.tickAll.Booked where
  index_eq := by
    have h := congrArg List.length (map_index_tickTracks s.setting s.tracks s.stage)
    rw [List.length_map, List.length_map] at h
    simp only [Sequencer.tickAll]
    rw [map_index_tickTracks, b.index_eq, h]
  owns := owns_tickTracks s.setting b.nodup_index b.owns
  ended := endsNotes_tickTracks s.setting s.stage b.ended
  placed h w hw := by
    have hlength := congrArg List.length (map_index_tickTracks s.setting s.tracks s.stage)
    rw [List.length_map, List.length_map] at hlength
    show w.track < (tickTracks s.setting s.tracks s.stage).1.length
    rw [hlength]
    rcases (evolves_tickTracks s.setting s.tracks s.stage).found hw with ⟨v, hv, hvw⟩ | ⟨-, mover⟩
    · exact hvw.track_eq ▸ b.placed h v hv
    · rw [b.index_eq] at mover
      exact List.mem_range.mp mover

theorem Booked.runTick (announce : Bool) (b : s.Booked) : (s.runTick announce).Booked := by
  obtain ⟨tracks, songLoops, notices, htracks, h⟩ := runTick_cases announce s
  have hsame : { s.tickAll with tracks, songLoops, notices }.Booked := by
    have bt := b.tickAll
    rcases htracks with rfl | rfl
    · exact ⟨bt.index_eq, bt.owns, bt.ended, bt.placed⟩
    · -- to go on from a loop point takes neither a note nor a voice
      refine ⟨by simpa [Function.comp_def] using bt.index_eq, ?_, ?_, by simpa using bt.placed⟩
      · intro u hu
        obtain ⟨t, ht, rfl⟩ := List.mem_map.mp hu
        exact (bt.owns t ht).congr (by simp) (by simp)
      · intro u hu finished
        obtain ⟨t, ht, rfl⟩ := List.mem_map.mp hu
        have same : t.restarted = t := by
          unfold Track.restarted
          rw [Track.restart?_eq_none_of_isFinished finished]
          rfl
        rw [same] at finished ⊢
        exact bt.ended t ht finished
  -- a song that ends has its voices cut, and their notes with them
  rcases h with h | h
  · exact h ▸ hsame
  · have cut := hsame.cutVoices
    rw [h]
    exact ⟨cut.index_eq, cut.owns, cut.ended, cut.placed⟩

/-- A frame moves voices on and takes out those that are done. What was agreed holds of the rest. -/
theorem Booked.soundFrame (b : s.Booked) : s.soundFrame.2.Booked := by
  have advanced : s.pool.Evolves (fun _ => False) (s.pool.advance s.bank) :=
    s.pool.evolves_mapVoices fun v => .of_sameNote (.advance s.bank v)
  obtain ⟨pool, envelopeFrames, h, hpool⟩ := soundFrame_snd s
  have ev : s.pool.Evolves (fun _ => False) pool := by
    rcases hpool with rfl | rfl
    · exact advanced
    · exact (advanced.trans (VoicePool.evolves_mapVoices _ .stepEnvelope)).trans
        (VoicePool.evolves_reapFinished _)
  have c := b.of_evolves ev
  rw [h]
  exact ⟨c.index_eq, c.owns, c.ended, c.placed⟩

theorem Booked.setTrackMuted (i : Nat) (muted : Bool) (b : s.Booked) :
    (s.setTrackMuted i muted).2.Booked := by
  have hindex := map_tracks_setTrackMuted s i muted Track.index fun _ _ => rfl
  unfold Sequencer.setTrackMuted at hindex ⊢
  split at hindex
  · next t ht =>
    have ev : s.pool.Evolves (fun _ => False) (s.pool.mapTrack t.index (·.setMuted muted)) :=
      s.pool.evolves_mapTrack t.index fun v => .of_sameNote (.setMuted v muted)
    have c := b.of_evolves ev
    -- the track that is muted keeps its number, its notes and its playhead
    have hmem : ∀ u ∈ s.tracks.set i { t with muted }, ∃ v ∈ s.tracks,
        u.index = v.index ∧ u.notes = v.notes ∧ u.head = v.head := by
      intro u hu
      rcases List.mem_or_eq_of_mem_set hu with hu | rfl
      · exact ⟨u, hu, rfl, rfl, rfl⟩
      · exact ⟨t, List.mem_of_getElem? ht, rfl, rfl, rfl⟩
    refine ⟨?_, ?_, ?_, by simpa [Track.setMuted] using c.placed⟩
    · simpa [Track.setMuted] using hindex.trans b.index_eq
    · intro u hu
      obtain ⟨v, hv, hi, hn, -⟩ := hmem u hu
      exact (c.owns v hv).congr hi (by rw [hn])
    · intro u hu finished
      obtain ⟨v, hv, -, hn, hh⟩ := hmem u hu
      rw [hn]
      exact c.ended v hv (by rw [Track.IsFinished, ← hh]; exact finished)
  · exact b

/-- Every move keeps the agreement. -/
theorem Booked.move (h : Move s s') (b : s.Booked) : s'.Booked := by
  cases h with
  | rewind => exact b.rewind
  | tick announce => exact b.runTick announce
  | cut => exact b.cutVoices
  | sound => exact b.soundFrame
  | mute i muted => exact b.setTrackMuted i muted
  | adjust => exact ⟨b.index_eq, b.owns, b.ended, b.placed⟩

/-- After any requests the tracks and the pool agree. -/
theorem booked_after (config : Config) (requests : List Request) :
    ((empty config).after requests).Booked := by
  refine invariant_after ?_ (fun s song _ => booked_withSong s song) Booked.move requests
  exact booked_of_silent rfl (by simp [empty]) (by simp [empty])

end Sequencer

/-! ## What agreement means

From the invariant to what can be observed: notes, handles and the keys in a snapshot. -/

namespace Track

variable {t : Track} {p : VoicePool}

/-- A note is held as long as its voice is in the pool and not released. -/
theorem isHeld_iff {n : Note} :
    n.IsHeld p ↔ ∃ v, p.get? n.handle = some v ∧ ¬ v.envelope.IsReleased := by
  unfold Note.IsHeld
  split
  · next v hv => simp [hv]
  · next none => simp [none]

/-- A handle that the track holds stands in one note alone. -/
theorem Owns.filter_handle (o : t.Owns p) {n : Note} (hn : n ∈ t.notes) :
    t.notes.filter (fun m => m.handle = n.handle) = [n] := by
  refine List.perm_singleton.mp ((List.perm_ext_iff_of_nodup ?_ (List.nodup_singleton n)).mpr ?_)
  · exact (List.Nodup.of_map _ o.nodup).filter _
  · intro m
    simp only [List.mem_filter, decide_eq_true_eq, List.mem_singleton]
    constructor
    · rintro ⟨hm, e⟩
      exact List.inj_on_of_nodup_map o.nodup hm hn e
    · rintro rfl
      exact ⟨hn, rfl⟩

/-- The keys that a track reports are those of its voices that wait for their release. -/
theorem Owns.soundingKeys_perm (o : t.Owns p) :
    (t.soundingKeys p).Perm
      ((p.voices.filter fun v => v.track = t.index ∧ ¬ v.envelope.IsReleased).map Voice.key) := by
  let waiting : Voice → Bool := fun v => v.track = t.index ∧ ¬ v.envelope.IsReleased
  -- both sides read the keys of the same handles
  have hhandles : ((t.notes.filter fun n => n.IsHeld p).map Note.handle).Perm
      (p.handles waiting) := by
    refine (List.perm_ext_iff_of_nodup ?_ (p.nodup_handles waiting)).mpr fun h => ?_
    · exact o.nodup.sublist (List.filter_sublist.map _)
    · rw [VoicePool.mem_handles, List.mem_map]
      constructor
      · rintro ⟨n, hn, rfl⟩
        obtain ⟨hn, hheld⟩ := List.mem_filter.mp hn
        obtain ⟨v, hv, hr⟩ := isHeld_iff.mp (of_decide_eq_true hheld)
        exact ⟨v, hv, decide_eq_true ⟨(o.fits n hn v hv).1, hr⟩⟩
      · rintro ⟨v, hv, hw⟩
        obtain ⟨ht, hr⟩ := of_decide_eq_true hw
        obtain ⟨n, hn, rfl⟩ := List.mem_map.mp (o.held h v hv ht hr)
        exact ⟨n, List.mem_filter.mpr ⟨hn, decide_eq_true (isHeld_iff.mpr ⟨v, hv, hr⟩)⟩, rfl⟩
  have hnotes : t.soundingKeys p =
      ((t.notes.filter fun n => n.IsHeld p).map Note.handle).filterMap
        (fun h => (p.get? h).map Voice.key) := by
    unfold soundingKeys
    rw [List.filterMap_map, ← List.filterMap_eq_map]
    refine List.filterMap_congr fun n hn => ?_
    obtain ⟨hn, hheld⟩ := List.mem_filter.mp hn
    obtain ⟨v, hv, -⟩ := isHeld_iff.mp (of_decide_eq_true hheld)
    simp [hv, (o.fits n hn v hv).2]
  have hvoices : (p.voices.filter waiting).map Voice.key =
      (p.handles waiting).filterMap (fun h => (p.get? h).map Voice.key) := by
    rw [← p.filterMap_get?_handles waiting, List.map_filterMap]
  rw [hnotes]
  exact (hhandles.filterMap _).trans (List.Perm.of_eq hvoices.symm)

end Track

namespace Sequencer

variable {s : Sequencer} {slot i j a a' : Nat} {x : HeldVoice} {t u : Track} {n m : Note}

theorem Booked.index_of_getElem? (b : s.Booked) (ht : s.tracks[i]? = some t) : t.index = i := by
  have h := congrArg (·[i]?) b.index_eq
  obtain ⟨hi, rfl⟩ := List.getElem?_eq_some_iff.mp ht
  simpa [hi] using h

/-- A voice that waits for its release stands in one note of its own track, under its own key. -/
theorem Booked.exists_note (b : s.Booked) (hslot : s.pool.slots[slot]? = some (some x))
    (hr : ¬ x.voice.envelope.IsReleased) :
    ∃ (t : Track) (n : Note), s.tracks[x.voice.track]? = some t ∧
      t.notes.filter (fun m => m.handle = ⟨slot, x.serial⟩) = [n] ∧ n.key = x.voice.key := by
  have hv : s.pool.get? ⟨slot, x.serial⟩ = some x.voice := VoicePool.get?_eq_some_iff.mpr hslot
  obtain ⟨t, ht⟩ : ∃ t, s.tracks[x.voice.track]? = some t :=
    ⟨_, List.getElem?_eq_getElem (b.placed _ _ hv)⟩
  have o := b.owns t (List.mem_of_getElem? ht)
  obtain ⟨n, hn, hh⟩ := List.mem_map.mp (o.held _ _ hv (b.index_of_getElem? ht).symm hr)
  refine ⟨t, n, ht, ?_, ?_⟩
  · rw [← hh]
    exact o.filter_handle hn
  · rw [← hh] at hv
    exact ((o.fits n hn _ hv).2).symm

/-- A live handle says which track holds it, and stands there only once. -/
theorem Booked.handle_inj (b : s.Booked) (ht : s.tracks[i]? = some t) (hu : s.tracks[j]? = some u)
    (hn : t.notes[a]? = some n) (hm : u.notes[a']? = some m) (same : n.handle = m.handle)
    (live : (s.pool.get? n.handle).isSome) : i = j ∧ a = a' := by
  obtain ⟨v, hv⟩ := Option.isSome_iff_exists.mp live
  have o := b.owns t (List.mem_of_getElem? ht)
  have hi : v.track = t.index := (o.fits n (List.mem_of_getElem? hn) v hv).1
  have hj : v.track = u.index :=
    ((b.owns u (List.mem_of_getElem? hu)).fits m (List.mem_of_getElem? hm) v (same ▸ hv)).1
  have hij : i = j := by
    rw [← b.index_of_getElem? ht, ← b.index_of_getElem? hu, ← hi, ← hj]
  subst hij
  rw [ht] at hu
  cases hu
  have ha : a < (t.notes.map Note.handle).length := by
    rw [List.length_map]
    exact (List.getElem?_eq_some_iff.mp hn).1
  refine ⟨rfl, (List.getElem?_inj ha o.nodup).mp ?_⟩
  rw [List.getElem?_map, List.getElem?_map, hn, hm, Option.map_some, Option.map_some, same]

/-- No hung and no lost notes. After any requests, every unreleased voice is in exactly one note of
its own track, under its own key; no live handle is held twice; a snapshot shows for each track the
keys of its unreleased voices; and a track that is over has none. -/
theorem notes_match_voices (config : Config) (requests : List Request) :
    let s := (empty config).after requests
    (∀ (slot : Nat) (x : HeldVoice), s.pool.slots[slot]? = some (some x) →
      ¬ x.voice.envelope.IsReleased →
      ∃ (t : Track) (n : Note), s.tracks[x.voice.track]? = some t ∧
        t.notes.filter (fun m => m.handle = ⟨slot, x.serial⟩) = [n] ∧ n.key = x.voice.key) ∧
    (∀ (i j a b : Nat) (t u : Track) (n m : Note), s.tracks[i]? = some t → s.tracks[j]? = some u →
      t.notes[a]? = some n → u.notes[b]? = some m → n.handle = m.handle →
      (s.pool.get? n.handle).isSome → i = j ∧ a = b) ∧
    (∀ (i : Nat) (shown : TrackSnapshot), s.snapshot.tracks[i]? = some shown →
      shown.keys.Perm
        ((s.pool.voices.filter fun v => v.track = i ∧ ¬ v.envelope.IsReleased).map Voice.key) ∧
      (shown.progress = .finished →
        ∀ v ∈ s.pool.voices, v.track = i → v.envelope.IsReleased)) := by
  intro s
  have booked : s.Booked := booked_after config requests
  refine ⟨?_, ?_, ?_⟩
  · intro slot x hslot hr
    exact booked.exists_note hslot hr
  · intro i j a b t u n m ht hu hn hm same live
    exact booked.handle_inj ht hu hn hm same live
  · intro i shown hshown
    rw [snapshot, List.getElem?_map, Option.map_eq_some_iff] at hshown
    obtain ⟨t, ht, rfl⟩ := hshown
    have perm := (booked.owns t (List.mem_of_getElem? ht)).soundingKeys_perm
    rw [booked.index_of_getElem? ht] at perm
    refine ⟨perm, fun finished v hv hvt => ?_⟩
    -- a track that is over shows no keys, so none of its voices can be waiting
    by_contra hr
    have nokeys : t.soundingKeys s.pool = [] := by
      simp [Track.soundingKeys, booked.ended t (List.mem_of_getElem? ht) finished]
    rw [nokeys, List.nil_perm, List.map_eq_nil_iff, List.filter_eq_nil_iff] at perm
    exact perm v hv (by simp [hvt, hr])

end Sequencer
end Chiptune
