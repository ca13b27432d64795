import Chiptune.Proofs.Sequencer.Score

/-!
# Playing a song from its start

A song that plays never gets stuck between two ticks. Its tempo is at least one, so every frame
adds to the account, and what is missing for the next tick shrinks from frame to frame
(`Sequencer.exists_frames_tick`). As long as the score goes on, playing long enough therefore
reaches each of its ticks (`Sequencer.exists_isPlayedTick`), and the sequencer found there has the
score of that many ticks.
-/

namespace Chiptune

/-! ## How far a score goes

A score alone, tick by tick. It goes on until a tick ends it, and then it stays where it is. -/

namespace Score

variable {c : Score}

theorem one_le_foldl_tempoAfter (effects : List Effect) {tempo : Nat} (h : 1 ≤ tempo) :
    1 ≤ effects.foldl Effect.tempoAfter tempo := by
  induction effects generalizing tempo with
  | nil => exact h
  | cons e effects ih =>
    refine ih ?_
    unfold Effect.tempoAfter
    split
    · exact Nat.le_max_left _ _
    · exact h

/-- The tempo never falls to zero, because no effect can set it to that. -/
theorem one_le_tempo_iterate (h : 1 ≤ c.tempo) (n : Nat) : 1 ≤ (next^[n] c).tempo := by
  induction n with
  | zero => exact h
  | succ n ih =>
    rw [Function.iterate_succ_apply', next]
    split
    · rw [tempo_pass]
      exact one_le_foldl_tempoAfter _ ih
    · exact ih

/-- A song that plays goes on playing until it is stopped. Ticks never pause it. -/
theorem transport_iterate (h : c.transport = .playing) (n : Nat) :
    (next^[n] c).transport = .playing ∨ (next^[n] c).transport = .stopped := by
  induction n with
  | zero => exact Or.inl h
  | succ n ih =>
    rw [Function.iterate_succ_apply', next]
    split
    · next playing =>
      have := transport_pass (next^[n] c)
      rw [playing] at this
      exact this.imp_right And.left
    · exact ih

/-- As long as the score goes on, every step is a tick. -/
theorem tick_iterate {n : Nat} (going : ∀ i < n, (next^[i] c).transport = .playing) :
    (next^[n] c).tick = c.tick + n := by
  induction n with
  | zero => rfl
  | succ n ih =>
    have before := ih fun i hi => going i (Nat.lt_succ_of_lt hi)
    rw [Function.iterate_succ_apply', next_of_playing (going n (Nat.lt_succ_self n)), tick_pass,
      before, Nat.add_assoc]

/-- A score that may pass `n` ticks passes the first `k` of them, and all of them unless it is
over by then. -/
theorem exists_iterate_eq (c : Score) (n : Nat) :
    ∃ k ≤ n, next^[n] c = next^[k] c ∧ (∀ i < k, (next^[i] c).transport = .playing) ∧
      (k < n → (next^[k] c).transport ≠ .playing) := by
  induction n with
  | zero => exact ⟨0, Nat.le_refl 0, rfl, by simp, by simp⟩
  | succ n ih =>
    obtain ⟨k, hk, heq, going, halted⟩ := ih
    by_cases playing : (next^[k] c).transport = .playing
    · -- the score plays on, so no step has been lost yet and the next one is a tick
      have hkn : k = n := by
        by_contra hne
        exact halted (Nat.lt_of_le_of_ne hk hne) playing
      subst hkn
      refine ⟨k + 1, Nat.le_refl _, rfl, fun i hi => ?_, fun h => absurd h (Nat.lt_irrefl _)⟩
      rcases Nat.lt_succ_iff_lt_or_eq.mp hi with h | rfl
      · exact going i h
      · exact playing
    · refine ⟨k, Nat.le_succ_of_le hk, ?_, going, fun _ => playing⟩
      rw [Function.iterate_succ_apply', heq, next_of_not_playing playing]

/-- Where there is a tick, the score was going on until then. -/
theorem Passes.playing_of_getElem? {c' : Score} {ticks : List Sequencer} {q : Sequencer}
    (h : Passes c ticks c') {i : Nat} (hq : ticks[i]? = some q) {j : Nat} (hj : j ≤ i) :
    (next^[j] c).transport = .playing := by
  induction h generalizing i j with
  | nil => cases hq
  | @cons t announce _ _ playing _ ih =>
    cases j with
    | zero => exact playing
    | succ j =>
      rw [Function.iterate_succ_apply, next_score playing announce]
      cases i with
      | zero => exact absurd hj (Nat.not_succ_le_zero j)
      | succ i => exact ih hq (Nat.le_of_succ_le_succ hj)

end Score

namespace Sequencer

variable {s q : Sequencer} {config : Config} {song : Song}

/-! ## The start of a song

To play a song from its start is the measure for other ways to get to a tick. -/

/-- Whatever was played before, the score at the start of a song is the one of the song. -/
theorem score_rewind_playing (h : s.fixture = .ofSong config song) :
    ({ s.rewind with transport := .playing } : Sequencer).score = .atStart config song := by
  have hsources : s.tracks.map Track.source = song.sources := map_source_of_fixture h
  have hdriver : s.driver = song.driver := congrArg Fixture.driver h
  have hconfig : s.config = config.withSampleRate config.sampleRate := congrArg Fixture.config h
  have htempo : s.initialTempo = max 1 song.initialTempo := congrArg Fixture.initialTempo h
  have hparts : (s.tracks.map (Track.reset s.driver)).map Track.part =
      song.sources.map fun source => ⟨source, .atStart song.driver source.start⟩ := by
    rw [← hsources, ← hdriver, List.map_map, List.map_map]
    rfl
  show Score.mk s.driver s.config.commandLimit s.config.loopLimit
    ((s.tracks.map (Track.reset s.driver)).map Track.part) s.initialTempo 0 0 .playing = _
  rw [hparts, hdriver, hconfig, htempo]
  rfl

/-- A new sequencer that plays a song from its start. -/
def playing (config : Config) (song : Song) : Sequencer :=
  (empty config).after [.load song, .play]

/-- `q` is the sequencer right after tick number `r` of a song that is played from its start, or
the start itself for number 0. -/
def IsPlayedTick (config : Config) (song : Song) (r : Nat) (q : Sequencer) : Prop :=
  ∃ frames, (playing config song :: (playing config song).ticksInFrames frames)[r]? = some q

theorem rewind_rewind (s : Sequencer) : s.rewind.rewind = s.rewind := by
  have htracks : (s.tracks.map (Track.reset s.driver)).map (Track.reset s.driver) =
      s.tracks.map (Track.reset s.driver) := by
    rw [List.map_map]
    rfl
  have hpool : s.pool.killAll.killAll = s.pool.killAll := by
    simp [VoicePool.killAll]
  simp only [rewind, htracks, hpool]

/-- What it means to load a song and to play it, in one state. -/
theorem playing_eq (config : Config) (playable : song.IsPlayable) :
    playing config song =
      { ((empty config).withSong song).rewind with
        account := ((empty config).withSong song).tickPrice
        transport := .playing } := by
  have htracks : ((empty config).withSong song).tracks ≠ [] := by
    simpa [withSong, rewind] using playable.1
  have hrewind : ((empty config).withSong song).rewind = (empty config).withSong song :=
    rewind_rewind _
  rw [playing, after_cons, answer_load, if_pos playable, after_cons, after_nil, answer, play]
  show (if ((empty config).withSong song).tracks = [] then (empty config).withSong song else _) = _
  rw [if_neg htracks, hrewind]
  split <;> rfl

theorem fixture_playing (config : Config) (playable : song.IsPlayable) :
    (playing config song).fixture = .ofSong config song := by
  refine fixture_after config ?_
  simp [loadedSong?, List.findSome?, Request.song?, playable]

/-- The score of a song that plays from its start is the one that it begins with. -/
theorem score_playing (config : Config) (playable : song.IsPlayable) :
    (playing config song).score = .atStart config song := by
  rw [playing_eq config playable]
  exact score_rewind_playing (fixture_withSong song rfl)

/-! ## The next tick comes

The account grows by at least one with each frame, and so the price of a tick is there in the end.
-/

theorem ticksInFrames_add (m n : Nat) (s : Sequencer) :
    s.ticksInFrames (m + n) =
      s.ticksInFrames m ++ ((fun s : Sequencer => s.nextFrame.2)^[m] s).ticksInFrames n := by
  induction m generalizing s with
  | zero => rw [Nat.zero_add]; rfl
  | succ m ih =>
    rw [Nat.succ_add, ticksInFrames, ih, ticksInFrames, List.append_assoc,
      Function.iterate_succ_apply]

/-- A frame without a tick adds to the account. -/
theorem nextFrame_of_not_due (playing : s.transport = .playing) (early : s.account < s.tickPrice) :
    s.nextFrame.2 = s.soundFrame.2 := by
  have none : s.passDueTicks = s := by rw [passDueTicks, Nat.div_eq_of_lt early, passTicks]
  rw [nextFrame, if_pos playing, none, if_pos playing]

theorem one_le_ticksPerQuarter (driver : SoundDriver) : 1 ≤ driver.profile.ticksPerQuarter := by
  cases driver <;> decide

/-- A song that plays ticks again. -/
theorem exists_frames_tick (playing : s.transport = .playing) (rate : 1 ≤ s.config.sampleRate)
    (tempo : 1 ≤ s.tempo) : ∃ frames, s.ticksInFrames frames ≠ [] := by
  -- what is missing for the next tick shrinks with every frame
  induction missing : s.tickPrice - s.account using Nat.strongRecOn generalizing s with
  | _ n ih =>
    have price : 0 < s.tickPrice := Nat.mul_pos rate (by decide)
    by_cases due : s.tickPrice ≤ s.account
    · refine ⟨1, ?_⟩
      obtain ⟨k, hk⟩ := Nat.exists_eq_succ_of_ne_zero (Nat.ne_of_gt (Nat.div_pos due price))
      rw [ticksInFrames, ticksInFrame, if_pos playing, hk, ticksInPass]
      simp
    · have early : s.account < s.tickPrice := Nat.lt_of_not_le due
      obtain ⟨pool, envelopeFrames, hsound, -⟩ := soundFrame_snd s
      have hnext := (nextFrame_of_not_due playing early).trans hsound
      have income : 1 ≤ s.frameIncome := Nat.mul_pos tempo (one_le_ticksPerQuarter s.driver)
      have less : s.tickPrice - (s.account + s.frameIncome) < n := by omega
      obtain ⟨frames, h⟩ := ih _ less (s := s.nextFrame.2) (by rw [hnext]; exact playing)
        (by rw [hnext]; exact rate) (by rw [hnext]; exact tempo) (by rw [hnext]; rfl)
      refine ⟨frames + 1, ?_⟩
      rw [ticksInFrames]
      exact List.append_ne_nil_of_right_ne_nil _ h

/-! ## Every tick of the score is played

By induction on the number of the tick: behind each tick that does not end the song there is a next
one. -/

/-- Tick number `r` of a song that is played has the score of `r` ticks. -/
theorem IsPlayedTick.score_eq (playable : song.IsPlayable) {r : Nat}
    (h : IsPlayedTick config song r q) : q.score = Score.next^[r] (.atStart config song) := by
  obtain ⟨frames, h⟩ := h
  have passes := passes_frames frames (playing config song)
  rw [score_playing config playable] at passes
  cases r with
  | zero =>
    cases h
    exact score_playing config playable
  | succ r => exact passes.score_getElem? h

/-- A tick that was played was not behind the end of the song. -/
theorem IsPlayedTick.going (playable : song.IsPlayable) {r i : Nat}
    (h : IsPlayedTick config song r q) (hi : i < r) :
    (Score.next^[i] (.atStart config song)).transport = .playing := by
  obtain ⟨frames, h⟩ := h
  have passes := passes_frames frames (playing config song)
  rw [score_playing config playable] at passes
  cases r with
  | zero => exact absurd hi (Nat.not_lt_zero i)
  | succ r => exact passes.playing_of_getElem? h (Nat.le_of_lt_succ hi)

/-- If the score goes on for `r` ticks, then enough frames pass as many. -/
theorem exists_le_length_ticksInFrames (playable : song.IsPlayable) {r : Nat}
    (going : ∀ i < r, (Score.next^[i] (.atStart config song)).transport = .playing) :
    ∃ frames, r ≤ ((playing config song).ticksInFrames frames).length := by
  induction r with
  | zero => exact ⟨0, Nat.zero_le _⟩
  | succ r ih =>
    obtain ⟨frames, h⟩ := ih fun i hi => going i (Nat.lt_succ_of_lt hi)
    rcases Nat.lt_or_eq_of_le h with h | h
    · exact ⟨frames, h⟩
    · -- the sequencer after these frames has passed `r` ticks, and plays on
      let p := (fun s : Sequencer => s.nextFrame.2)^[frames] (playing config song)
      have hscore : p.score = Score.next^[r] (.atStart config song) := by
        rw [(passes_frames frames (playing config song)).eq_iterate,
          score_playing config playable, h]
      have hconfig : p.config = config.withSampleRate config.sampleRate :=
        congrArg Fixture.config
          ((fixture_of_moves (moves_frames frames _)).trans (fixture_playing config playable))
      obtain ⟨more, hmore⟩ := exists_frames_tick (s := p)
        ((congrArg Score.transport hscore).trans (going r (Nat.lt_succ_self r)))
        (by rw [hconfig]; exact Nat.le_max_left _ _)
        (by
          rw [show p.tempo = _ from congrArg Score.tempo hscore]
          exact Score.one_le_tempo_iterate (Nat.le_max_left _ _) r)
      refine ⟨frames + more, ?_⟩
      rw [ticksInFrames_add, List.length_append, ← h]
      exact Nat.add_le_add_left (List.length_pos_iff.mpr hmore) r

/-- As long as the song goes on, playing it long enough reaches the tick. -/
theorem exists_isPlayedTick (playable : song.IsPlayable) {r : Nat}
    (going : ∀ i < r, (Score.next^[i] (.atStart config song)).transport = .playing) :
    ∃ q, IsPlayedTick config song r q := by
  obtain ⟨frames, h⟩ := exists_le_length_ticksInFrames playable going
  exact ⟨_, frames, List.getElem?_eq_getElem (by rw [List.length_cons]; omega)⟩

end Sequencer
end Chiptune
