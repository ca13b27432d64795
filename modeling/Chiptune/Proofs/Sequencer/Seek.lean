import Chiptune.Proofs.Sequencer.Playback

/-!
# Seeking is playing

To seek is to rewind and to pass ticks without sound, and with all voices cut after every one of
them. Since a tick does to the score what the score does by itself, this leads where a song leads
that is played from its start, whatever was played before (`Sequencer.seek_eq_playback`).
-/

namespace Chiptune

/-- A song that rests for two ticks and is over with the third. -/
def Song.twoRests : Song := { driver := .m4a, sources := [.ofBytes ⟨#[0x82, 0xB1]⟩] }

namespace Sequencer

variable {q : Sequencer} {config : Config} {song : Song}

/-- The song is over after tick number `r`. -/
def EndsAt (config : Config) (song : Song) (r : Nat) : Prop :=
  ∃ q, IsPlayedTick config song r q ∧ q.transport = .stopped

theorem score_sought {s : Sequencer} (target : Nat) (h : s.fixture = .ofSong config song) :
    (s.sought target).score =
      Score.next^[min target config.maxSeekTicks] (.atStart config song) := by
  have hconfig : s.config = config.withSampleRate config.sampleRate := congrArg Fixture.config h
  rw [sought, score_replay, score_rewind_playing h, hconfig]
  rfl

/-- To seek passes the ticks that were asked for, or those up to the end of the song. -/
theorem exists_score_sought {s : Sequencer} (target : Nat) (h : s.fixture = .ofSong config song) :
    ∃ k ≤ min target config.maxSeekTicks,
      (s.sought target).score = Score.next^[k] (.atStart config song) ∧
      (s.sought target).tick = k ∧
      (∀ i < k, (Score.next^[i] (.atStart config song)).transport = .playing) ∧
      (k < min target config.maxSeekTicks →
        (Score.next^[k] (.atStart config song)).transport = .stopped) := by
  obtain ⟨k, hk, heq, going, halted⟩ :=
    Score.exists_iterate_eq (.atStart config song) (min target config.maxSeekTicks)
  have hscore := (score_sought target h).trans heq
  refine ⟨k, hk, hscore, ?_, going, fun hlt => ?_⟩
  · rw [show (s.sought target).tick = _ from congrArg Score.tick hscore, Score.tick_iterate going]
    exact Nat.zero_add k
  · exact (Score.transport_iterate rfl k).resolve_left (halted hlt)

/-- To seek agrees with playing. Whatever happened before, the tick that `seek` reaches is a tick of
the song as it is played from its start, and tempo, loops and all playheads are what they are right
after that tick. It is the tick that was asked for, or the last one that may be sought, unless the
song ends before; then it is the tick that ends the song, and the sequencer stops. -/
theorem seek_eq_playback (config : Config) {requests : List Request}
    (loaded : loadedSong? requests = some song) (target : Nat) :
    let s := ((empty config).after requests).seek target
    let goal := min target config.maxSeekTicks
    (∃ q, IsPlayedTick config song s.tick q) ∧
    (∀ q, IsPlayedTick config song s.tick q →
      q.tick = s.tick ∧ q.tempo = s.tempo ∧ q.songLoops = s.songLoops ∧
        q.tracks.map Track.head = s.tracks.map Track.head) ∧
    ((∀ e < goal, ¬ EndsAt config song e) → s.tick = goal) ∧
    (∀ e ≤ goal, EndsAt config song e → s.tick = e ∧ s.transport = .stopped) := by
  intro s goal
  have playable := isPlayable_of_loadedSong? loaded
  obtain ⟨k, hk, hscore, htick, going, stopped⟩ :=
    exists_score_sought target (fixture_after config loaded)
  rw [show s = _ from seek_eq target _]
  generalize ((empty config).after requests).sought target = p at hscore htick ⊢
  generalize ((empty config).after requests).transport = before
  refine ⟨?_, ?_, ?_, ?_⟩
  · rw [show _ = k from htick]
    exact exists_isPlayedTick playable going
  · intro q hq
    rw [show _ = k from htick] at hq
    have h : q.score = p.score := (hq.score_eq playable).trans hscore.symm
    refine ⟨congrArg Score.tick h, congrArg Score.tempo h, congrArg Score.songLoops h, ?_⟩
    show _ = p.tracks.map Track.head
    rw [← map_head_parts, ← map_head_parts, h]
  · intro endless
    rw [show _ = k from htick]
    by_contra hne
    have hlt : k < goal := Nat.lt_of_le_of_ne hk hne
    obtain ⟨q, hq⟩ := exists_isPlayedTick playable going
    refine endless k hlt ⟨q, hq, ?_⟩
    exact (congrArg Score.transport (hq.score_eq playable)).trans (stopped hlt)
  · rintro e he ⟨q, hq, hend⟩
    have hend : (Score.next^[e] (.atStart config song)).transport = .stopped := by
      rw [← hq.score_eq playable]
      exact hend
    -- the score plays on before tick `k` and before tick `e`, and rests after each of them
    have hke : k = e := by
      rcases Nat.lt_trichotomy k e with h | h | h
      · have := hq.going playable h
        rw [stopped (Nat.lt_of_lt_of_le h he)] at this
        cases this
      · exact h
      · have := going e h
        rw [hend] at this
        cases this
    subst hke
    have hp : p.transport = .stopped := (congrArg Score.transport hscore).trans hend
    refine ⟨htick, ?_⟩
    simp [hp]

theorem seek_eq_playback_twoRests :
    let s := ((empty {}).after [.load .twoRests, .play, .setTrackMuted 0 true]).seek 9
    s.tick = 3 ∧ s.transport = .stopped ∧ ∃ q, IsPlayedTick {} .twoRests 3 q := by
  intro s
  have htick : s.tick = 3 := by decide +kernel
  obtain ⟨hplayed, -⟩ := seek_eq_playback {}
    (show loadedSong? [.load .twoRests, .play, .setTrackMuted 0 true] = some .twoRests from rfl) 9
  rw [show Sequencer.tick _ = 3 from htick] at hplayed
  exact ⟨htick, by decide +kernel, hplayed⟩

end Sequencer
end Chiptune
