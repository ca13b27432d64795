import Chiptune.Proofs.Sequencer.Isolation
import Chiptune.Proofs.Sequencer.Notices
import Chiptune.Proofs.Sequencer.Seek

/-!
# Loops in the ticks that a seek skips

The ticks that `seek` passes are not announced, so it says nothing of a song that goes round by
jumping back. A song that goes round by its loop points is another matter: `wrapOrEnd` tells of it
in any case. The loops that a seek tells of are these and no others (`Sequencer.loops_in_seek`), and
so they occur in songs of DSE alone.
-/

namespace Chiptune

/-- A song that names its start as loop point, rests for two ticks and is over with the third. -/
def Song.loopedRest : Song :=
  { driver := .dse, sources := [.ofBytes ⟨#[0x99, 0x92, 0x02, 0x98]⟩] }

/-- The song has gone round. -/
def Notification.IsLoop : Notification → Prop
  | loopWrapped _ => True
  | _ => False

instance : DecidablePred Notification.IsLoop
  | .loopWrapped _ => .isTrue trivial
  | .songEnded | .trackFailed _ _ | .resourceMissing _ _ => .isFalse id

/-- The loops among some notifications. -/
def loopsOf (l : List Notification) : List Notification := l.filter fun n => n.IsLoop

theorem loopsOf_append (l m : List Notification) : loopsOf (l ++ m) = loopsOf l ++ loopsOf m :=
  List.filter_append l m

namespace Score

variable {c : Score}

instance (c : Score) : Decidable c.GoesBack := inferInstanceAs (Decidable (_ ∧ _))

/-! ## The loop of one tick

What a tick says of loops is decided by the score before it. Not announced, a loop by jumps is not
told, and a loop by loop points is. -/

/-- The loop that is completed by the next tick, if this is one that goes back to loop points. -/
def wrap? (c : Score) : Option Notification :=
  if c.transport = .playing ∧ c.GoesBack then some (.loopWrapped (c.songLoops + 1)) else none

/-- Word of the end is no word of a loop. -/
theorem loopsOf_limitNotices (c : Score) : loopsOf c.limitNotices = [] := by
  unfold limitNotices
  split
  · split <;> rfl
  · rfl

theorem wrap?_of_goesBack (playing : c.transport = .playing) (back : c.GoesBack) :
    c.wrap? = some (.loopWrapped (c.songLoops + 1)) := if_pos ⟨playing, back⟩

theorem wrap?_of_not_goesBack (straight : ¬ c.GoesBack) : c.wrap? = none :=
  if_neg fun h => straight h.2

/-- A tick that is not announced tells of a loop exactly if it goes back to loop points. -/
theorem loopsOf_turnNotices (playing : c.transport = .playing) :
    loopsOf (c.turnNotices false) = c.wrap?.toList := by
  unfold turnNotices notices
  by_cases finished : c.tickAll.AllFinished
  · rw [if_pos finished]
    by_cases back : ∃ p ∈ c.tickAll.parts, p.head.restart?.isSome
    · rw [if_pos (by simpa using back), wrap?_of_goesBack playing ⟨finished, back⟩]
      show .loopWrapped (c.songLoops + 1) :: loopsOf (limitNotices _) = _
      rw [loopsOf_limitNotices]
      rfl
    · rw [if_neg (by simpa using back), wrap?_of_not_goesBack fun h => back h.2]
      rfl
  · rw [if_neg finished, wrap?_of_not_goesBack fun h => finished h.1]
    by_cases same : c.tickAll.commonLoops ≤ c.tickAll.songLoops
    · rw [if_pos same]
      rfl
    · rw [if_neg same, if_neg Bool.false_ne_true, List.nil_append, loopsOf_limitNotices]
      rfl

theorem driver_iterate (c : Score) (n : Nat) : (next^[n] c).driver = c.driver := by
  induction n with
  | zero => rfl
  | succ n ih =>
    rw [Function.iterate_succ_apply', next]
    split
    · obtain ⟨_, _, _, hpass, -, -⟩ := pass_cases (next^[n] c)
      rw [hpass]
      exact ih
    · exact ih

/-- A score that is where its streams lead it stays so, or has gone back. -/
theorem straight_iterate (h : c.Straight) (n : Nat) : (next^[n] c).Straight := by
  induction n with
  | zero => exact h
  | succ n ih =>
    rw [Function.iterate_succ_apply', next]
    split
    · exact ih.pass
    · exact ih

end Score

namespace Sequencer

variable {s : Sequencer} {config : Config} {requests : List Request} {song : Song}

/-! ## The loops of a seek

By induction on the ticks of the replay, with the score as what is handed on. -/

/-- Of loops nobody tells but the song itself. -/
theorem loopsOf_noticesInTick (announce : Bool) (s : Sequencer) :
    loopsOf (s.noticesInTick announce) = loopsOf (s.score.turnNotices announce) := by
  have htracks : loopsOf (s.tracks.flatMap (Track.noticesInTick s.setting)) = [] := by
    apply List.filter_eq_nil_iff.mpr
    intro n hn loop
    obtain ⟨t, -, hn⟩ := List.mem_flatMap.mp hn
    have hturn := Track.not_isTurn_of_mem hn
    cases n with
    | loopWrapped loops => exact hturn trivial
    | _ => cases of_decide_eq_true loop
  rw [noticesInTick, loopsOf_append, htracks, List.nil_append]

/-- What a replay tells of loops can be read off the score, tick by tick. -/
theorem loopsOf_noticesInReplay (ticks : Nat) (s : Sequencer) :
    loopsOf (s.noticesInReplay ticks) =
      (List.range ticks).filterMap fun k => (Score.next^[k] s.score).wrap? := by
  induction ticks generalizing s with
  | zero => rfl
  | succ ticks ih =>
    rw [noticesInReplay]
    split
    · next playing =>
      have hnext : (s.runTick false).cutVoices.score = s.score.next := by
        rw [score_cutVoices, Score.next_score playing]
      have htick : loopsOf (s.noticesInTick false) = s.score.wrap?.toList :=
        (loopsOf_noticesInTick false s).trans (Score.loopsOf_turnNotices playing)
      rw [loopsOf_append, htick, ih, hnext, List.range_succ_eq_map]
      simp only [List.filterMap_cons, List.filterMap_map, Function.comp_def,
        Function.iterate_succ_apply, Function.iterate_zero, id_eq]
      cases s.score.wrap? <;> rfl
    · next halted =>
      -- nothing is told any more, and the score does not move on either
      have hover : s.score.transport ≠ .playing := halted
      symm
      apply List.filterMap_eq_nil_iff.mpr
      intro k _
      rw [Function.iterate_fixed (Score.next_of_not_playing hover), Score.wrap?,
        if_neg fun h => hover h.1]

/-- What a seek tells the host of loops. Whatever was played before, the loops that it tells of are
those in which the song, on its way from the start to the target, goes back to loop points. Loops
by jumps are passed over in silence, and in songs of other drivers than DSE there are no others. -/
theorem loops_in_seek (config : Config) (loaded : loadedSong? requests = some song)
    (target : Nat) :
    let s := (empty config).after requests
    let told := s.noticesIn (.seek target)
    (s.seek target).notices = s.notices.pushAll told ∧
    loopsOf told = (List.range (min target config.maxSeekTicks)).filterMap (fun k =>
      (Score.next^[k] (.atStart config song)).wrap?) ∧
    (song.driver ≠ .dse → ∀ n ∈ told, ¬ n.IsLoop) := by
  intro s told
  have hfixture : s.fixture = .ofSong config song := fixture_after config loaded
  have hmax : s.config.maxSeekTicks = config.maxSeekTicks :=
    congrArg (fun f : Fixture => f.config.maxSeekTicks) hfixture
  have hloops : loopsOf told = (List.range (min target config.maxSeekTicks)).filterMap
      fun k => (Score.next^[k] (.atStart config song)).wrap? := by
    show loopsOf (noticesInReplay _ _) = _
    rw [loopsOf_noticesInReplay, score_rewind_playing hfixture, hmax]
  refine ⟨notices_answer (r := .seek target) id, hloops, ?_⟩
  -- without loop points no tick goes back, so none is left in the list
  intro hdriver n hn loop
  have hmem : n ∈ loopsOf told := List.mem_filter.mpr ⟨hn, decide_eq_true loop⟩
  rw [hloops] at hmem
  obtain ⟨k, -, hwrap⟩ := List.mem_filterMap.mp hmem
  have straight : (Score.next^[k] (.atStart config song)).Straight := by
    apply Score.straight_iterate
    rw [← score_rewind_playing hfixture]
    exact straight_rewind s
  have hsame : (Score.next^[k] (.atStart config song)).driver = song.driver :=
    Score.driver_iterate _ k
  rw [Score.wrap?_of_not_goesBack (straight.not_goesBack (hsame ▸ hdriver))] at hwrap
  cases hwrap

theorem loops_in_seek_loopedRest :
    let s := (empty {}).after [.load .loopedRest, .play, .render 3000]
    loopsOf (s.noticesIn (.seek 7)) = [.loopWrapped 1, .loopWrapped 2] := by
  intro s
  have loaded : loadedSong? [.load .loopedRest, .play, .render 3000] = some .loopedRest := rfl
  exact (loops_in_seek {} loaded 7).2.1.trans (by decide +kernel)

/-- A seek is not silent about loops. -/
theorem loopedRest_is_told :
    let s := (empty {}).after [.load .loopedRest]
    s.notices.waiting = [] ∧ (s.seek 7).notices.waiting = [.loopWrapped 1, .loopWrapped 2] := by
  decide +kernel

end Sequencer
end Chiptune
