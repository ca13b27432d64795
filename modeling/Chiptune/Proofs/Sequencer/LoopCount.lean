import Chiptune.Proofs.Sequencer.Course
import Chiptune.Proofs.Sequencer.LoopsInSeek

/-!
# Counting the loops of a song

A song goes round in two ways, and both are counted in `songLoops`. Streams that jump back count for
themselves, and the song follows the one that is behind all others. A song that goes back to its
loop points counts one loop more, and so does each track that goes on from there. In DSE, where loop
points are, nothing else counts, so all tracks that go on agree with the song (`Score.Tallied`) and
the next tick does not count the same loop again.

The main statement, `Sequencer.loops_add_up`, is about the ticks of a run between which the song is
not taken back to its start.
-/

namespace Chiptune

/-- The number of loops that a notification reports. -/
def Notification.loops? : Notification → Option Nat
  | loopWrapped loops => some loops
  | _ => none

theorem filterMap_loops?_loopsOf (l : List Notification) :
    (loopsOf l).filterMap Notification.loops? = l.filterMap Notification.loops? := by
  rw [loopsOf, List.filterMap_filter]
  refine List.filterMap_congr fun n _ => ?_
  cases n <;> rfl

/-! ## Tracks that go on

A part counts its own loops. Which part goes on after a tick, or from its loop point, is followed
here. -/

namespace Part

variable {limit : Nat} {p : Part}

/-- The part is under way, or it could go on from its loop point. -/
def GoesOn (p : Part) : Prop := p.head.IsFinished → p.head.restart?.isSome

/-- A part that goes on after a tick has gone on before. -/
theorem GoesOn.of_tick {driver : SoundDriver} (h : (p.tick driver limit).GoesOn) : p.GoesOn := by
  intro finished
  have same : p.tick driver limit = p := by
    rw [tick, Playhead.tick_of_isFinished finished]
  rw [same] at h
  exact h finished

/-- A part of DSE never goes back in a tick. It cannot jump. -/
theorem loopCount_tick (p : Part) : (p.tick .dse limit).head.loopCount = p.head.loopCount :=
  Playhead.loopCount_tick p.head

/-- Going on from the loop point is counted. -/
theorem loopCount_restarted (h : p.head.restart?.isSome) :
    p.restarted.head.loopCount = p.head.loopCount + 1 := by
  unfold restarted
  unfold Playhead.restart? at h ⊢
  split at h
  · rfl
  · cases h

/-- A part that has run out goes on only if it can do so from its loop point. -/
theorem GoesOn.of_restarted (finished : p.head.IsFinished) (h : p.restarted.GoesOn) :
    p.head.restart?.isSome := by
  unfold GoesOn restarted at h
  cases hhead : p.head.restart? with
  | none =>
    rw [hhead] at h
    exact absurd (h finished) (by simp [hhead])
  | some head => rfl

end Part

namespace Score

variable {c : Score}

/-! ## The count after a tick

What a tick makes of the count of the song: it follows the slowest part, or counts one more where
the song goes back to its loop points, or stays. -/

/-- The limit ends the song and counts nothing. -/
theorem songLoops_checkLoopLimit (c : Score) : c.checkLoopLimit.songLoops = c.songLoops := by
  obtain ⟨_, hlimit, -⟩ := checkLoopLimit_eq c
  rw [hlimit]

/-- As long as parts are unfinished, the song has gone round as often as the one behind all
others. -/
theorem songLoops_pass_of_unfinished (unfinished : ¬ c.tickAll.AllFinished) :
    c.pass.songLoops = max c.songLoops c.tickAll.commonLoops := by
  rw [pass, if_neg unfinished, countLoops]
  split
  · next none => exact (Nat.max_eq_left none).symm
  · next more =>
    rw [songLoops_checkLoopLimit]
    exact (Nat.max_eq_right (Nat.le_of_not_le more)).symm

/-- A song that goes back to its loop points counts this once. -/
theorem songLoops_pass_of_goesBack (back : c.GoesBack) :
    c.pass.songLoops = c.songLoops + 1 := by
  obtain ⟨_, _, _, hpass, -, ⟨straight, -⟩ | ⟨-, -, hmore⟩⟩ := pass_cases c
  · exact absurd back straight
  · rw [hpass]
    exact hmore

/-- A song that is over counts no loop. -/
theorem songLoops_pass_of_finished (finished : c.tickAll.AllFinished) (straight : ¬ c.GoesBack) :
    c.pass.songLoops = c.songLoops := by
  have halted : ¬ ∃ p ∈ c.tickAll.parts, p.head.restart?.isSome := fun back =>
    straight ⟨finished, back⟩
  rw [pass, if_pos finished, wrapOrEnd, if_neg (by simpa using halted)]
  rfl

/-- The count of loops never falls in a tick. -/
theorem songLoops_le_pass (c : Score) : c.songLoops ≤ c.pass.songLoops := by
  obtain ⟨_, _, _, hpass, -, ⟨-, -, hmore, -⟩ | ⟨-, -, hmore⟩⟩ := pass_cases c
  · rw [hpass]
    exact hmore
  · rw [hpass, hmore]
    exact Nat.le_succ _

/-! ## Tracks and the song agree

In DSE no part goes round by itself. So all that go on have gone round as often as the song, and the
two ways of counting do not disturb each other. -/

/-- In DSE, every part that goes on has gone round as often as the song. -/
def Tallied (c : Score) : Prop :=
  c.driver = .dse → ∀ p ∈ c.parts, p.GoesOn → p.head.loopCount = c.songLoops

/-- In a tick no part of a tallied score goes back by itself. -/
theorem Tallied.tickAll (h : c.Tallied) : c.tickAll.Tallied := by
  intro dse p' hp' goesOn
  obtain ⟨p, hp, rfl⟩ := List.mem_map.mp hp'
  have dse : c.driver = .dse := dse
  rw [dse] at goesOn ⊢
  rw [Part.loopCount_tick]
  exact h dse p hp goesOn.of_tick

/-- One of the unfinished parts is as far behind as any. -/
theorem exists_commonLoops {p : Part} (hp : p ∈ c.parts) (going : ¬ p.head.IsFinished) :
    ∃ q ∈ c.parts, ¬ q.head.IsFinished ∧ q.head.loopCount = c.commonLoops := by
  let counts := (c.parts.filter fun p => ¬ p.head.IsFinished).map fun p => p.head.loopCount
  have hmem : p.head.loopCount ∈ counts :=
    List.mem_map_of_mem (List.mem_filter.mpr ⟨hp, decide_eq_true going⟩)
  obtain ⟨least, hleast⟩ := Option.isSome_iff_exists.mp (List.isSome_min?_of_mem hmem)
  obtain ⟨q, hq, hcount⟩ := List.mem_map.mp (List.min?_mem hleast)
  obtain ⟨hq, unfinished⟩ := List.mem_filter.mp hq
  refine ⟨q, hq, of_decide_eq_true unfinished, ?_⟩
  show _ = counts.min?.getD 0
  rw [hcount, hleast]
  rfl

/-- In DSE no loop is counted but by going back to loop points. -/
theorem Tallied.commonLoops_le (h : c.Tallied) (dse : c.driver = .dse) :
    c.commonLoops ≤ c.songLoops := by
  by_cases finished : c.AllFinished
  · have none : (c.parts.filter fun p => ¬ p.head.IsFinished) = [] :=
      List.filter_eq_nil_iff.mpr fun p hp => by simpa using finished p hp
    rw [commonLoops, none]
    exact Nat.zero_le _
  · obtain ⟨p, hp, going⟩ : ∃ p ∈ c.parts, ¬ p.head.IsFinished := by
      simpa [AllFinished] using finished
    obtain ⟨q, hq, unfinished, hcount⟩ := exists_commonLoops hp going
    rw [← hcount]
    exact Nat.le_of_eq (h dse q hq fun finished => absurd finished unfinished)

/-- With DSE, only going back to the loop points is counted. -/
theorem Tallied.songLoops_pass (h : c.Tallied) (dse : c.driver = .dse) (straight : ¬ c.GoesBack) :
    c.pass.songLoops = c.songLoops := by
  by_cases finished : c.tickAll.AllFinished
  · exact songLoops_pass_of_finished finished straight
  · have hle : c.tickAll.commonLoops ≤ c.songLoops := h.tickAll.commonLoops_le dse
    rw [songLoops_pass_of_unfinished finished, Nat.max_eq_left hle]

/-- A tick keeps a score tallied. -/
theorem Tallied.pass (h : c.Tallied) : c.pass.Tallied := by
  have hsame := h.songLoops_pass
  obtain ⟨parts, songLoops, transport, hpass, -, hcases⟩ := pass_cases c
  rw [hpass] at hsame ⊢
  intro dse p' hp' goesOn
  rcases hcases with ⟨straight, hparts, -⟩ | ⟨back, hparts, hloops⟩
  · have hloops : songLoops = c.songLoops := hsame dse straight
    subst hparts hloops
    exact h.tickAll dse p' hp' goesOn
  · subst hparts hloops
    obtain ⟨p, hp, rfl⟩ := List.mem_map.mp hp'
    have restarts := goesOn.of_restarted (back.1 p hp)
    rw [Part.loopCount_restarted restarts, h.tickAll dse p hp fun _ => restarts]
    rfl

/-- After a tick, a song with unfinished parts has counted as many loops as one of them. -/
theorem exists_loopCount_le_pass (tallied : c.Tallied) (straight : c.Straight) {p : Part}
    (hp : p ∈ c.pass.parts) (going : ¬ p.head.IsFinished) :
    ∃ q ∈ c.pass.parts, ¬ q.head.IsFinished ∧ q.head.loopCount ≤ c.pass.songLoops := by
  -- only DSE has loop points; with them all parts have gone round as often as the song
  by_cases back : c.GoesBack
  · have dse : c.driver = .dse := by
      by_contra hdriver
      exact straight.not_goesBack hdriver back
    have hdriver : c.pass.driver = .dse := by
      obtain ⟨_, _, _, hpass, -⟩ := pass_cases c
      rw [hpass]
      exact dse
    refine ⟨p, hp, going, Nat.le_of_eq ?_⟩
    exact tallied.pass hdriver p hp fun finished => absurd finished going
  · have hparts : c.pass.parts = c.tickAll.parts := by
      obtain ⟨_, _, _, hpass, -, ⟨-, hparts, -⟩ | ⟨hback, -⟩⟩ := pass_cases c
      · rw [hpass, hparts]
      · exact absurd hback back
    rw [hparts] at hp ⊢
    have unfinished : ¬ c.tickAll.AllFinished := fun all => going (all p hp)
    -- without them the song counts what all parts have in common, so one part has no more
    obtain ⟨q, hq, hgoing, hcount⟩ := exists_commonLoops hp going
    refine ⟨q, hq, hgoing, ?_⟩
    rw [hcount, songLoops_pass_of_unfinished unfinished]
    exact Nat.le_max_right _ _

/-- A tick tells of a loop if it has counted one, and the number it tells is the count. Only a loop
by jumps may be passed over in silence. -/
theorem loopsOf_turnNotices_eq (announce : Bool) (c : Score) :
    loopsOf (c.turnNotices announce) =
      if c.songLoops < c.pass.songLoops ∧ (announce = true ∨ c.GoesBack) then
        [.loopWrapped c.pass.songLoops]
      else [] := by
  -- a song goes back when all parts are at their end, and counts loops while one is not
  by_cases finished : c.tickAll.AllFinished
  · by_cases back : ∃ p ∈ c.tickAll.parts, p.head.restart?.isSome
    · have hback : c.GoesBack := ⟨finished, back⟩
      rw [songLoops_pass_of_goesBack hback, if_pos ⟨Nat.lt_succ_self _, Or.inr hback⟩, turnNotices,
        notices, if_pos finished, if_pos (by simpa using back)]
      show .loopWrapped (c.songLoops + 1) :: loopsOf (limitNotices _) = _
      rw [loopsOf_limitNotices]
    · rw [songLoops_pass_of_finished finished fun h => back h.2,
        if_neg fun h => Nat.lt_irrefl _ h.1, turnNotices, notices, if_pos finished,
        if_neg (by simpa using back)]
      rfl
  · have straight : ¬ c.GoesBack := fun back => finished back.1
    rw [songLoops_pass_of_unfinished finished, turnNotices, notices, if_neg finished,
      show c.tickAll.songLoops = c.songLoops from rfl]
    by_cases same : c.tickAll.commonLoops ≤ c.songLoops
    · rw [if_pos same, if_neg fun h => absurd h.1 (by omega)]
      rfl
    · have hless : c.songLoops < c.tickAll.commonLoops := Nat.lt_of_not_le same
      rw [if_neg same, loopsOf_append, loopsOf_limitNotices, List.append_nil,
        Nat.max_eq_right (Nat.le_of_lt hless)]
      cases announce with
      | true =>
        rw [if_pos rfl, if_pos ⟨hless, Or.inl rfl⟩]
        rfl
      | false =>
        rw [if_neg Bool.false_ne_true, if_neg fun h => h.2.elim Bool.false_ne_true straight]
        rfl

end Score

namespace Sequencer

variable {s s' : Sequencer} {events : List Event} {steps : List Step}

/-! ## What every tick accounts for

Which loops are told in a tick, and what the count before and after has to do with them. -/

/-- The loops that the host is told of in the tick. -/
def Step.loopsTold (b : Step) : List Nat := b.told.filterMap Notification.loops?

/-- The tracks of the song agree with it on the loops that they have gone round. -/
def Tallied (s : Sequencer) : Prop := s.score.Tallied ∧ s.score.Straight

/-- At the start nothing has been counted. -/
theorem tallied_rewind (s : Sequencer) : s.rewind.Tallied := by
  refine ⟨fun _ p hp _ => ?_, straight_rewind s⟩
  simp only [score, rewind, List.map_map] at hp
  obtain ⟨t, -, rfl⟩ := List.mem_map.mp hp
  rfl

/-- Every move keeps a sequencer tallied. -/
theorem tallied_of_move (h : Move s s') (tallied : s.Tallied) : s'.Tallied := by
  refine ⟨?_, straight_of_move h tallied.2⟩
  cases h with
  | rewind => exact (tallied_rewind s).1
  | tick announce =>
    rw [score_runTick]
    exact tallied.1.pass
  | cut =>
    rw [score_cutVoices]
    exact tallied.1
  | sound =>
    rw [score_soundFrame]
    exact tallied.1
  | mute i muted =>
    rw [score_setTrackMuted]
    exact tallied.1
  | adjust => exact tallied.1

/-- The count of loops is right all along a course, and where every step of it begins. -/
theorem Course.tallied (h : Course s events s') (tallied : s.Tallied) :
    s'.Tallied ∧ ∀ b, .step b ∈ events → b.before.Tallied := by
  induction h with
  | nil s => exact ⟨tallied, fun b hb => by cases hb⟩
  | load song _ ih =>
    obtain ⟨last, steps⟩ := ih (tallied_rewind _)
    exact ⟨last, fun b hb => steps b (by simpa using hb)⟩
  | rewind _ ih =>
    obtain ⟨last, steps⟩ := ih (tallied_rewind _)
    exact ⟨last, fun b hb => steps b (by simpa using hb)⟩
  | step b _ ih =>
    obtain ⟨last, steps⟩ := ih (tallied_of_move (.tick b.announce b.before) tallied)
    refine ⟨last, fun b' hb' => ?_⟩
    rcases List.mem_cons.mp hb' with heq | hb'
    · cases heq
      exact tallied
    · exact steps b' hb'
  | quiet move _ ih => exact ih (tallied_of_move move.move tallied)

/-- How a tick accounts for the loops of the song. -/
structure Step.Accounted (b : Step) : Prop where
  /-- The count does not fall. -/
  grows : b.before.songLoops ≤ b.after.songLoops
  /-- If the host is told of a loop, then of one and by its number, which is the new count. -/
  told : b.loopsTold = [] ∨
    b.before.songLoops < b.after.songLoops ∧ b.loopsTold = [b.after.songLoops]
  /-- The song has gone round as often as the unfinished track that has gone round least. -/
  behind : (∃ t ∈ b.after.tracks, ¬ t.IsFinished) →
    ∃ t ∈ b.after.tracks, ¬ t.IsFinished ∧ t.head.loopCount ≤ b.after.songLoops
  /-- To go back to loop points counts as one loop and is told once. -/
  back : b.before.GoesBack →
    b.after.songLoops = b.before.songLoops + 1 ∧ b.loopsTold = [b.after.songLoops]
  /-- In DSE, nothing else counts, and no unfinished track has counted otherwise. -/
  agreed : b.before.driver = .dse →
    (∀ t ∈ b.after.tracks, ¬ t.IsFinished → t.head.loopCount = b.after.songLoops) ∧
      (¬ b.before.GoesBack → b.after.songLoops = b.before.songLoops ∧ b.loopsTold = [])

/-- A tick tells of a loop exactly if it has counted one and is allowed to tell, or has gone back to
the loop points. -/
theorem Step.loopsTold_eq (b : Step) :
    b.loopsTold =
      if b.before.songLoops < b.after.songLoops ∧
          (b.announce = true ∨ b.before.score.GoesBack) then
        [b.after.songLoops]
      else [] := by
  have hloops : b.before.score.pass.songLoops = b.after.songLoops :=
    (congrArg Score.songLoops (score_runTick b.announce b.before)).symm
  have htold : loopsOf b.told = _ := (loopsOf_noticesInTick b.announce b.before).trans
    (Score.loopsOf_turnNotices_eq b.announce b.before.score)
  rw [loopsTold, ← filterMap_loops?_loopsOf, htold, hloops, apply_ite (List.filterMap _)]
  rfl

/-- Every step of a tallied sequencer is accounted for. -/
theorem Step.accounted {b : Step} (tallied : b.before.Tallied) : b.Accounted := by
  obtain ⟨htallied, hstraight⟩ := tallied
  have hafter : b.after.score = b.before.score.pass := score_runTick b.announce b.before
  have hloops : b.after.songLoops = b.before.score.pass.songLoops :=
    congrArg Score.songLoops hafter
  have hparts : b.after.tracks.map Track.part = b.before.score.pass.parts :=
    congrArg Score.parts hafter
  have htold := b.loopsTold_eq
  constructor
  case grows =>
    rw [hloops]
    exact b.before.score.songLoops_le_pass
  case told =>
    split at htold
    · next h => exact Or.inr ⟨h.1, htold⟩
    · exact Or.inl htold
  case behind =>
    rintro ⟨t, ht, going⟩
    have hpart : t.part ∈ b.before.score.pass.parts := hparts ▸ List.mem_map_of_mem ht
    obtain ⟨q, hq, unfinished, hle⟩ :=
      Score.exists_loopCount_le_pass htallied hstraight hpart going
    rw [← hparts] at hq
    obtain ⟨u, hu, rfl⟩ := List.mem_map.mp hq
    exact ⟨u, hu, unfinished, hloops ▸ hle⟩
  case back =>
    intro hback
    have back := (goesBack_score b.before).mpr hback
    have hmore : b.after.songLoops = b.before.songLoops + 1 :=
      hloops.trans (Score.songLoops_pass_of_goesBack back)
    have hless : b.before.songLoops < b.after.songLoops := by omega
    rw [if_pos ⟨hless, Or.inr back⟩] at htold
    exact ⟨hmore, htold⟩
  case agreed =>
    intro dse
    have hdriver : b.before.score.pass.driver = .dse := by
      -- a tick does not change the driver
      obtain ⟨_, _, _, hpass, -⟩ := b.before.score.pass_cases
      rw [hpass]
      exact dse
    refine ⟨fun t ht going => ?_, fun straight => ?_⟩
    · have hpart : t.part ∈ b.before.score.pass.parts := hparts ▸ List.mem_map_of_mem ht
      exact (htallied.pass hdriver t.part hpart fun finished => absurd finished going).trans
        hloops.symm
    · have hsame : b.after.songLoops = b.before.songLoops :=
        hloops.trans (htallied.songLoops_pass dse fun back => straight ((goesBack_score _).mp back))
      have hnot : ¬ b.before.songLoops < b.after.songLoops := by omega
      rw [if_neg fun h => hnot h.1] at htold
      exact ⟨hsame, htold⟩

/-! ## The count along a run

A stretch without a rewind is a row of ticks. Their accounts add up. -/

/-- The count before the tick and after it. -/
def Step.counts (b : Step) : List Nat := [b.before.songLoops, b.after.songLoops]

/-- Where the song is not taken back to its start, its count never falls. -/
theorem Counts.grows {n m : Nat} (h : Counts n (steps.map .step) m)
    (accounted : ∀ b ∈ steps, b.Accounted) :
    (∀ k ∈ steps.flatMap Step.counts, n ≤ k) ∧ (steps.flatMap Step.counts).Pairwise (· ≤ ·) := by
  induction steps generalizing n with
  | nil => exact ⟨fun k hk => (by cases hk), .nil⟩
  | cons b steps ih =>
    cases h with
    | step _ rest =>
      obtain ⟨hlow, hpairwise⟩ := ih rest fun b' hb' => accounted b' (.tail _ hb')
      have hgrows := (accounted b List.mem_cons_self).grows
      have hall : ∀ k ∈ b.after.songLoops :: steps.flatMap Step.counts, b.after.songLoops ≤ k :=
        List.forall_mem_cons.mpr ⟨Nat.le_refl _, hlow⟩
      have hmore := fun k hk => Nat.le_trans hgrows (hall k hk)
      exact ⟨List.forall_mem_cons.mpr ⟨Nat.le_refl _, hmore⟩,
        .cons hmore (.cons hlow hpairwise)⟩

/-- Where the song is not taken back to its start, the loops that the host is told of have rising
numbers. -/
theorem Counts.rises {n m : Nat} (h : Counts n (steps.map .step) m)
    (accounted : ∀ b ∈ steps, b.Accounted) :
    (∀ k ∈ steps.flatMap Step.loopsTold, n < k) ∧
      (steps.flatMap Step.loopsTold).Pairwise (· < ·) := by
  induction steps generalizing n with
  | nil => exact ⟨fun k hk => (by cases hk), .nil⟩
  | cons b steps ih =>
    cases h with
    | step _ rest =>
      obtain ⟨hlow, hpairwise⟩ := ih rest fun b' hb' => accounted b' (.tail _ hb')
      have hb := accounted b List.mem_cons_self
      rw [List.flatMap_cons]
      rcases hb.told with none | ⟨hless, one⟩
      · rw [none]
        exact ⟨fun k hk => Nat.lt_of_le_of_lt hb.grows (hlow k hk), hpairwise⟩
      · rw [one]
        exact ⟨List.forall_mem_cons.mpr ⟨hless, fun k hk => Nat.lt_trans hless (hlow k hk)⟩,
          .cons hlow hpairwise⟩

/-- How loops are accounted for. Along every run, the host is told of nothing but in the events of
the run, and only they change the count of loops. In any stretch of ticks between which the song is
not taken back to its start, the count never falls, the loops that the host is told of have rising
numbers, and each tick accounts for itself. -/
theorem loops_add_up (config : Config) (requests : List Request) :
    let events := along eventsIn (empty config) requests
    along noticesIn (empty config) requests = events.flatMap Event.told ∧
    Counts 0 events ((empty config).after requests).songLoops ∧
    ∀ steps : List Step, steps.map Event.step <:+: events →
      (steps.flatMap Step.counts).Pairwise (· ≤ ·) ∧
      (steps.flatMap Step.loopsTold).Pairwise (· < ·) ∧
      ∀ b ∈ steps, b.Accounted := by
  intro events
  have course : Course (empty config) events ((empty config).after requests) :=
    course_after (empty config) requests
  refine ⟨along_noticesIn_eq_told (empty config) requests, course.counts, ?_⟩
  rintro steps ⟨before, after, hevents⟩
  -- without a song there are no parts that could disagree
  have start : (empty config).Tallied := ⟨fun _ p hp => (by cases hp), fun _ p hp => (by cases hp)⟩
  have accounted : ∀ b ∈ steps, b.Accounted := by
    intro b hb
    refine Step.accounted ((course.tallied start).2 b ?_)
    rw [← hevents]
    simp [hb]
  rw [← hevents, List.append_assoc] at course
  -- the course of the steps is cut out of the course of the whole run
  obtain ⟨s, -, course⟩ := course.exists_of_append
  obtain ⟨t, course, -⟩ := course.exists_of_append
  exact ⟨(course.counts.grows accounted).2, (course.counts.rises accounted).2, accounted⟩

theorem loops_add_up_loopedRest :
    let steps := stepsInReplay 7
      { ((empty {}).after [.load .loopedRest]).rewind with transport := .playing }
    steps.flatMap Step.loopsTold = [1, 2] ∧
      (steps.flatMap Step.loopsTold).Pairwise (· < ·) ∧ ∀ b ∈ steps, b.Accounted := by
  intro steps
  have stretch : steps.map Event.step <:+:
      along eventsIn (empty {}) [.load .loopedRest, .seek 7] := by
    refine ⟨[.rewind, .rewind], [], ?_⟩
    show [Event.rewind, .rewind] ++ steps.map Event.step ++ [] =
      [.rewind] ++ (.rewind :: steps.map Event.step ++ [])
    rfl
  have both : steps.flatMap Step.loopsTold = [1, 2] := by decide +kernel
  obtain ⟨-, rises, accounted⟩ := (loops_add_up {} [.load .loopedRest, .seek 7]).2.2 steps stretch
  exact ⟨both, rises, accounted⟩

end Sequencer
end Chiptune
