import Chiptune.Proofs.Playhead.Log
import Chiptune.Proofs.Playhead.Places

/-!
# The limit of commands, and failures

A malformed stream can jump, call and repeat for ever without a rest. A tick of it is over all the
same once it has run as many commands as it may, and then the stream fails if there is anything left
to run (`Playhead.error_tick_iff`). Errors also come from decoding and from calls and loops that are
one too many. Whichever it is, the playhead says so once, and is then finished with nothing open
(`Playhead.Reports`).
-/

namespace Chiptune

/-- The command did not make its stream rest, end or fail. -/
def Entry.GoesOn (e : Entry) : Prop :=
  (∀ ticks, e.command ≠ .wait (ticks + 1)) ∧ e.command ≠ .finish ∧ e.place.error = none

/-- The error that an effect tells of. -/
def Effect.failure? : Effect → Option DecodeError
  | .failed error => some error
  | _ => none

namespace Playhead

section

variable (driver : SoundDriver) (limit : Nat) (s : EventStream)

/-- The offsets at which `run` decodes a command, sound or not. -/
def decodesInRun : (budget : Nat) → Playhead → List Nat
  | 0, _ => []
  | budget + 1, h =>
    let next := (h.step driver s).1
    (if s.bytes.size ≤ h.cursor then [] else [h.cursor]) ++
      if next.IsAtRest then [] else decodesInRun budget next

/-- The offsets at which the next tick decodes a command. -/
def decodesInTick (h : Playhead) : List Nat :=
  if h.IsFinished ∨ 1 < h.started.rest then [] else h.woken.decodesInRun driver s limit

/-- The playhead runs commands in the next tick. -/
def IsDue (h : Playhead) : Prop := ¬ h.IsFinished ∧ h.rest ≤ 1

/-- These are as many commands as a tick may run, and after all of them the playhead goes on at
`offset`. -/
structure Exhausts (h : Playhead) (log : List Entry) (offset : Nat) : Prop where
  length : log.length = limit
  /-- None of them lets the tick end. -/
  goesOn : ∀ e ∈ log, e.GoesOn
  cursor : (h.lastPlace log).cursor = offset
  /-- There is one more command to come, good or bad. -/
  inside : offset < s.bytes.size

/-- A playhead with an error is finished and has nothing open. -/
def IsContained (h : Playhead) : Prop :=
  ∀ error, h.error = some error → h.IsFinished ∧ h.nestings = []

/-- Of some effects the playhead has asked for, one tells of its error, if it has one, and then it
is contained. -/
structure Reports (h : Playhead) (effects : List Effect) : Prop where
  contained : h.IsContained
  told : effects.filterMap Effect.failure? = h.error.toList

end

variable {driver : SoundDriver} {limit : Nat} {s : EventStream} {h : Playhead}

/-! ## Failures

An error is told in the moment in which it is noted down, and it finishes the playhead. So there is
never a second one, and what is told in a tick can be read off the playhead behind it. -/

/-- A playhead that goes on has no error. -/
theorem IsContained.sound (contained : h.IsContained) (unfinished : ¬ h.IsFinished) :
    h.error = none := by
  refine Option.eq_none_iff_forall_ne_some.mpr ?_
  intro error failed
  exact unfinished (contained error failed).1

theorem isContained_of_sound (sound : h.error = none) : h.IsContained := by
  intro error failed
  rw [sound] at failed
  cases failed

/-- A failure is reported as it is noted down. -/
theorem reports_fail (h : Playhead) (error : DecodeError) :
    (h.fail error).1.Reports (h.fail error).2 where
  contained := by
    intro _ _
    exact ⟨rfl, rfl⟩
  told := rfl

/-- An end is no failure. -/
theorem reports_finish (sound : h.error = none) : h.finish.Reports [.ended] where
  contained := isContained_of_sound sound
  told := by
    show [] = h.error.toList
    rw [sound]
    rfl

theorem reports_of_sound {effects : List Effect} (sound : h.error = none)
    (quiet : effects.filterMap Effect.failure? = []) : h.Reports effects where
  contained := isContained_of_sound sound
  told := by
    rw [quiet, sound]
    rfl

/-- A command asks for the report of a failure exactly if it leaves one behind. -/
theorem reports_execute (sound : h.error = none) (offset : Nat) (c : Command) :
    (h.execute driver offset c).1.Reports (h.execute driver offset c).2 := by
  -- there are three kinds: what ends, what nests and may fail, and what goes on
  cases c with
  | finish => exact reports_finish sound
  | wait ticks => cases ticks <;> exact reports_of_sound sound rfl
  | call target passes =>
    rw [execute]
    split
    · exact reports_of_sound sound rfl
    · exact reports_fail h _
  | openLoop passes =>
    rw [execute]
    split
    · exact reports_of_sound sound rfl
    · exact reports_fail h _
  | endCall =>
    obtain ⟨cursor, nestings, loopCount, same⟩ := exists_endCall_eq h
    rw [execute, same]
    exact reports_of_sound sound rfl
  | closeLoop =>
    obtain ⟨cursor, nestings, loopCount, same⟩ := exists_closeLoop_eq h
    rw [execute, same]
    exact reports_of_sound sound rfl
  | again target count =>
    obtain ⟨cursor, reached, same⟩ := exists_again_eq h target count
    rw [execute, same]
    exact reports_of_sound sound rfl
  | _ => exact reports_of_sound sound rfl

/-- A step reports its failure, if it has one: that of the decoder or that of the command. -/
theorem reports_step (driver : SoundDriver) (s : EventStream) (sound : h.error = none) :
    (h.step driver s).1.Reports (h.step driver s).2 := by
  unfold step
  split
  · exact reports_finish sound
  · split
    · exact reports_fail _ _
    · next status d _ =>
      exact reports_execute (h := { h with status, cursor := h.cursor + d.length }) sound _ _

/-- To exceed the limit is a failure, and reported as one. -/
theorem reports_exhaust (limit : Nat) (s : EventStream) (sound : h.error = none) :
    (h.exhaust limit s).1.Reports (h.exhaust limit s).2 := by
  unfold exhaust
  split
  · exact reports_finish sound
  · exact reports_fail _ _

/-- A run ends at its first failure, and so it reports one at most. -/
theorem reports_run (sound : h.error = none) (budget : Nat) {effects : Array Effect}
    (quiet : effects.toList.filterMap Effect.failure? = []) :
    (run driver limit s budget h effects).1.Reports
      (run driver limit s budget h effects).2.toList := by
  -- on the commands that may still be run; none of those before has told of an error
  induction budget generalizing h effects with
  | zero =>
    have last := reports_exhaust limit s sound
    refine ⟨last.contained, ?_⟩
    rw [run, Array.appendList_eq_append, Array.toList_appendList, List.filterMap_append, quiet]
    exact last.told
  | succ budget ih =>
    have first := reports_step driver s sound
    rw [run]
    dsimp only
    split
    · refine ⟨first.contained, ?_⟩
      rw [Array.appendList_eq_append, Array.toList_appendList, List.filterMap_append, quiet]
      exact first.told
    · next going =>
      have soundToo := first.contained.sound fun finished => going (Or.inl finished)
      apply ih soundToo
      rw [Array.appendList_eq_append, Array.toList_appendList, List.filterMap_append, quiet,
        first.told, soundToo]
      rfl

theorem error_started (h : Playhead) : h.started.error = h.error := by
  unfold started
  split <;> rfl

/-- A tick tells of an error exactly if it is the one in which the stream fails. -/
theorem reports_tick (unfinished : ¬ h.IsFinished) (sound : h.error = none) :
    (h.tick driver limit s).1.Reports (h.tick driver limit s).2.toList := by
  rw [tick_of_not_isFinished unfinished]
  have started : h.started.error = none := (error_started h).trans sound
  split
  · exact reports_of_sound started rfl
  · exact reports_run (h := h.woken) started limit rfl

/-- A playhead with a failure has finished, after every tick. -/
theorem isContained_tick (contained : h.IsContained) : (h.tick driver limit s).1.IsContained := by
  by_cases finished : h.IsFinished
  · rwa [tick_of_isFinished finished]
  · exact (reports_tick finished (contained.sound finished)).contained

/-! ## How many commands

The budget of a run goes down with every command that is decoded, sound or not. -/

/-- No more is decoded than the budget allows. -/
theorem length_decodesInRun_le (budget : Nat) (h : Playhead) :
    (h.decodesInRun driver s budget).length ≤ budget := by
  induction budget generalizing h with
  | zero => exact Nat.le_refl 0
  | succ budget ih =>
    have first : (if s.bytes.size ≤ h.cursor then [] else [h.cursor]).length ≤ 1 := by
      split <;> simp
    have others : (if (h.step driver s).1.IsAtRest then []
        else decodesInRun driver s budget (h.step driver s).1).length ≤ budget := by
      split
      · exact Nat.zero_le _
      · exact ih _
    rw [decodesInRun, List.length_append]
    omega

/-- No tick decodes more commands than it may run. -/
theorem length_decodesInTick_le (h : Playhead) :
    (h.decodesInTick driver limit s).length ≤ limit := by
  unfold decodesInTick
  split
  · exact Nat.zero_le _
  · exact length_decodesInRun_le limit _

/-! ## When the limit is reached

A run ends for one of three reasons: the playhead rests or is finished, a command fails, or the
budget is used up. Only the last one gives this error, and for it every command must have gone on to
the next. -/

theorem not_isAtRest_settle (awake : ¬ 0 < h.rest) : ¬ h.settle.IsAtRest := by
  rintro (finished | resting)
  · exact not_isFinished_settle h finished
  · exact awake resting

/-- A command that neither waits nor ends the stream settles, unless it opens one too many. -/
theorem execute_cases {c : Command} (waitless : ∀ ticks, c ≠ .wait (ticks + 1))
    (endless : c ≠ .finish) (driver : SoundDriver) (offset : Nat) (h : Playhead) :
    (h.execute driver offset c).1 = (h.fail (.loopStackOverflow offset)).1 ∨
      ∃ g : Playhead, (h.execute driver offset c).1 = g.settle ∧ g.rest = h.rest ∧
        g.error = h.error := by
  -- the commands that nest something may find the stack full, the others only settle
  cases c with
  | finish => exact absurd rfl endless
  | wait ticks =>
    cases ticks with
    | zero => exact Or.inr ⟨h, rfl, rfl, rfl⟩
    | succ ticks => exact absurd rfl (waitless ticks)
  | call target passes =>
    rw [execute]
    split
    · exact Or.inr ⟨_, rfl, rfl, rfl⟩
    · exact Or.inl rfl
  | openLoop passes =>
    rw [execute]
    split
    · exact Or.inr ⟨_, rfl, rfl, rfl⟩
    · exact Or.inl rfl
  | endCall =>
    obtain ⟨cursor, nestings, loopCount, same⟩ := exists_endCall_eq h
    exact Or.inr ⟨h.endCall, rfl, by rw [same], by rw [same]⟩
  | closeLoop =>
    obtain ⟨cursor, nestings, loopCount, same⟩ := exists_closeLoop_eq h
    exact Or.inr ⟨h.closeLoop, rfl, by rw [same], by rw [same]⟩
  | again target count =>
    obtain ⟨cursor, reached, same⟩ := exists_again_eq h target count
    exact Or.inr ⟨h.again target count, rfl, by rw [same], by rw [same]⟩
  | _ => exact Or.inr ⟨_, rfl, rfl, rfl⟩

/-- What makes a playhead rest is to wait, to end, or to fail. -/
theorem not_isAtRest_execute (awake : ¬ 0 < h.rest) (sound : h.error = none) (offset : Nat)
    (c : Command) :
    ¬ (h.execute driver offset c).1.IsAtRest ↔
      (∀ ticks, c ≠ .wait (ticks + 1)) ∧ c ≠ .finish ∧
        (h.execute driver offset c).1.error = none := by
  constructor
  · intro going
    have waitless : ∀ ticks, c ≠ .wait (ticks + 1) := by
      rintro ticks rfl
      exact going (Or.inr (Nat.succ_pos ticks))
    have endless : c ≠ .finish := by
      rintro rfl
      exact going (Or.inl rfl)
    refine ⟨waitless, endless, ?_⟩
    -- a playhead that has failed would be at its end
    rcases execute_cases waitless endless driver offset h with same | ⟨g, same, -, error⟩
    · rw [same] at going
      exact absurd (Or.inl rfl) going
    · rw [same]
      exact error.trans sound
  · rintro ⟨waitless, endless, soundToo⟩
    rcases execute_cases waitless endless driver offset h with same | ⟨g, same, rest, -⟩
    · rw [same] at soundToo
      cases soundToo
    · rw [same]
      exact not_isAtRest_settle (rest ▸ awake)

/-- The same of the command under the cursor. -/
theorem not_isAtRest_of_mem_entries (awake : ¬ 0 < h.rest) (sound : h.error = none) {e : Entry}
    (mem : e ∈ h.entries driver s) : ¬ e.place.IsAtRest ↔ e.GoesOn := by
  unfold entries at mem
  obtain ⟨command, found, rfl⟩ := List.mem_map.mp mem
  have found := Option.mem_toList.mp found
  unfold command? at found
  split at found
  · cases found
  · next inside =>
    unfold Entry.GoesOn step
    rw [if_neg inside]
    generalize s.decode driver h.cursor h.status = decoded at found ⊢
    obtain ⟨status, error | d⟩ := decoded
    · cases found
    · cases found
      exact not_isAtRest_execute (h := { h with status, cursor := h.cursor + d.length }) awake sound
        _ _

/-- Decoding never fails at the limit. -/
theorem decode_ne_commandLimit (driver : SoundDriver) (s : EventStream) (cursor : Nat)
    (status : Status) (limit offset : Nat) :
    (s.decode driver cursor status).2 ≠ .error (.commandLimit limit offset) := by
  unfold EventStream.decode EventStream.decodeWith
  split
  · simp
  · next defect _ => cases defect <;> simp [Defect.at]

/-- Only the limit itself fails with this error. -/
theorem error_step_ne (sound : h.error = none) (offset : Nat) :
    (h.step driver s).1.error ≠ some (.commandLimit limit offset) := by
  have decoded := decode_ne_commandLimit driver s h.cursor h.status limit offset
  -- no step says of itself that there were too many
  have still {g : Playhead} (same : g.error = h.error) :
      g.error ≠ some (.commandLimit limit offset) := by
    rw [same, sound]
    simp
  unfold step
  split
  · exact still rfl
  · generalize s.decode driver h.cursor h.status = found at decoded ⊢
    obtain ⟨status, error | ⟨c, length⟩⟩ := found
    · simpa [fail] using decoded
    -- a rest and the end of the stream leave no error behind; of all else `execute_cases` knows
    · by_cases waits : ∃ ticks, c = .wait (ticks + 1)
      · obtain ⟨ticks, rfl⟩ := waits
        exact still rfl
      · by_cases ends : c = .finish
        · subst ends
          exact still rfl
        · have waitless : ∀ ticks, c ≠ .wait (ticks + 1) := fun ticks e => waits ⟨ticks, e⟩
          rcases execute_cases waitless ends driver h.cursor
              { h with status, cursor := h.cursor + length } with same | ⟨g, same, -, error⟩
          · simp [same, fail]
          · rw [same]
            exact still error

theorem lastPlace_cons (h : Playhead) (e : Entry) (l : List Entry) :
    h.lastPlace (e :: l) = e.place.lastPlace l := by
  unfold lastPlace
  rw [List.getLast?_cons]
  cases l.getLast? <;> rfl

/-- With no command to run, the limit is reached where the playhead is. -/
theorem exhausts_nil_iff {offset : Nat} :
    h.Exhausts 0 s [] offset ↔ h.cursor = offset ∧ offset < s.bytes.size :=
  ⟨fun used => ⟨used.cursor, used.inside⟩, fun here => ⟨rfl, by simp, here.1, here.2⟩⟩

/-- Behind the first command, the rest of them uses up the rest of the limit. -/
theorem exhausts_cons_iff {e : Entry} {log : List Entry} {offset : Nat} :
    h.Exhausts (limit + 1) s (e :: log) offset ↔
      e.GoesOn ∧ e.place.Exhausts limit s log offset := by
  constructor
  · intro used
    obtain ⟨first, others⟩ := List.forall_mem_cons.mp used.goesOn
    have cursor := (congrArg cursor (lastPlace_cons h e log)).symm.trans used.cursor
    exact ⟨first, Nat.succ.inj used.length, others, cursor, used.inside⟩
  · rintro ⟨first, used⟩
    have cursor := (congrArg cursor (lastPlace_cons h e log)).trans used.cursor
    exact ⟨congrArg (· + 1) used.length, List.forall_mem_cons.mpr ⟨first, used.goesOn⟩, cursor,
      used.inside⟩

/-- A run fails at the limit exactly if its budget was used up by commands after which it goes on,
and there is something left to run. -/
theorem error_run_iff (awake : ¬ h.IsAtRest) (sound : h.error = none) (budget offset : Nat) :
    (run driver limit s budget h #[]).1.error = some (.commandLimit limit offset) ↔
      h.Exhausts budget s (h.logInRun driver s budget) offset := by
  -- on the commands that may still be run in this tick
  induction budget generalizing h with
  | zero =>
    rw [run, logInRun, exhaust, exhausts_nil_iff]
    split
    · next beyond =>
      -- the stream is over, which is no failure
      have ended : h.finish.error ≠ some (.commandLimit limit offset) := by simp [finish, sound]
      refine iff_of_false ended ?_
      rintro ⟨rfl, inside⟩
      omega
    · next inside =>
      have failed : (h.fail (.commandLimit limit h.cursor)).1.error =
          some (.commandLimit limit offset) ↔ h.cursor = offset := by simp [fail]
      rw [failed]
      exact (and_iff_left_of_imp fun here => here ▸ Nat.lt_of_not_le inside).symm
  | succ budget ih =>
    have first := reports_step driver s sound
    have nonzero : ¬ 0 < h.rest := fun rests => awake (Or.inr rests)
    rw [run_succ_fst, logInRun]
    by_cases rests : (h.step driver s).1.IsAtRest
    · rw [if_pos rests, if_pos rests, List.append_nil]
      constructor
      · intro failed
        exact absurd failed (error_step_ne sound offset)
      · intro used
        -- the one command that was run, if there was one, is one to rest after
        obtain ⟨e, mem⟩ : ∃ e, e ∈ h.entries driver s := by
          apply List.exists_mem_of_length_pos
          rw [used.length]
          exact Nat.succ_pos budget
        have place : e.place = (h.step driver s).1 := by
          obtain ⟨command, -, rfl⟩ := List.mem_map.mp mem
          rfl
        have going := (not_isAtRest_of_mem_entries nonzero sound mem).mpr (used.goesOn e mem)
        exact absurd (place ▸ rests) going
    · have unfinished : ¬ (h.step driver s).1.IsFinished := fun finished => rests (Or.inl finished)
      obtain ⟨command, ran⟩ := exists_entries unfinished
      have goesOn : Entry.GoesOn ⟨command, (h.step driver s).1⟩ := by
        have mem : ⟨command, (h.step driver s).1⟩ ∈ h.entries driver s := by simp [ran]
        exact (not_isAtRest_of_mem_entries nonzero sound mem).mp rests
      rw [if_neg rests, if_neg rests, ran, ih rests (first.contained.sound unfinished)]
      exact (exhausts_cons_iff.trans (and_iff_right goesOn)).symm

/-- A stream fails at the limit in a tick exactly if the tick was due, as many commands as it may
run have been run in it, the stream goes on after each of them, and there is something left to
run. -/
theorem error_tick_iff (sound : h.error = none) (offset : Nat) :
    (h.tick driver limit s).1.error = some (.commandLimit limit offset) ↔
      h.IsDue ∧ h.woken.Exhausts limit s (h.logInTick driver limit s) offset := by
  have none_ne : h.started.error ≠ some (.commandLimit limit offset) := by
    rw [error_started, sound]
    simp
  by_cases finished : h.IsFinished
  · rw [tick_of_isFinished finished, sound]
    simp [IsDue, finished]
  · have same : h.started.rest = h.rest := by
      unfold started
      split <;> rfl
    rw [tick_of_not_isFinished finished, same]
    -- while there is a rest left no command runs, and afterwards the run decides
    by_cases resting : 1 < h.rest
    · rw [if_pos resting]
      constructor
      · intro failed
        exact absurd failed none_ne
      · intro used
        exact absurd used.1.2 (by omega)
    · have awake : ¬ h.woken.IsAtRest := by
        rintro (ended | rests)
        · exact finished (isFinished_woken.mp ended)
        · exact Nat.lt_irrefl 0 rests
      have due : h.IsDue := ⟨finished, by omega⟩
      have log : h.logInTick driver limit s = h.woken.logInRun driver s limit := by
        rw [logInTick, if_neg (not_or.mpr ⟨finished, by omega⟩)]
        rfl
      rw [if_neg resting, log]
      have soundToo : h.woken.error = none := (error_started h).trans sound
      exact (error_run_iff awake soundToo limit offset).trans (and_iff_right due).symm

end Playhead
end Chiptune
