import Chiptune.Proofs.Playhead.Log
import Chiptune.Proofs.Playhead.Places
import Mathlib.Data.List.TakeWhile

/-!
# Coming back from a call

Calls and loops are kept in one list, innermost first. The end of a called body looks for the first
call in it, and gives up the loops above. So it belongs to the innermost call, whatever was opened
inside it, and what is below that call stays as it was
(`Playhead.return_belongs_to_innermost_call`). The place where a call goes on is the one behind the
command that opened it, and what is below is what was open there (`Playhead.exists_openSince`).

Where no call is open, all loops are above the one that is looked for. They are given up as well,
with all the passes that they had to go (`strayReturn`).
-/

namespace Chiptune

/-- Loops may be open, but no call. -/
def OnlyLoops (nestings : List Nesting) : Prop := ∀ n ∈ nestings, n.isLoop

instance (nestings : List Nesting) : Decidable (OnlyLoops nestings) :=
  inferInstanceAs (Decidable (∀ _ ∈ _, _))

/-- Either no call is open, or there is an innermost one, with only loops above it. -/
theorem onlyLoops_or_exists_call (nestings : List Nesting) :
    OnlyLoops nestings ∨ ∃ loops resume target passes outer,
      OnlyLoops loops ∧ nestings = loops ++ .call resume target passes :: outer := by
  induction nestings with
  | nil => exact .inl (by simp [OnlyLoops])
  | cons n nestings ih =>
    cases n with
    | call resume target passes =>
      exact .inr ⟨[], resume, target, passes, nestings, by simp [OnlyLoops], rfl⟩
    | loop target passes =>
      rcases ih with none | ⟨loops, resume, target', passes', outer, only, rfl⟩
      · exact .inl (List.forall_mem_cons.mpr ⟨rfl, none⟩)
      · exact .inr ⟨.loop target passes :: loops, resume, target', passes', outer,
          List.forall_mem_cons.mpr ⟨rfl, only⟩, rfl⟩

/-- The command opens a call or a loop. -/
def Command.Opens : Command → Prop
  | call _ _ => True
  | openLoop _ => True
  | _ => False

/-- Not more passes than that; without a number there is no end of them. -/
abbrev FewerPasses : Option Nat → Option Nat → Prop := Option.Rel (· ≤ ·)

theorem FewerPasses.refl (passes : Option Nat) : FewerPasses passes passes := by
  cases passes with
  | none => exact .none
  | some n => exact .some (Nat.le_refl n)

theorem FewerPasses.trans {a b c : Option Nat} (ab : FewerPasses a b) (bc : FewerPasses b c) :
    FewerPasses a c := by
  cases ab with
  | none => exact bc
  | some le =>
    cases bc with
    | some le' => exact .some (Nat.le_trans le le')

/-- The same call or loop, some passes later. -/
inductive Nesting.Later : Nesting → Nesting → Prop
  | call {resume target : Nat} {passes passes' : Option Nat} (fewer : FewerPasses passes' passes) :
    Later (.call resume target passes) (.call resume target passes')
  | loop {target : Nat} {passes passes' : Option Nat} (fewer : FewerPasses passes' passes) :
    Later (.loop target passes) (.loop target passes')

/-- What a command may make of the nestings that are open, if the next one is at `behind`. -/
inductive NestingChange (behind : Nat) (nestings : List Nesting) : Command → List Nesting → Prop
  | call (target : Nat) (passes : Option Nat) :
    NestingChange behind nestings (.call target passes) (.call behind target passes :: nestings)
  | openLoop (passes : Option Nat) :
    NestingChange behind nestings (.openLoop passes) (.loop behind passes :: nestings)
  /-- A nesting is passed again, after those inside it have been left. -/
  | again {n n' : Nesting} {outer : List Nesting} (c : Command) (found : n :: outer <:+ nestings)
      (later : n.Later n') :
    NestingChange behind nestings c (n' :: outer)
  /-- Some of the innermost nestings are left, or none. -/
  | leave {outer : List Nesting} (c : Command) (found : outer <:+ nestings) :
    NestingChange behind nestings c outer

namespace NestingChange

variable {behind : Nat} {nestings after : List Nesting} {c : Command}

/-- A call that is open behind a command was open before it, or this command has opened it. -/
theorem exists_before {resume target : Nat} {passes : Option Nat} {outer : List Nesting}
    (change : NestingChange behind nestings c after)
    (opened : .call resume target passes :: outer <:+ after) :
    (∃ passes', FewerPasses passes passes' ∧ .call resume target passes' :: outer <:+ nestings) ∨
      c = .call target passes ∧ behind = resume ∧ nestings = outer := by
  -- the call was open before, or it is the one that this change has opened
  cases change with
  | call target' passes' =>
    rcases List.suffix_cons_iff.mp opened with same | below
    · cases same
      exact .inr ⟨rfl, rfl, rfl⟩
    · exact .inl ⟨passes, .refl passes, below⟩
  | openLoop passes' =>
    rcases List.suffix_cons_iff.mp opened with same | below
    · cases same
    · exact .inl ⟨passes, .refl passes, below⟩
  | @again n n' outer' _ found later =>
    rcases List.suffix_cons_iff.mp opened with same | below
    · -- it is the nesting that has a pass less now
      cases same
      cases later with
      | call fewer => exact .inl ⟨_, fewer, found⟩
    · exact .inl ⟨passes, .refl passes, below.trans ((List.suffix_cons n outer').trans found)⟩
  | leave _ found => exact .inl ⟨passes, .refl passes, opened.trans found⟩

theorem length_le (change : NestingChange behind nestings c after) (closed : ¬ c.Opens) :
    after.length ≤ nestings.length := by
  cases change with
  | call => exact absurd trivial closed
  | openLoop => exact absurd trivial closed
  | again _ found _ => exact found.length_le
  | leave _ found => exact found.length_le

end NestingChange

namespace Playhead

variable {driver : SoundDriver} {s : EventStream} {h : Playhead}

/-! ## The end of a pass

What a return does to the nestings, with a call open and without one. -/

/-- With a call open, the end of a body ends a pass of the innermost one. -/
theorem endCall_of_call {loops outer : List Nesting} {resume target : Nat} {passes : Option Nat}
    (only : OnlyLoops loops) (opened : h.nestings = loops ++ .call resume target passes :: outer) :
    h.endCall = h.endPass target passes (.call resume target)
      { h with cursor := resume, nestings := outer } outer := by
  have found : h.nestings.dropWhile Nesting.isLoop = .call resume target passes :: outer := by
    rw [opened, List.dropWhile_append_of_pos only]
    rfl
  simp only [endCall, found]

/-- With no call open, it gives up every loop. -/
theorem endCall_of_onlyLoops (only : OnlyLoops h.nestings) :
    h.endCall = { h with nestings := [] } := by
  have none : h.nestings.dropWhile Nesting.isLoop = [] := List.dropWhile_eq_nil_iff.mpr only
  simp only [endCall, none]

/-- What the end of a pass of a call makes of a playhead: another pass, or the way on behind the
call. In both cases the nestings below the call stay open. -/
inductive PassEnds (h : Playhead) (resume target : Nat) (outer : List Nesting) :
    (passes : Option Nat) → Playhead → Prop
  /-- There are passes left, and the body begins again. -/
  | next (n : Nat) :
    PassEnds h resume target outer (some (n + 2))
      { h with cursor := target, nestings := .call resume target (some (n + 1)) :: outer }
  /-- That was the last pass, and the call is left. -/
  | last {n : Nat} (le : n ≤ 1) :
    PassEnds h resume target outer (some n) { h with cursor := resume, nestings := outer }
  /-- Without a number of passes the body begins again each time. -/
  | endless :
    PassEnds h resume target outer none
      { h with
        cursor := target
        nestings := .call resume target none :: outer
        loopCount := h.loopCount + 1 }

theorem passEnds_endPass (h : Playhead) (resume target : Nat) (passes : Option Nat)
    (outer : List Nesting) :
    PassEnds h resume target outer passes
      (h.endPass target passes (.call resume target) { h with cursor := resume, nestings := outer }
        outer) := by
  cases passes with
  | none => exact .endless
  | some n =>
    rw [endPass]
    split
    · next more =>
      obtain ⟨n, rfl⟩ := Nat.exists_eq_add_of_le' more
      exact .next n
    · next last => exact .last (Nat.le_of_not_lt last)

theorem nestingChange_endPass {leave : Playhead} {passes : Option Nat}
    {again : Option Nat → Nesting} {outer : List Nesting} (behind target : Nat) (c : Command)
    (found : again passes :: outer <:+ h.nestings) (left : leave.nestings = outer)
    (later : ∀ {passes'}, FewerPasses passes' passes → (again passes).Later (again passes')) :
    NestingChange behind h.nestings c (h.endPass target passes again leave outer).nestings := by
  unfold endPass
  split
  · next n =>
    split
    · exact .again c found (later (.some (Nat.sub_le n 1)))
    · rw [left]
      exact .leave c ((List.suffix_cons _ outer).trans found)
  · exact .again c found (later .none)

theorem nestingChange_endCall (behind : Nat) (h : Playhead) :
    NestingChange behind h.nestings .endCall h.endCall.nestings := by
  rcases onlyLoops_or_exists_call h.nestings with
    only | ⟨loops, resume, target, passes, outer, only, opened⟩
  · rw [endCall_of_onlyLoops only]
    exact .leave _ List.nil_suffix
  · rw [endCall_of_call only opened]
    exact nestingChange_endPass behind target _ ⟨loops, opened.symm⟩ rfl .call

theorem nestingChange_closeLoop (behind : Nat) (h : Playhead) :
    NestingChange behind h.nestings .closeLoop h.closeLoop.nestings := by
  unfold closeLoop
  split
  · next target passes outer opened =>
    exact nestingChange_endPass behind target _ ⟨[], opened.symm⟩ rfl .loop
  · exact .leave _ (List.suffix_refl _)

/-! ## Step by step

Each command opens one nesting, ends some, or leaves them. So a nesting that is open after a command
was open before, or has been opened by it. -/

theorem nestingChange_execute (driver : SoundDriver) (offset : Nat) (h : Playhead) (c : Command) :
    NestingChange h.cursor h.nestings c (h.execute driver offset c).1.nestings := by
  have kept : NestingChange h.cursor h.nestings c h.nestings := .leave c (List.suffix_refl _)
  -- a full stack ends the stream, and then nothing is open any more
  cases c with
  | call target passes =>
    rw [execute]
    split
    · exact .call target passes
    · exact .leave _ List.nil_suffix
  | openLoop passes =>
    rw [execute]
    split
    · exact .openLoop passes
    · exact .leave _ List.nil_suffix
  | endCall => exact nestingChange_endCall h.cursor h
  | closeLoop => exact nestingChange_closeLoop h.cursor h
  | finish => exact .leave _ List.nil_suffix
  | again target count =>
    obtain ⟨_, _, same⟩ := exists_again_eq h target count
    simp only [execute, settle, same]
    exact kept
  | wait ticks => cases ticks <;> exact kept
  | _ => exact kept

/-- From one command to the next everything is closed, or the nestings change as that command
makes them. -/
theorem nestingChange_hop (driver : SoundDriver) (s : EventStream) (unfinished : ¬ h.IsFinished) :
    (h.hop driver s).nestings = [] ∨ ∃ status d,
      s.decode driver h.cursor h.status = (status, .ok d) ∧
        h.command? driver s = some d.command ∧
        NestingChange (h.cursor + d.length) h.nestings d.command (h.hop driver s).nestings := by
  rw [hop, if_neg unfinished]
  show (h.step driver s).1.nestings = [] ∨ ∃ status d,
    s.decode driver h.cursor h.status = (status, .ok d) ∧
      h.command? driver s = some d.command ∧
      NestingChange (h.cursor + d.length) h.nestings d.command (h.step driver s).1.nestings
  -- the stream is over, or there is an error, or there is a command
  unfold step command?
  split
  · exact .inl rfl
  · cases decoded : s.decode driver h.cursor h.status with
    | mk status result =>
      cases result with
      | error e => exact .inl rfl
      | ok d =>
        exact .inr ⟨status, d, rfl, rfl, nestingChange_execute driver h.cursor
          { h with status, cursor := h.cursor + d.length } d.command⟩

/-- A call that is open was open before, or it has just been opened, and goes on behind its
command. -/
theorem exists_open_before {resume target : Nat} {passes : Option Nat} {outer : List Nesting}
    (unfinished : ¬ h.IsFinished)
    (opened : .call resume target passes :: outer <:+ (h.hop driver s).nestings) :
    (∃ passes', FewerPasses passes passes' ∧ .call resume target passes' :: outer <:+ h.nestings) ∨
      ∃ status d, s.decode driver h.cursor h.status = (status, .ok d) ∧
        d.command = .call target passes ∧ h.cursor + d.length = resume ∧ h.nestings = outer := by
  rcases nestingChange_hop driver s unfinished with
    closed | ⟨status, d, decoded, -, change⟩
  · rw [closed] at opened
    cases List.suffix_nil.mp opened
  · rcases change.exists_before opened with before | ⟨called, behind, outside⟩
    · exact .inl before
    · exact .inr ⟨status, d, decoded, called, behind, outside⟩

/-- What opens nothing leaves not more open than there was. -/
theorem length_nestings_hop_le (plain : ∀ e ∈ h.trace driver s 1, ¬ e.command.Opens) :
    (h.hop driver s).nestings.length ≤ h.nestings.length := by
  by_cases finished : h.IsFinished
  · rw [hop_of_isFinished finished]
  · rcases nestingChange_hop driver s finished with
      closed | ⟨_, d, -, found, change⟩
    · rw [closed]
      exact Nat.zero_le _
    · apply change.length_le
      apply plain ⟨d.command, (h.step driver s).1⟩
      rw [trace, if_neg finished, entries, found]
      exact List.mem_cons_self

theorem nestings_iterate_hop_eq_nil (none : h.nestings = []) (n : Nat)
    (plain : ∀ e ∈ h.trace driver s n, ¬ e.command.Opens) :
    ((hop driver s)^[n] h).nestings = [] := by
  induction n generalizing h with
  | zero => exact none
  | succ n ih =>
    rw [Nat.add_comm, trace_add] at plain
    have short := length_nestings_hop_le fun e mem => plain e (List.mem_append_left _ mem)
    rw [none] at short
    have still : (h.hop driver s).nestings = [] :=
      List.eq_nil_of_length_eq_zero (Nat.le_zero.mp short)
    exact ih still fun e mem => plain e (List.mem_append_right _ mem)

/-! ## Where a call was opened

By induction on the commands that were run: every call that is open has a moment at which it was
opened, and has been open ever since. -/

/-- The playhead finds the command that opens the call, and `outer` is open then. -/
structure OpensCall (driver : SoundDriver) (s : EventStream) (h : Playhead) (resume target : Nat)
    (passes : Option Nat) (outer : List Nesting) : Prop where
  unfinished : ¬ h.IsFinished
  /-- The call that stands there leads to `target` and is followed by `resume`. -/
  found : ∃ status count length,
    s.decode driver h.cursor h.status = (status, .ok ⟨.call target count, length⟩) ∧
      h.cursor + length = resume ∧ FewerPasses passes count
  nestings_eq : h.nestings = outer

/-- The call is open, with as many passes to go or more. -/
def HasOpen (h : Playhead) (resume target : Nat) (passes : Option Nat) (outer : List Nesting) :
    Prop :=
  ∃ passes', FewerPasses passes passes' ∧ .call resume target passes' :: outer <:+ h.nestings

/-- On the way from `start`, the call was opened by the command at moment `m`, and it has been open
from then on up to moment `n`. -/
structure OpenSince (driver : SoundDriver) (s : EventStream) (start : Playhead)
    (resume target : Nat) (passes : Option Nat) (outer : List Nesting) (m n : Nat) : Prop where
  earlier : m < n
  /-- It was opened at moment `m`. -/
  opens : OpensCall driver s ((hop driver s)^[m] start) resume target passes outer
  /-- It was open at each moment since. -/
  stays : ∀ k, m < k → k ≤ n → HasOpen ((hop driver s)^[k] start) resume target passes outer

section OpenSince

variable {start : Playhead} {resume target m n : Nat} {passes passes' : Option Nat}
  {outer : List Nesting}

theorem OpensCall.mono (fewer : FewerPasses passes passes')
    (opens : OpensCall driver s h resume target passes' outer) :
    OpensCall driver s h resume target passes outer := by
  obtain ⟨status, count, length, decoded, behind, fewer'⟩ := opens.found
  exact ⟨opens.unfinished, ⟨status, count, length, decoded, behind, fewer.trans fewer'⟩,
    opens.nestings_eq⟩

/-- The command that was run last has opened the call. -/
theorem OpensCall.openSince
    (opens : OpensCall driver s ((hop driver s)^[n] start) resume target passes outer)
    (now : HasOpen ((hop driver s)^[n + 1] start) resume target passes outer) :
    OpenSince driver s start resume target passes outer n (n + 1) := by
  refine ⟨Nat.lt_succ_self n, opens, ?_⟩
  intro k after upTo
  obtain rfl : k = n + 1 := Nat.le_antisymm upTo after
  exact now

/-- The command that was run last has left the call open. -/
theorem OpenSince.succ (since : OpenSince driver s start resume target passes' outer m n)
    (fewer : FewerPasses passes passes')
    (now : HasOpen ((hop driver s)^[n + 1] start) resume target passes outer) :
    OpenSince driver s start resume target passes outer m (n + 1) := by
  refine ⟨Nat.lt_succ_of_lt since.earlier, since.opens.mono fewer, ?_⟩
  intro k after upTo
  rcases Nat.le_succ_iff.mp upTo with before | rfl
  · obtain ⟨passes'', fewer', still⟩ := since.stays k after before
    exact ⟨passes'', fewer.trans fewer', still⟩
  · exact now

/-- Every call that is open was opened by a command that was run before, and has been open ever
since. It goes on right behind that command, and below it is what was open there. -/
theorem exists_openSince (fresh : start.nestings = []) (n : Nat)
    (opened : .call resume target passes :: outer <:+ ((hop driver s)^[n] start).nestings) :
    ∃ m, OpenSince driver s start resume target passes outer m n := by
  -- on the commands that were run; further back, the call may have had more passes to go
  induction n generalizing passes with
  | zero =>
    rw [Function.iterate_zero_apply, fresh] at opened
    cases List.suffix_nil.mp opened
  | succ n ih =>
    have now : HasOpen ((hop driver s)^[n + 1] start) resume target passes outer :=
      ⟨passes, .refl passes, opened⟩
    rw [Function.iterate_succ_apply'] at opened
    by_cases finished : ((hop driver s)^[n] start).IsFinished
    · rw [hop_of_isFinished finished] at opened
      obtain ⟨m, since⟩ := ih opened
      exact ⟨m, since.succ (.refl passes) now⟩
    · rcases exists_open_before finished opened with
        ⟨passes', fewer, before⟩ | ⟨status, d, decoded, called, behind, outside⟩
      · obtain ⟨m, since⟩ := ih before
        exact ⟨m, since.succ fewer now⟩
      · have opens : OpensCall driver s ((hop driver s)^[n] start) resume target passes outer := by
          refine ⟨finished, ⟨status, passes, d.length, ?_, behind, .refl passes⟩, outside⟩
          rw [decoded, ← called]
        exact ⟨n, opens.openSince now⟩

end OpenSince

/-! ## Returns

The two parts together: the innermost call that is open is the one that was opened last, and that is
the one that a return belongs to. -/

/-- A return ends a pass of the innermost call, with all loops that were opened inside it, and
leaves what is below that call as it is. The call was opened by an earlier command, and it is behind
that command that a return goes on after the last pass. Where no call is open, a return stays where
it is, but it gives up all loops. They get no further pass: until something new is opened, nothing
is open, and the end of a loop goes straight on. -/
theorem return_belongs_to_innermost_call (driver : SoundDriver) (offset : Nat) (h : Playhead) :
    (∀ loops resume target passes outer, OnlyLoops loops →
      h.nestings = loops ++ .call resume target passes :: outer →
      (∃ h', PassEnds h resume target outer passes h' ∧
        h.execute driver offset .endCall = (h'.settle, [])) ∧
      ∀ s start n, start.nestings = [] → (hop driver s)^[n] start = h →
        ∃ m, OpenSince driver s start resume target passes outer m n) ∧
    (OnlyLoops h.nestings →
      h.execute driver offset .endCall = ({ h with nestings := [] }.settle, []) ∧
      (h.nestings = [] → h.execute driver offset .endCall = h.execute driver offset .nop) ∧
      ∀ s n, (∀ e ∈ (h.execute driver offset .endCall).1.trace driver s n, ¬ e.command.Opens) →
        let later := (hop driver s)^[n] (h.execute driver offset .endCall).1
        later.nestings = [] ∧
          ∀ place, later.execute driver place .closeLoop = later.execute driver place .nop) := by
  constructor
  -- with an open call, all loops above it are left
  · intro loops resume target passes outer only opened
    constructor
    · refine ⟨h.endCall, ?_, rfl⟩
      rw [endCall_of_call only opened]
      exact passEnds_endPass h resume target passes outer
    · intro s start n fresh here
      apply exists_openSince fresh
      rw [here]
      exact ⟨loops, opened.symm⟩
  · intro only
    -- without one, all loops are left just the same, though there is nothing to return to
    have given : h.execute driver offset .endCall = ({ h with nestings := [] }.settle, []) := by
      rw [execute, endCall_of_onlyLoops only]
    refine ⟨given, ?_, ?_⟩
    · intro none
      rw [given, execute, ← none]
    · intro s n plain later
      have nothing : (h.execute driver offset .endCall).1.nestings = [] := by
        rw [given]
        rfl
      have closed : later.nestings = [] := nestings_iterate_hop_eq_nil nothing n plain
      refine ⟨closed, ?_⟩
      intro place
      rw [execute, execute, closeLoop, closed]

/-- A stream of SDAT with a loop around a call. The called body opens a loop of its own and returns
in the middle of it. -/
def returnInLoop : EventStream :=
  { bytes := ⟨#[0xD4, 2, 0x95, 8, 0, 0, 0xFC, 0xFF, 0xD4, 3, 0xFD]⟩ }

/-- A stream of SDAT that returns in a loop of two passes, where nothing was called. Behind the
return it rests. -/
def strayReturn : EventStream :=
  { bytes := ⟨#[0xD4, 2, 0xFD, 0x80, 1, 0xFC, 0xFF]⟩ }

theorem return_belongs_to_innermost_call_returnInLoop :
    let start := atStart .sdat 0
    let h := (hop .sdat returnInLoop)^[3] start
    let stray := (hop .sdat strayReturn)^[1] start
    (h.nestings = [.loop 10 (some 3), .call 6 8 (some 1), .loop 2 (some 2)] ∧
      h.execute .sdat 10 .endCall =
        ({ h with cursor := 6, nestings := [.loop 2 (some 2)] }.settle, []) ∧
      ∃ m, OpenSince .sdat returnInLoop start 6 8 (some 1) [.loop 2 (some 2)] m 3) ∧
    (stray.nestings = [.loop 2 (some 2)] ∧
      stray.execute .sdat 2 .endCall = ({ stray with nestings := [] }.settle, [])) := by
  intro start h stray
  constructor
  · have opened : h.nestings = [.loop 10 (some 3), .call 6 8 (some 1), .loop 2 (some 2)] := by
      decide +kernel
    obtain ⟨ends, opens⟩ := (return_belongs_to_innermost_call .sdat 10 h).1 [.loop 10 (some 3)] 6 8
      (some 1) [.loop 2 (some 2)] (by decide) opened
    refine ⟨opened, ?_, ?_⟩
    · obtain ⟨h', back, executed⟩ := ends
      cases back
      exact executed
    · exact opens returnInLoop start 3 rfl rfl
  · have opened : stray.nestings = [.loop 2 (some 2)] := by decide +kernel
    have only : OnlyLoops stray.nestings := by
      rw [opened]
      decide
    exact ⟨opened, ((return_belongs_to_innermost_call .sdat 2 stray).2 only).1⟩

/-- The stray return gives up the loop. So the end of the loop does not go back to its start at 2,
and the stream is over after one pass. -/
theorem strayReturn_gives_up_loop :
    let moment (n : Nat) := (hop .sdat strayReturn)^[n] (atStart .sdat 0)
    ((moment 1).nestings = [.loop 2 (some 2)] ∧ OnlyLoops (moment 1).nestings ∧
        (moment 1).command? .sdat strayReturn = some .endCall) ∧
      (moment 2).nestings = [] ∧
      ((moment 3).command? .sdat strayReturn = some .closeLoop ∧ (moment 4).cursor = 6) ∧
      (moment 5).IsFinished := by
  decide +kernel

end Playhead
end Chiptune
