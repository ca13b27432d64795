import Chiptune.Proofs.Playhead.Log
import Chiptune.Proofs.Playhead.Places
import Chiptune.Proofs.Track.Tick

/-!
# When commands are run

A tick first counts the rest down and then asks whether it is over, so a rest of `n` ticks that is
asked for in one tick ends in the `n`-th tick after it, and a rest of no ticks ends at once.
Nothing else makes a stream wait. The tick in which a command is run can therefore be read off the
rests that were asked for before it (`Track.tick_eq_of_schedule`), wherever the stream has been
in the meantime and whatever has become of the notes.
-/

namespace Chiptune

/-- How many ticks a command makes its stream rest. -/
def Command.ticks : Command → Nat
  | .wait ticks => ticks
  | _ => 0

/-- Each command is in the tick that the rests before it lead to, from the tick `start` on. -/
def OnTime : (start : Nat) → List (Nat × Command) → Prop
  | _, [] => True
  | start, (tick, c) :: later => tick = start ∧ OnTime (start + c.ticks) later

/-- How many ticks some commands make their stream rest. -/
def restOf : List Command → Nat
  | [] => 0
  | c :: later => c.ticks + restOf later

theorem onTime_append {start : Nat} {l m : List (Nat × Command)} :
    OnTime start (l ++ m) ↔ OnTime start l ∧ OnTime (start + restOf (l.map Prod.snd)) m := by
  induction l generalizing start with
  | nil => simp [OnTime, restOf]
  | cons a l ih => simp [OnTime, restOf, ih, Nat.add_assoc, and_assoc]

namespace Playhead

variable {driver : SoundDriver} {limit : Nat} {s : EventStream} {h : Playhead}

/-- The commands of the next ticks, each with the number of its tick. The next one is `first`. -/
def schedule (driver : SoundDriver) (limit : Nat) (s : EventStream) :
    (first ticks : Nat) → Playhead → List (Nat × Command)
  | _, 0, _ => []
  | first, ticks + 1, h =>
    (h.logInTick driver limit s).map (fun e => (first, e.command)) ++
      schedule driver limit s (first + 1) ticks (h.tick driver limit s).1

/-! ## One command

The rest of a playhead behind a command is what the command asks for. -/

/-- A command asks for its own rest and no other. -/
theorem rest_execute (awake : h.rest = 0) (offset : Nat) (c : Command) :
    (h.execute driver offset c).1.rest = c.ticks := by
  -- nothing but a rest changes what is left of it
  cases c with
  | wait ticks =>
    cases ticks with
    | zero => exact awake
    | succ ticks => rfl
  | call target passes =>
    rw [execute]
    split <;> exact awake
  | openLoop passes =>
    rw [execute]
    split <;> exact awake
  | endCall =>
    obtain ⟨_, _, _, same⟩ := exists_endCall_eq h
    simp only [execute, settle, same, awake, Command.ticks]
  | closeLoop =>
    obtain ⟨_, _, _, same⟩ := exists_closeLoop_eq h
    simp only [execute, settle, same, awake, Command.ticks]
  | again target count =>
    obtain ⟨_, _, same⟩ := exists_again_eq h target count
    simp only [execute, settle, same, awake, Command.ticks]
  | _ => exact awake

/-- A step runs a command and rests as long as that asks for, or it finds none. -/
theorem rest_step (driver : SoundDriver) (s : EventStream) (awake : h.rest = 0) :
    h.entries driver s = [] ∧ (h.step driver s).1.IsFinished ∨
      ∃ c, h.entries driver s = [⟨c, (h.step driver s).1⟩] ∧
        (h.step driver s).1.rest = c.ticks := by
  unfold entries command? step
  split
  · exact .inl ⟨rfl, rfl⟩
  · generalize s.decode driver h.cursor h.status = decoded
    obtain ⟨status, e | d⟩ := decoded
    · exact .inl ⟨rfl, rfl⟩
    · exact .inr ⟨d.command, rfl, rest_execute (by exact awake) _ _⟩

/-! ## One tick

The commands of a tick are run without a rest in between. The last one leaves a rest behind, or else
the stream is over. -/

/-- Within a tick only the last command asks for a rest. -/
theorem onTime_logInRun (budget first : Nat) (awake : h.rest = 0) :
    OnTime first ((h.logInRun driver s budget).map fun e => (first, e.command)) := by
  -- on the commands that may still be run
  induction budget generalizing h with
  | zero => trivial
  | succ budget ih =>
    rw [logInRun]
    rcases rest_step driver s awake with ⟨none, finished⟩ | ⟨c, one, hrest⟩
    · have rests : (h.step driver s).1.IsAtRest := Or.inl finished
      rw [none, if_pos rests]
      trivial
    · rw [one]
      split
      · exact ⟨rfl, trivial⟩
      · next going =>
        have still : (h.step driver s).1.rest = 0 :=
          Nat.eq_zero_of_not_pos fun rests => going (Or.inr rests)
        refine ⟨rfl, ?_⟩
        rw [← hrest, still]
        exact ih still

/-- A tick that does not finish the stream leaves it with the rest that its commands have asked
for, and that is one. -/
theorem rest_run (budget : Nat) (awake : h.rest = 0)
    (unfinished : ¬ (run driver limit s budget h #[]).1.IsFinished) :
    0 < (run driver limit s budget h #[]).1.rest ∧
      (run driver limit s budget h #[]).1.rest =
        restOf ((h.logInRun driver s budget).map Entry.command) := by
  induction budget generalizing h with
  | zero =>
    refine absurd ?_ unfinished
    rw [run, exhaust]
    split <;> rfl
  | succ budget ih =>
    rw [run_succ_fst] at unfinished ⊢
    rw [logInRun]
    split
    · next rests =>
      rw [if_pos rests] at unfinished
      obtain ⟨c, one, hrest⟩ :=
        (rest_step driver s awake).resolve_left fun none => unfinished none.2
      rw [one]
      exact ⟨rests.resolve_left unfinished, hrest⟩
    · next going =>
      rw [if_neg going] at unfinished
      have still : (h.step driver s).1.rest = 0 :=
        Nat.eq_zero_of_not_pos fun rests => going (Or.inr rests)
      obtain ⟨c, one, hrest⟩ :=
        (rest_step driver s awake).resolve_left fun none => going (Or.inl none.2)
      obtain ⟨pos, same⟩ := ih still unfinished
      refine ⟨pos, same.trans ?_⟩
      rw [one]
      simp [restOf, ← hrest, still]

/-! ## Many ticks

A rest of `n` ticks takes up the next `n - 1` ticks without a command, and so the ticks of the
commands are the sums of the rests. The induction is on the ticks, with what is left of the present
rest in front. -/

theorem schedule_of_isFinished (finished : h.IsFinished) (first ticks : Nat) :
    h.schedule driver limit s first ticks = [] := by
  induction ticks generalizing first with
  | zero => rfl
  | succ ticks ih =>
    rw [schedule, logInTick, if_pos (Or.inl finished), tick_of_isFinished finished, ih]
    rfl

/-- A playhead that has `rest` ticks to go begins with the last of them, or at once. -/
theorem onTime_schedule (first ticks : Nat) (h : Playhead) :
    OnTime (first + (h.rest - 1)) (h.schedule driver limit s first ticks) := by
  induction ticks generalizing first h with
  | zero => trivial
  | succ ticks ih =>
    by_cases finished : h.IsFinished
    · rw [schedule_of_isFinished finished]
      trivial
    · have hstarted : h.started.rest = h.rest := by
        unfold started
        split <;> rfl
      have later := ih (first + 1) (h.tick driver limit s).1
      rw [schedule, logInTick]
      -- a tick of a rest leaves one tick less to wait for what comes next
      by_cases resting : 1 < h.started.rest
      · rw [if_pos (Or.inr resting)]
        have shorter : (h.tick driver limit s).1.rest = h.rest - 1 := by
          rw [tick_of_not_isFinished finished, if_pos resting]
          exact congrArg (· - 1) hstarted
        have same : first + 1 + ((h.tick driver limit s).1.rest - 1) = first + (h.rest - 1) := by
          omega
        rwa [same] at later
      · rw [if_neg (not_or.mpr ⟨finished, resting⟩)]
        -- in a tick that is awake, the commands are on time now
        have now : first + (h.rest - 1) = first := by omega
        rw [now, onTime_append]
        refine ⟨onTime_logInRun limit first rfl, ?_⟩
        by_cases ended : (h.tick driver limit s).1.IsFinished
        · rw [schedule_of_isFinished ended]
          trivial
        · have hrun : h.tick driver limit s = h.woken.run driver limit s limit #[] := by
            rw [tick_of_not_isFinished finished, if_neg resting, woken]
          rw [hrun] at ended later ⊢
          obtain ⟨pos, hrest⟩ := rest_run limit rfl ended
          have same : first + 1 + ((h.woken.run driver limit s limit #[]).1.rest - 1) =
              first + (h.woken.run driver limit s limit #[]).1.rest := by
            omega
          rw [same, hrest] at later
          rw [List.map_map]
          exact later

end Playhead

namespace Track

/-- What a track finds when its next tick comes: the stage as others have left it, and its notes and
its mute as the host has. -/
structure Moment where
  notes : List Note
  muted : Bool
  stage : Stage

/-- The commands that a track runs, each with the number of its tick, where it passes one tick at
each of some moments. The next tick is `first`. -/
def schedule (env : Setting) : (first : Nat) → Track → List Moment → List (Nat × Command)
  | _, _, [] => []
  | first, t, m :: moments =>
    (t.head.logInTick env.driver env.commandLimit t.source.stream).map
        (fun e => (first, e.command)) ++
      schedule env (first + 1) ({ t with notes := m.notes, muted := m.muted }.tick env m.stage).1
        moments

/-- Notes, mute and stage never reach the playhead. -/
theorem schedule_eq (env : Setting) (first : Nat) (t : Track) (moments : List Moment) :
    t.schedule env first moments =
      t.head.schedule env.driver env.commandLimit t.source.stream first moments.length := by
  induction moments generalizing first t with
  | nil => rfl
  | cons m moments ih =>
    obtain ⟨notes, ticked⟩ := tick_eq env { t with notes := m.notes, muted := m.muted } m.stage
    rw [schedule, ih, ticked]
    rfl

/-- A track that starts anew runs each command in the tick that the rests before it add up to,
counted from the first one. -/
theorem tick_eq_of_schedule (env : Setting) (t : Track) (moments : List Moment)
    {before later : List (Nat × Command)} {tick : Nat} {c : Command}
    (runs : (t.reset env.driver).schedule env 1 moments = before ++ (tick, c) :: later) :
    tick = 1 + restOf (before.map Prod.snd) := by
  have onTime : OnTime 1 ((t.reset env.driver).schedule env 1 moments) := by
    rw [schedule_eq]
    exact Playhead.onTime_schedule 1 moments.length (.atStart env.driver t.source.start)
  rw [runs, onTime_append] at onTime
  exact onTime.2.1

/-- A stream of M4A with a rest in a body that is run twice, and rests of no ticks and of one behind
it. -/
def restsTwice : Track :=
  .atStart .m4a 0
    (.ofBytes ⟨#[0xBE, 100, 0x83, 0xB5, 2, 0, 0, 0, 0, 0x80, 0xBE, 50, 0x81, 0xB1]⟩)

theorem tick_eq_of_schedule_restsTwice :
    let env : Setting := { driver := .m4a, bank := {}, sampleRate := 100, commandLimit := 10 }
    let moment : Moment :=
      { notes := [], muted := false, stage := { pool := .empty 1, tempo := 150, notices := {} } }
    let before : List (Nat × Command) :=
      [(1, .volume 100), (1, .wait 3), (4, .again 0 2), (4, .volume 100), (4, .wait 3),
        (7, .again 0 2), (7, .wait 0), (7, .volume 50), (7, .wait 1)]
    (restsTwice.reset .m4a).schedule env 1 (.replicate 9 moment) = before ++ [(8, .finish)] ∧
      8 = 1 + restOf (before.map Prod.snd) := by
  intro env moment before
  have runs :
      (restsTwice.reset .m4a).schedule env 1 (.replicate 9 moment) = before ++ [(8, .finish)] := by
    decide +kernel
  exact ⟨runs, tick_eq_of_schedule env restsTwice (.replicate 9 moment) runs⟩

end Track
end Chiptune
