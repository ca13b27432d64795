import Chiptune.Proofs.Playhead.Ending
import Chiptune.Proofs.Track.Tick

/-!
# A tick of a track, command by command

A tick runs all commands of the playhead and carries out what they ask for when the playhead is at
rest. No effect ever reaches a playhead, so it makes no difference if each command is carried out
before the next one is run. `Track.workOff` does it in that order, and `Track.tick_eq_workOff` says
that it comes to the same. With this, what one command does to a track can be studied by itself, as
`Track.perform`.
-/

namespace Chiptune.Track

variable {env : Setting}

/-- The playhead has moved, and what it asks for is done. -/
def obey (env : Setting) (moved : Playhead × List Effect) (t : Track) (st : Stage) :
    Track × Stage :=
  applyAll env moved.2 { t with head := moved.1 } st

/-- Carry out a command that was found at `offset`. -/
def perform (env : Setting) (offset : Nat) (command : Command) (t : Track) (st : Stage) :
    Track × Stage :=
  t.obey env (t.head.execute env.driver offset command) st

/-- Run commands and carry each of them out at once, until the playhead is at rest. At most `budget`
commands are run. -/
def workOff (env : Setting) : (budget : Nat) → Track → Stage → Track × Stage
  | 0, t, st => t.obey env (t.head.exhaust env.commandLimit t.source.stream) st
  | budget + 1, t, st =>
    let (t, st) := t.obey env (t.head.step env.driver t.source.stream) st
    if t.head.IsAtRest then (t, st) else workOff env budget t st

/-- A step performs the command under the cursor. -/
theorem obey_step {t : Track} {status : Status} {d : Decoded} (st : Stage)
    (more : t.head.cursor < t.source.stream.bytes.size)
    (decoded : t.source.stream.decode env.driver t.head.cursor t.head.status = (status, .ok d)) :
    t.obey env (t.head.step env.driver t.source.stream) st =
      ({ t with
          head := { t.head with status, cursor := t.head.cursor + d.length } } : Track).perform
        env t.head.cursor d.command st := by
  rw [Playhead.step, if_neg (Nat.not_le_of_gt more), decoded]
  rfl

/-! ## Effects do not look at the playhead

An effect changes the notes and the stage, and it finds the same whether the playhead has moved on
already or not. -/

theorem applyAll_append (effects later : List Effect) (t : Track) (st : Stage) :
    applyAll env (effects ++ later) t st =
      applyAll env later (applyAll env effects t st).1 (applyAll env effects t st).2 := by
  unfold applyAll
  rw [List.foldl_append]

theorem apply_moved (head : Playhead) (t : Track) (st : Stage) (e : Effect) :
    ({ t with head } : Track).apply env st e =
      ({ (t.apply env st e).1 with head }, (t.apply env st e).2) := by
  cases e with
  | noteOn key velocity duration c =>
    simp only [apply, noteOn]
    split
    · simp only [hold, makeRoom]
      split <;> rfl
    · rfl
  | _ => rfl

theorem applyAll_moved (head : Playhead) (effects : List Effect) (t : Track) (st : Stage) :
    applyAll env effects { t with head } st =
      ({ (applyAll env effects t st).1 with head }, (applyAll env effects t st).2) := by
  induction effects generalizing t st with
  | nil => rfl
  | cons e effects ih => rw [applyAll_cons, applyAll_cons, apply_moved, ih]

@[simp] theorem head_obey (moved : Playhead × List Effect) (t : Track) (st : Stage) :
    (t.obey env moved st).1.head = moved.1 := by
  rw [obey, applyAll_moved]

/-- What was asked for before may be carried out before the playhead moves. -/
theorem obey_append (head : Playhead) (effects later : List Effect) (t : Track) (st : Stage) :
    t.obey env (head, effects ++ later) st =
      (applyAll env effects t st).1.obey env (head, later) (applyAll env effects t st).2 := by
  have first : applyAll env effects { t with head } st = _ := applyAll_moved head effects t st
  unfold obey
  rw [applyAll_append, first]

/-! ## The commands of a tick

So each command may be carried out at once, before the next one is decoded. Proofs can then follow a
tick command by command. -/

/-- A run of commands that begins with some effects left to do. -/
theorem obey_run (budget : Nat) (effects : Array Effect) (t : Track) (st : Stage) :
    let run := t.head.run env.driver env.commandLimit t.source.stream budget effects
    t.obey env (run.1, run.2.toList) st =
      (applyAll env effects.toList t st).1.workOff env budget
        (applyAll env effects.toList t st).2 := by
  -- along the run, with what was asked for before as a parameter
  induction budget generalizing t effects with
  | zero =>
    obtain ⟨notes, same⟩ := applyAll_fst env effects.toList t st
    simp only [Playhead.run, workOff, same, Array.appendList_eq_append, Array.toList_appendList]
    rw [obey_append, same]
  | succ budget ih =>
    obtain ⟨notes, same⟩ := applyAll_fst env effects.toList t st
    let moved := t.head.step env.driver t.source.stream
    have done : t.obey env (moved.1, effects.toList ++ moved.2) st =
        { t with notes }.obey env moved (applyAll env effects.toList t st).2 := by
      rw [obey_append, same]
    simp only [Playhead.run, workOff, same, Array.appendList_eq_append, head_obey]
    split
    · rw [Array.toList_appendList]
      exact done
    · have rest := ih (effects ++ moved.2) { t with head := moved.1 }
      rw [Array.toList_appendList] at rest
      rw [← done]
      exact rest

/-- A tick counts the notes down, and then the playhead rests on, or its commands are worked off. -/
theorem tick_eq_workOff {t : Track} (unfinished : ¬ t.IsFinished) (st : Stage) :
    t.tick env st =
      let (t, st) := t.countDown st
      if 1 < t.head.started.rest then
        ({ t with head := { t.head.started with rest := t.head.started.rest - 1 } }, st)
      else ({ t with head := { t.head.started with rest := 0 } } : Track).workOff env
        env.commandLimit st := by
  rw [tick_of_not_isFinished unfinished, Playhead.tick_of_not_isFinished unfinished]
  show _ = if 1 < t.head.started.rest then _ else _
  split
  · rfl
  · exact obey_run env.commandLimit #[]
      { (t.countDown st).1 with head := { t.head.started with rest := 0 } } (t.countDown st).2

end Chiptune.Track
