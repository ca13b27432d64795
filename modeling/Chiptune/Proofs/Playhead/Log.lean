import Chiptune.Proofs.Playhead.Ending
import Mathlib.Dynamics.PeriodicPts.Defs
import Mathlib.Logic.Function.Iterate

/-!
# Which commands are run

`Playhead.log` lists the commands that a playhead runs in a number of ticks, in order, and where
each of them takes it. Rests, and the limit of commands in a tick, cut a log into ticks, and for
the order of the commands that makes no difference. So a second account leaves time out:
`Playhead.hop` goes straight from one command to the next, and `Playhead.trace` lists what it
finds. As long as no tick reaches its limit, logs are traces, as long as one may ask for
(`exists_log`).
-/

namespace Chiptune

/-- A command that was run, and the playhead right after it. -/
structure Entry where
  command : Command
  place : Playhead

namespace Playhead

section

variable (driver : SoundDriver) (limit : Nat) (s : EventStream)

/-- The command under the cursor, unless the stream is over or defective there. -/
def command? (h : Playhead) : Option Command :=
  if s.bytes.size ≤ h.cursor then none
  else
    match (s.decode driver h.cursor h.status).2 with
    | .ok d => some d.command
    | .error _ => none

/-- What the next step adds to the log. -/
def entries (h : Playhead) : List Entry :=
  (h.command? driver s).toList.map fun command => ⟨command, (h.step driver s).1⟩

/-- The commands that `run` runs. -/
def logInRun : (budget : Nat) → Playhead → List Entry
  | 0, _ => []
  | budget + 1, h =>
    let next := (h.step driver s).1
    h.entries driver s ++ if next.IsAtRest then [] else logInRun budget next

/-- The commands that are run in the next tick. -/
def logInTick (h : Playhead) : List Entry :=
  if h.IsFinished ∨ 1 < h.started.rest then []
  else { h.started with rest := 0 }.logInRun driver s limit

/-- The playhead after some ticks. -/
def ticked (ticks : Nat) (h : Playhead) : Playhead :=
  (fun h : Playhead => (h.tick driver limit s).1)^[ticks] h

/-- The commands that are run in the next `ticks` ticks. -/
def log : (ticks : Nat) → Playhead → List Entry
  | 0, _ => []
  | ticks + 1, h => h.logInTick driver limit s ++ log ticks (h.tick driver limit s).1

/-- Run the command under the cursor, and skip the rest that it asks for. -/
def hop (h : Playhead) : Playhead :=
  if h.IsFinished then h else { (h.step driver s).1 with rest := 0 }

/-- The next `count` commands, or fewer if the stream is over before. -/
def trace : (count : Nat) → Playhead → List Entry
  | 0, _ => []
  | count + 1, h =>
    (if h.IsFinished then [] else h.entries driver s) ++ trace count (h.hop driver s)

/-- Where a playhead is that has run these commands. -/
def lastPlace (h : Playhead) (l : List Entry) : Playhead := (l.getLast?.map Entry.place).getD h

end

variable {driver : SoundDriver} {limit : Nat} {s : EventStream} {h : Playhead}

/-! ## Traces

A trace skips rests and knows no limit, and so its commands are numbered from the first on. Two
traces from one place agree as far as both go. -/

/-- A playhead that has finished stays where it is. -/
theorem hop_of_isFinished (finished : h.IsFinished) : h.hop driver s = h := if_pos finished

theorem iterate_hop_of_isFinished (finished : h.IsFinished) (n : Nat) :
    (hop driver s)^[n] h = h :=
  Function.iterate_fixed (hop_of_isFinished finished) n

/-- A playhead that has finished performs nothing more. -/
theorem trace_of_isFinished (finished : h.IsFinished) (n : Nat) : h.trace driver s n = [] := by
  induction n with
  | zero => rfl
  | succ n ih => rw [trace, if_pos finished, hop_of_isFinished finished, ih, List.append_nil]

/-- A trace goes on from where its first part ends. -/
theorem trace_add (m n : Nat) (h : Playhead) :
    h.trace driver s (m + n) = h.trace driver s m ++ ((hop driver s)^[m] h).trace driver s n := by
  induction m generalizing h with
  | zero => rw [Nat.zero_add]; rfl
  | succ m ih =>
    rw [Nat.add_right_comm, trace, ih, trace, List.append_assoc, Function.iterate_succ_apply]

/-- Where the stream is over, a longer trace has nothing more in it. -/
theorem trace_of_le {m n : Nat} (finished : ((hop driver s)^[m] h).IsFinished) (le : m ≤ n) :
    h.trace driver s n = h.trace driver s m ∧ (hop driver s)^[n] h = (hop driver s)^[m] h := by
  obtain ⟨k, rfl⟩ := Nat.exists_eq_add_of_le le
  constructor
  · rw [trace_add, trace_of_isFinished finished, List.append_nil]
  · rw [Nat.add_comm, Function.iterate_add_apply, iterate_hop_of_isFinished finished]

/-- A step without a command is the end of the stream. -/
theorem exists_entries (unfinished : ¬ (h.step driver s).1.IsFinished) :
    ∃ command, h.entries driver s = [⟨command, (h.step driver s).1⟩] := by
  unfold entries command?
  split
  · next beyond =>
    refine absurd ?_ unfinished
    rw [step, if_pos beyond]
    rfl
  · next inside =>
    split
    · next d _ => exact ⟨d.command, rfl⟩
    · next e he =>
      refine absurd ?_ unfinished
      unfold step
      rw [if_neg inside]
      generalize s.decode driver h.cursor h.status = decoded at he ⊢
      obtain ⟨status, result⟩ := decoded
      cases he
      rfl

/-- Up to the end of the stream, a trace ends where the playhead is, but for the rest. -/
theorem lastPlace_trace (n : Nat) (unfinished : ¬ ((hop driver s)^[n] h).IsFinished) :
    { h.lastPlace (h.trace driver s n) with rest := 0 } =
      { (hop driver s)^[n] h with rest := 0 } := by
  cases n with
  | zero => rfl
  | succ n =>
    rw [Function.iterate_succ_apply'] at unfinished ⊢
    have earlier : ¬ ((hop driver s)^[n] h).IsFinished := fun finished =>
      unfinished (by rwa [hop_of_isFinished finished])
    rw [hop, if_neg earlier] at unfinished ⊢
    obtain ⟨command, hentries⟩ := exists_entries (h := (hop driver s)^[n] h) unfinished
    have hone : ((hop driver s)^[n] h).trace driver s 1 =
        ((hop driver s)^[n] h).entries driver s := by
      rw [trace, if_neg earlier]
      exact List.append_nil _
    rw [trace_add, hone, hentries, lastPlace, List.getLast?_concat]
    rfl

/-! ## Started playheads

A playhead that waits for its first tick differs from one that has begun only by that. Proofs about
ticks begin with the one, proofs about steps with the other. -/

theorem started_of_ne_idle (going : h.progress ≠ .idle) : h.started = h := if_neg going

theorem started_progress_ne_idle (h : Playhead) : h.started.progress ≠ .idle := by
  unfold started
  split
  · simp
  · assumption

/-- A playhead that has begun never goes back to waiting for its first tick. -/
theorem progress_settle_ne_idle (h : Playhead) : h.settle.progress ≠ .idle := by
  unfold settle
  dsimp only
  split <;> simp

/-- No command sends a playhead back to waiting for its first tick. -/
theorem progress_execute_ne_idle (going : h.progress ≠ .idle) (offset : Nat) (c : Command) :
    (h.execute driver offset c).1.progress ≠ .idle := by
  cases c with
  | finish => simp [execute, finish]
  | wait ticks =>
    cases ticks with
    | zero => exact progress_settle_ne_idle h
    | succ ticks => exact going
  | call target passes =>
    rw [execute]
    split
    · exact progress_settle_ne_idle _
    · simp [fail, finish]
  | openLoop passes =>
    rw [execute]
    split
    · exact progress_settle_ne_idle _
    · simp [fail, finish]
  | _ => exact progress_settle_ne_idle _

theorem progress_step_ne_idle (going : h.progress ≠ .idle) :
    (h.step driver s).1.progress ≠ .idle := by
  unfold step
  split
  · simp [finish]
  · split
    · simp [fail, finish]
    · next status d _ =>
      exact progress_execute_ne_idle
        (h := { h with status, cursor := h.cursor + d.length }) going _ _

/-- After any number of steps a playhead that has begun is not waiting for its first tick. -/
theorem progress_run_ne_idle (going : h.progress ≠ .idle) (budget : Nat) (effects : Array Effect) :
    (run driver limit s budget h effects).1.progress ≠ .idle := by
  induction budget generalizing h effects with
  | zero =>
    simp only [run, exhaust]
    split
    · simp [finish]
    · simp [fail, finish]
  | succ budget ih =>
    have hstep : (h.step driver s).1.progress ≠ .idle := progress_step_ne_idle going
    rw [run]
    dsimp only
    split
    · exact hstep
    · exact ih hstep _

/-- The playhead when it has rested. -/
def woken (h : Playhead) : Playhead := { h.started with rest := 0 }

/-- To wake up is to begin and to have no rest left. -/
theorem exists_woken_eq (h : Playhead) : ∃ progress, h.woken = { h with progress, rest := 0 } := by
  unfold woken started
  split
  · exact ⟨.running, rfl⟩
  · exact ⟨h.progress, rfl⟩

theorem isFinished_woken : h.woken.IsFinished ↔ h.IsFinished := by
  unfold woken started IsFinished
  dsimp only
  split
  · next idle => simp [idle]
  · rfl

/-- A playhead that has begun only loses its rest. -/
theorem woken_of_ne_idle (going : h.progress ≠ .idle) : h.woken = { h with rest := 0 } := by
  rw [woken, started_of_ne_idle going]

/-! ## Logs are traces

A log is made of ticks, and each tick runs the next few commands of the trace. Where no tick is
stopped by its limit, none is left out, and each one comes sooner or later. -/

/-- What was asked for before makes no difference to the playhead. -/
theorem run_fst (budget : Nat) (h : Playhead) (effects : Array Effect) :
    (run driver limit s budget h effects).1 = (run driver limit s budget h #[]).1 := by
  induction budget generalizing h effects with
  | zero => rfl
  | succ budget ih =>
    rw [run, run]
    dsimp only
    split
    · rfl
    · rw [ih, ih _ ((#[] : Array Effect).appendList _)]

/-- A run is one step, and the rest of the run unless the step came to a rest. -/
theorem run_succ_fst (budget : Nat) (h : Playhead) (effects : Array Effect) :
    (run driver limit s (budget + 1) h effects).1 =
      if (h.step driver s).1.IsAtRest then (h.step driver s).1
      else (run driver limit s budget (h.step driver s).1 #[]).1 := by
  rw [run]
  dsimp only
  split
  · rfl
  · exact run_fst _ _ _

/-- No tick from here on is stopped by the limit of commands. -/
def Unlimited (driver : SoundDriver) (limit : Nat) (s : EventStream) (h : Playhead) : Prop :=
  ∀ ticks offset, (h.ticked driver limit s ticks).error ≠ some (.commandLimit limit offset)

theorem ticked_succ (ticks : Nat) (h : Playhead) :
    h.ticked driver limit s (ticks + 1) = (h.tick driver limit s).1.ticked driver limit s ticks :=
  Function.iterate_succ_apply _ _ _

/-- Ticks and later ticks. -/
theorem ticked_add (m n : Nat) (h : Playhead) :
    h.ticked driver limit s (m + n) =
      (h.ticked driver limit s m).ticked driver limit s n := by
  rw [ticked, Nat.add_comm, Function.iterate_add_apply]
  rfl

/-- A playhead that never exceeds the limit does not do so later on either. -/
theorem Unlimited.ticked (unlimited : Unlimited driver limit s h) (ticks : Nat) :
    Unlimited driver limit s (h.ticked driver limit s ticks) := by
  intro more offset
  rw [← ticked_add]
  exact unlimited _ offset

theorem Unlimited.tick (unlimited : Unlimited driver limit s h) :
    Unlimited driver limit s (h.tick driver limit s).1 :=
  unlimited.ticked 1

/-- A log goes on from where its first part ends. -/
theorem log_add (m n : Nat) (h : Playhead) :
    h.log driver limit s (m + n) =
      h.log driver limit s m ++ (h.ticked driver limit s m).log driver limit s n := by
  induction m generalizing h with
  | zero => rw [Nat.zero_add]; rfl
  | succ m ih => rw [Nat.add_right_comm, log, ih, log, List.append_assoc, ticked_succ]

/-- However long a log gets, its first commands stay the same. -/
theorem getElem?_log_eq {m n i : Nat} {e e' : Entry}
    (found : (h.log driver limit s m)[i]? = some e)
    (found' : (h.log driver limit s n)[i]? = some e') : e = e' := by
  have longer : ∀ {m n : Nat} {e : Entry}, m ≤ n → (h.log driver limit s m)[i]? = some e →
      (h.log driver limit s n)[i]? = some e := by
    intro m n e le found
    obtain ⟨more, rfl⟩ := Nat.exists_eq_add_of_le le
    obtain ⟨inside, -⟩ := List.getElem?_eq_some_iff.mp found
    rw [log_add, List.getElem?_append_left inside, found]
  rcases Nat.le_total m n with le | le
  · exact Option.some.inj ((longer le found).symm.trans found')
  · exact Option.some.inj (found.symm.trans (longer le found'))

/-- A run that is not stopped by the limit runs at least one command, or finds the end. -/
theorem exists_logInRun (budget : Nat) (unfinished : ¬ h.IsFinished)
    (within : ∀ offset,
      (run driver limit s budget h #[]).1.error ≠ some (.commandLimit limit offset)) :
    ∃ n, 0 < n ∧ h.logInRun driver s budget = h.trace driver s n ∧
      { (run driver limit s budget h #[]).1 with rest := 0 } = (hop driver s)^[n] h := by
  induction budget generalizing h with
  | zero =>
    -- the limit makes no difference at the end of the stream
    have hend : s.bytes.size ≤ h.cursor := by
      by_contra inside
      refine within h.cursor ?_
      simp [run, exhaust, inside, fail]
    refine ⟨1, Nat.one_pos, ?_, ?_⟩
    · simp [logInRun, trace, unfinished, entries, command?, hend]
    · simp [run, exhaust, hend, hop, unfinished, step]
  | succ budget ih =>
    have hhop : h.hop driver s = { (h.step driver s).1 with rest := 0 } := if_neg unfinished
    rw [run_succ_fst] at within ⊢
    rw [logInRun]
    dsimp only
    by_cases rests : (h.step driver s).1.IsAtRest
    · rw [if_pos rests, if_pos rests]
      refine ⟨1, Nat.one_pos, ?_, hhop.symm⟩
      rw [trace, if_neg unfinished]
      rfl
    · rw [if_neg rests] at within
      obtain ⟨n, -, hlog, hrun⟩ := ih (fun finished => rests (Or.inl finished)) within
      have hawake : (h.step driver s).1.rest = 0 := by
        by_contra hrest
        exact rests (Or.inr (Nat.pos_of_ne_zero hrest))
      have hnext : h.hop driver s = (h.step driver s).1 := by
        rw [hhop, ← hawake]
      rw [if_neg rests, if_neg rests]
      refine ⟨n + 1, Nat.succ_pos n, ?_, ?_⟩
      · rw [trace, if_neg unfinished, hnext, hlog]
      · rw [Function.iterate_succ_apply, hnext, hrun]

/-- A tick runs some of the commands that come next; if it runs none, the stream is over or there
is less to rest. -/
theorem exists_logInTick
    (within : ∀ offset, (h.tick driver limit s).1.error ≠ some (.commandLimit limit offset)) :
    ∃ n, h.logInTick driver limit s = h.woken.trace driver s n ∧
      (h.tick driver limit s).1.woken = (hop driver s)^[n] h.woken ∧
      (n = 0 → h.IsFinished ∨ (h.tick driver limit s).1.rest < h.rest) := by
  by_cases finished : h.IsFinished
  · refine ⟨0, ?_, ?_, fun _ => Or.inl finished⟩
    · rw [logInTick, if_pos (Or.inl finished)]
      rfl
    · rw [tick_of_isFinished finished]
      rfl
  · rw [tick_of_not_isFinished finished] at within ⊢
    have hgoing := started_progress_ne_idle h
    -- a tick of a rest runs nothing, but it makes the rest shorter
    by_cases resting : 1 < h.started.rest
    · have hrest : h.started.rest = h.rest := by
        unfold started
        split <;> rfl
      refine ⟨0, ?_, ?_, fun _ => Or.inr ?_⟩
      · rw [logInTick, if_pos (Or.inr resting)]
        rfl
      · rw [if_pos resting]
        exact woken_of_ne_idle (h := { h.started with rest := h.started.rest - 1 }) hgoing
      · rw [if_pos resting]
        show h.started.rest - 1 < h.rest
        omega
    · rw [if_neg resting] at within ⊢
      have hwoken : ¬ h.woken.IsFinished := not_isFinished_started finished
      -- a tick in which the playhead is awake runs at least one command
      obtain ⟨n, hn, hlog, hrun⟩ := exists_logInRun (h := h.woken) limit hwoken within
      refine ⟨n, ?_, ?_, fun none => absurd hn (Nat.not_lt.mpr (Nat.le_of_eq none))⟩
      · rw [logInTick, if_neg (not_or.mpr ⟨finished, resting⟩)]
        exact hlog
      · have hran : (run driver limit s limit h.woken #[]).1.progress ≠ .idle :=
          progress_run_ne_idle (h := h.woken) hgoing limit #[]
        exact (woken_of_ne_idle hran).trans hrun

/-- The next command is run sooner or later, unless there is none. -/
theorem exists_log_pos (unlimited : Unlimited driver limit s h) (unfinished : ¬ h.IsFinished) :
    ∃ ticks n, 0 < n ∧ h.log driver limit s ticks = h.woken.trace driver s n ∧
      (h.ticked driver limit s ticks).woken = (hop driver s)^[n] h.woken := by
  -- on the ticks that are left to rest
  induction hrest : h.rest using Nat.strongRecOn generalizing h with
  | _ rest ih =>
    obtain ⟨n, hlog, hwoken, hnone⟩ := exists_logInTick (unlimited 1)
    cases n with
    | succ n =>
      refine ⟨1, n + 1, Nat.succ_pos n, ?_, hwoken⟩
      rw [log, hlog]
      exact List.append_nil _
    | zero =>
      have hsame : (h.tick driver limit s).1.woken = h.woken := hwoken
      have hless := (hnone rfl).resolve_left unfinished
      have still : ¬ (h.tick driver limit s).1.IsFinished := by
        rwa [← isFinished_woken, hsame, isFinished_woken]
      obtain ⟨ticks, n, hn, hlater, hend⟩ := ih _ (hrest ▸ hless) unlimited.tick still rfl
      refine ⟨ticks + 1, n, hn, ?_, ?_⟩
      · rw [log, hlog, hlater]
        show [] ++ _ = _
        rw [hsame, List.nil_append]
      · rw [ticked_succ, hend, hsame]

/-- In time as many commands are run as one may ask for, or all that there are. -/
theorem exists_log (unlimited : Unlimited driver limit s h) (count : Nat) :
    ∃ ticks n, count ≤ n ∧ h.log driver limit s ticks = h.woken.trace driver s n ∧
      (h.ticked driver limit s ticks).woken = (hop driver s)^[n] h.woken := by
  induction count with
  | zero => exact ⟨0, 0, Nat.le_refl 0, rfl, rfl⟩
  | succ count ih =>
    obtain ⟨ticks, n, hn, hlog, hwoken⟩ := ih
    by_cases finished : (h.ticked driver limit s ticks).IsFinished
    · -- a longer trace is the same
      have hfinished := isFinished_woken.mpr finished
      rw [hwoken] at hfinished
      obtain ⟨htrace, hhop⟩ := trace_of_le hfinished (Nat.le_succ n)
      exact ⟨ticks, n + 1, Nat.succ_le_succ hn, hlog.trans htrace.symm, hwoken.trans hhop.symm⟩
    · obtain ⟨more, m, hm, hlater, hend⟩ := exists_log_pos (unlimited.ticked ticks) finished
      rw [hwoken] at hlater hend
      refine ⟨ticks + more, n + m, by omega, ?_, ?_⟩
      · rw [log_add, hlog, hlater, trace_add]
      · rw [ticked_add, hend, Nat.add_comm n m, Function.iterate_add_apply]

/-- Any trace is where some log begins. -/
theorem exists_log_eq_append (unlimited : Unlimited driver limit s h) (count : Nat) :
    ∃ ticks later, h.log driver limit s ticks = h.woken.trace driver s count ++ later := by
  obtain ⟨ticks, n, hn, hlog, -⟩ := exists_log unlimited count
  obtain ⟨more, rfl⟩ := Nat.exists_eq_add_of_le hn
  exact ⟨ticks, _, hlog.trans (trace_add count more _)⟩

/-- Behind the end ticks change nothing. -/
theorem ticked_of_isFinished (finished : h.IsFinished) (ticks : Nat) :
    h.ticked driver limit s ticks = h := by
  apply Function.iterate_fixed
  rw [tick_of_isFinished finished]

/-- Up to the end there are only so many different moments. -/
theorem exists_ticked_eq {last : Nat} (ended : (h.ticked driver limit s last).IsFinished)
    (ticks : Nat) :
    ∃ t ≤ last, h.ticked driver limit s ticks = h.ticked driver limit s t := by
  rcases Nat.le_total ticks last with before | beyond
  · exact ⟨ticks, before, rfl⟩
  · obtain ⟨more, rfl⟩ := Nat.exists_eq_add_of_le beyond
    exact ⟨last, Nat.le_refl last, by rw [ticked_add, ticked_of_isFinished ended]⟩

/-- If a stream comes to its end in good order, no tick is stopped. -/
theorem unlimited_of_isFinished {last : Nat} (ended : (h.ticked driver limit s last).IsFinished)
    (sound : ∀ t ≤ last, (h.ticked driver limit s t).error = none) :
    Unlimited driver limit s h := by
  intro ticks offset
  obtain ⟨t, ht, same⟩ := exists_ticked_eq ended ticks
  rw [same, sound t ht]
  simp

/-- If a stream comes round in good order, no tick is stopped. -/
theorem unlimited_of_period {first period : Nat} (pos : 0 < period)
    (around : h.ticked driver limit s (first + period) = h.ticked driver limit s first)
    (sound : ∀ t < first + period, (h.ticked driver limit s t).error = none) :
    Unlimited driver limit s h := by
  have periodic : Function.IsPeriodicPt (fun h : Playhead => (h.tick driver limit s).1) period
      (h.ticked driver limit s first) :=
    (ticked_add first period h).symm.trans around
  intro ticks offset
  have same : ∃ t < first + period, h.ticked driver limit s ticks = h.ticked driver limit s t := by
    rcases Nat.lt_or_ge ticks first with early | late
    · exact ⟨ticks, Nat.lt_add_right period early, rfl⟩
    · obtain ⟨more, rfl⟩ := Nat.exists_eq_add_of_le late
      refine ⟨first + more % period, Nat.add_lt_add_left (Nat.mod_lt more pos) first, ?_⟩
      rw [ticked_add, ticked_add]
      exact (periodic.iterate_mod_apply more).symm
  obtain ⟨t, ht, same⟩ := same
  rw [same, sound t ht]
  simp

/-- Nothing is logged any more once the end is reached. -/
theorem log_of_isFinished (finished : h.IsFinished) (ticks : Nat) :
    h.log driver limit s ticks = [] := by
  induction ticks with
  | zero => rfl
  | succ ticks ih =>
    rw [log, logInTick, if_pos (Or.inl finished), tick_of_isFinished finished, List.nil_append]
    exact ih

/-- If the stream is over after a trace, then that is all that is ever run. -/
theorem exists_log_eq (unlimited : Unlimited driver limit s h) {count : Nat}
    (finished : ((hop driver s)^[count] h.woken).IsFinished) :
    ∃ enough, ∀ ticks ≥ enough, h.log driver limit s ticks = h.woken.trace driver s count ∧
      (h.ticked driver limit s ticks).woken = (hop driver s)^[count] h.woken := by
  obtain ⟨enough, n, hn, hlog, hwoken⟩ := exists_log unlimited count
  obtain ⟨htrace, hhop⟩ := trace_of_le finished hn
  rw [htrace] at hlog
  rw [hhop] at hwoken
  have hover : (h.ticked driver limit s enough).IsFinished := by
    rwa [← isFinished_woken, hwoken]
  refine ⟨enough, fun ticks hticks => ?_⟩
  obtain ⟨more, rfl⟩ := Nat.exists_eq_add_of_le hticks
  rw [log_add, ticked_add, log_of_isFinished hover, ticked_of_isFinished hover, List.append_nil]
  exact ⟨hlog, hwoken⟩

end Playhead
end Chiptune
