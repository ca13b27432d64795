import Chiptune.Proofs.Playhead.Log

/-!
# The way through a stream

A log tells the way of a playhead as well as its commands: each entry says where its command has
led to, and that is where the next one is found (`offsetsFrom`). `Playhead.Walks` follows such a way
from the side of the stream.

Every log is a trace, whatever the number of ticks, and so is every part of a log that it begins
with (`Playhead.exists_trace_of_log`). So what is known of a playhead after some entries of its log
decides what the next ones are.
-/

namespace Chiptune

/-- The offsets that some commands are found at, the first of them at `place`. -/
def offsetsFrom : (place : Nat) → List Entry → List Nat
  | _, [] => []
  | place, e :: l => place :: offsetsFrom e.place.cursor l

/-- Behind the first offset, each one is where the command before it has led to. -/
theorem exists_of_getElem?_offsetsFrom {l : List Entry} {place i offset : Nat}
    (found : (offsetsFrom place l)[i + 1]? = some offset) :
    ∃ e, l[i]? = some e ∧ e.place.cursor = offset := by
  induction l generalizing place i with
  | nil => cases found
  | cons e l ih =>
    rw [offsetsFrom, List.getElem?_cons_succ] at found
    cases i with
    | zero =>
      cases l with
      | nil => cases found
      | cons e' l => exact ⟨e, rfl, Option.some.inj found⟩
    | succ i => exact ih found

namespace Playhead

variable {driver : SoundDriver} {limit : Nat} {s : EventStream} {h : Playhead}

/-! ## Walks

A walk keeps track of offsets and of nothing else. It is a trace seen from its places. -/

/-- `h` becomes `h'` by running the commands at these offsets, and is under way all the time. -/
inductive Walks (driver : SoundDriver) (s : EventStream) :
    Playhead → List Nat → Playhead → Prop
  | refl (h : Playhead) : Walks driver s h [] h
  | hop {h h' : Playhead} {offsets : List Nat} (unfinished : ¬ h.IsFinished)
      (going : ¬ (h.hop driver s).IsFinished)
      (onward : Walks driver s (h.hop driver s) offsets h') :
      Walks driver s h (h.cursor :: offsets) h'

theorem Walks.trans {h' h'' : Playhead} {offsets more : List Nat}
    (a : Walks driver s h offsets h') (b : Walks driver s h' more h'') :
    Walks driver s h (offsets ++ more) h'' := by
  induction a with
  | refl => exact b
  | hop unfinished going _ ih => exact .hop unfinished going (ih b)

/-- A walk is what a trace shows. -/
theorem Walks.trace {h' : Playhead} {offsets : List Nat} (walk : Walks driver s h offsets h') :
    offsetsFrom h.cursor (h.trace driver s offsets.length) = offsets ∧
      (Playhead.hop driver s)^[offsets.length] h = h' := by
  induction walk with
  | refl => exact ⟨rfl, rfl⟩
  | @hop h h' offsets unfinished going _ ih =>
    obtain ⟨offsets_eq, hop_eq⟩ := ih
    have hhop : h.hop driver s = { (h.step driver s).1 with rest := 0 } := if_neg unfinished
    have still : ¬ (h.step driver s).1.IsFinished := by
      rw [hhop] at going
      exact going
    obtain ⟨command, one⟩ := exists_entries still
    have same : (h.step driver s).1.cursor = (h.hop driver s).cursor := by rw [hhop]
    rw [List.length_cons, Playhead.trace, if_neg unfinished, one, List.singleton_append]
    refine ⟨?_, hop_eq⟩
    rw [offsetsFrom, same, offsets_eq]

/-! ## Parts of a log

A log can be cut at any command. The playhead there is not known exactly, since it may be resting or
waiting for its first tick, and `Akin` leaves that open. -/

/-- The same, but that one may be resting, or yet to be started. -/
structure Akin (h h' : Playhead) : Prop where
  /-- They may differ in how far they have rested. -/
  eq : ∃ progress rest, h' = { h with progress, rest }
  isFinished_iff : h'.IsFinished ↔ h.IsFinished

theorem Akin.refl (h : Playhead) : h.Akin h := ⟨⟨h.progress, h.rest, rfl⟩, Iff.rfl⟩

theorem Akin.symm {h' : Playhead} (a : h.Akin h') : h'.Akin h := by
  obtain ⟨progress, rest, rfl⟩ := a.eq
  exact ⟨⟨h.progress, h.rest, rfl⟩, a.isFinished_iff.symm⟩

theorem Akin.trans {h' h'' : Playhead} (a : h.Akin h') (b : h'.Akin h'') : h.Akin h'' := by
  obtain ⟨progress, rest, rfl⟩ := a.eq
  obtain ⟨progress', rest', rfl⟩ := b.eq
  exact ⟨⟨progress', rest', rfl⟩, b.isFinished_iff.trans a.isFinished_iff⟩

theorem Akin.of_rest {h' : Playhead} (same : { h with rest := 0 } = { h' with rest := 0 }) :
    h.Akin h' := by
  cases h
  cases h'
  cases same
  exact ⟨⟨_, _, rfl⟩, Iff.rfl⟩

theorem akin_woken (h : Playhead) : h.Akin h.woken := by
  obtain ⟨progress, hwoken⟩ := exists_woken_eq h
  exact ⟨⟨progress, 0, hwoken⟩, isFinished_woken⟩

theorem lastPlace_append (h : Playhead) (l m : List Entry) :
    h.lastPlace (l ++ m) = (h.lastPlace l).lastPlace m := by
  unfold lastPlace
  rw [List.getLast?_append]
  cases m.getLast? <;> rfl

theorem Akin.lastPlace {h' : Playhead} (a : h.Akin h') (l : List Entry) :
    (h.lastPlace l).Akin (h'.lastPlace l) := by
  unfold Playhead.lastPlace
  cases l.getLast? with
  | none => exact a
  | some e => exact .refl e.place

/-- Every log is a trace. -/
theorem exists_log_eq_trace (unlimited : Unlimited driver limit s h) (ticks : Nat) :
    ∃ n, h.log driver limit s ticks = h.woken.trace driver s n ∧
      (h.ticked driver limit s ticks).woken = (hop driver s)^[n] h.woken := by
  induction ticks generalizing h with
  | zero => exact ⟨0, rfl, rfl⟩
  | succ ticks ih =>
    obtain ⟨n, hlog, hwoken, -⟩ := exists_logInTick (unlimited 1)
    obtain ⟨m, hlater, hend⟩ := ih unlimited.tick
    refine ⟨n + m, ?_, ?_⟩
    · rw [log, hlog, hlater, hwoken, trace_add]
    · rw [ticked_succ, hend, hwoken, Nat.add_comm, Function.iterate_add_apply]

/-- A step runs one command, or it finds none and ends the stream. -/
theorem entries_cases (driver : SoundDriver) (s : EventStream) (h : Playhead) :
    h.entries driver s = [] ∧ (h.step driver s).1.IsFinished ∨
      ∃ command, h.entries driver s = [⟨command, (h.step driver s).1⟩] := by
  by_cases finished : (h.step driver s).1.IsFinished
  · unfold entries
    cases h.command? driver s with
    | none => exact .inl ⟨rfl, finished⟩
    | some command => exact .inr ⟨command, rfl⟩
  · exact .inr (exists_entries finished)

/-- A part of a trace leads to where its last command has led to, and the rest of it goes on from
there. -/
theorem exists_trace_of_append {before after : List Entry} {n : Nat}
    (run : h.trace driver s n = before ++ after) :
    ∃ m k, before = h.trace driver s m ∧ after = ((hop driver s)^[m] h).trace driver s k ∧
      (h.lastPlace before).Akin ((hop driver s)^[m] h) := by
  induction n generalizing h before with
  | zero =>
    obtain ⟨rfl, rfl⟩ := List.append_eq_nil_iff.mp run.symm
    exact ⟨0, 0, rfl, rfl, .refl h⟩
  | succ n ih =>
    cases before with
    | nil => exact ⟨0, n + 1, rfl, run.symm, .refl h⟩
    | cons e before =>
      by_cases finished : h.IsFinished
      · rw [trace_of_isFinished finished] at run
        cases run
      have hhop : h.hop driver s = { (h.step driver s).1 with rest := 0 } := if_neg finished
      rw [trace, if_neg finished] at run
      -- a hop that lists nothing is the last one
      rcases entries_cases driver s h with ⟨none, ended⟩ | ⟨command, one⟩
      · have beyond : (h.hop driver s).IsFinished := by rwa [hhop]
        rw [none, trace_of_isFinished beyond] at run
        cases run
      · rw [one] at run
        obtain ⟨rfl, later⟩ := List.cons.inj run
        obtain ⟨m, k, rfl, rfl, akin⟩ := ih later
        refine ⟨m + 1, k, ?_, rfl, ?_⟩
        · rw [trace, if_neg finished, one, List.singleton_append]
        · have stepped : (h.step driver s).1.Akin (h.hop driver s) := by
            rw [hhop]
            exact .of_rest rfl
          rw [← List.singleton_append, lastPlace_append]
          exact (stepped.lastPlace _).trans akin

/-- What a log begins with is a trace, and what follows goes on from there. -/
theorem exists_trace_of_log (unlimited : Unlimited driver limit s h) {ticks : Nat}
    {before after : List Entry} (run : h.log driver limit s ticks = before ++ after) :
    ∃ m k, before = h.woken.trace driver s m ∧
      after = ((hop driver s)^[m] h.woken).trace driver s k ∧
      (h.lastPlace before).Akin ((hop driver s)^[m] h.woken) := by
  obtain ⟨n, hlog, -⟩ := exists_log_eq_trace unlimited ticks
  obtain ⟨m, k, hbefore, hafter, akin⟩ := exists_trace_of_append (hlog.symm.trans run)
  exact ⟨m, k, hbefore, hafter, ((akin_woken h).lastPlace before).trans akin⟩

end Playhead
end Chiptune
