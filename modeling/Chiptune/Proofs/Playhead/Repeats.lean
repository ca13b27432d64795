import Chiptune.Proofs.EventStream.Written
import Chiptune.Proofs.Playhead.Expansion
import Chiptune.Proofs.Playhead.Places
import Chiptune.Proofs.Playhead.Route

/-!
# Counted repeats

In M4A and MLSS a body is repeated by the command behind it, which sends the playhead back until it
has been reached as often as it says. The playhead has one count for all such commands, which starts
at zero and is zero again when a body has been left. So a body that is entered with the count at
zero runs as often as the command behind it says (`Playhead.repeats_run_count_times`). One body
around another one would enter it with its own passes in the count, and is never done
(`repeatedAround`).

As with phrases, what comes next is decided by a few things only, here with the count among them
(`Spot`), and passages are put together by what they lead to (`Playhead.Route`).
-/

namespace Chiptune

/-- A body and the command behind it that repeats it. -/
structure CountedRepeat where
  start : Nat
  stop : Nat
  /-- How many calls the body opens at once. -/
  room : Nat
  /-- Where the commands of the body stand. -/
  offsets : List Nat
  /-- How often the body is to be run. -/
  count : Nat
  /-- How many bytes the repeating command takes. -/
  length : Nat

namespace CountedRepeat

/-- The body stands in the stream between `start` and `stop`, and the command that repeats it stands
behind it. -/
structure IsAt (driver : SoundDriver) (s : EventStream) (r : CountedRepeat) : Prop where
  pos : 1 ≤ r.count
  body : s.Passage driver r.room r.start r.stop r.offsets
  /-- The repeat leads back to the start of the body. -/
  repeats : s.Writes driver r.stop (.again r.start r.count) r.length

/-- The offsets of all commands from the start of the first pass to the end of the last one. -/
def offsetsRun (r : CountedRepeat) : List Nat :=
  (List.replicate r.count (r.offsets ++ [r.stop])).flatten

/-- A playhead has come to the start of the body, with the count at zero and with room for the calls
of the body. -/
structure Entered (driver : SoundDriver) (r : CountedRepeat) (h : Playhead) : Prop where
  cursor_eq : h.cursor = r.start
  /-- No other repeat has been begun and not finished. -/
  reached_eq : h.reached = 0
  /-- There is room for the calls of the body. -/
  room : h.nestings.length + r.room ≤ Playhead.depth driver
  unfinished : ¬ h.IsFinished

/-- What a playhead has run since it came to the body is all the passes, and it goes on behind them
with the count at zero. No loop has been counted. -/
structure Done (r : CountedRepeat) (h : Playhead) (done : List Entry) : Prop where
  /-- The commands are those of all passes, and nothing else was run. -/
  offsets_eq : offsetsFrom h.cursor done = r.offsetsRun
  /-- The next command is the one behind the repeat. -/
  cursor_eq : (h.lastPlace done).cursor = r.stop + r.length
  nestings_eq : (h.lastPlace done).nestings = h.nestings
  /-- Another repeat finds the count as this one did. -/
  reached_eq : (h.lastPlace done).reached = 0
  unfinished : ¬ (h.lastPlace done).IsFinished
  /-- No loop was counted. -/
  goesOn : h.GoesOn (h.lastPlace done)

end CountedRepeat

/-- All that the way through a stream of M4A or MLSS depends on. -/
structure Spot where
  cursor : Nat
  nestings : List Nesting
  reached : Nat

namespace Playhead

variable {driver : SoundDriver} {limit : Nat} {s : EventStream} {h : Playhead}

def spot (h : Playhead) : Spot := ⟨h.cursor, h.nestings, h.reached⟩

/-- From one spot the stream leads to the other one, through the commands at these offsets. No loop
is counted on the way. -/
def Route (driver : SoundDriver) (s : EventStream) (a : Spot) (offsets : List Nat) (b : Spot) :
    Prop :=
  ∀ h : Playhead, h.spot = a → ¬ h.IsFinished →
    ∃ h', Walks driver s h offsets h' ∧ h.GoesOn h' ∧ h'.spot = b ∧ ¬ h'.IsFinished

section Route

variable {a b c : Spot} {offsets more : List Nat} {place length : Nat} {command : Command}
  {nestings : List Nesting} {reached : Nat}

theorem Route.refl (driver : SoundDriver) (s : EventStream) (a : Spot) : Route driver s a [] a :=
  fun h here unfinished => ⟨h, .refl h, ⟨rfl, rfl⟩, here, unfinished⟩

theorem Route.trans (first : Route driver s a offsets b) (second : Route driver s b more c) :
    Route driver s a (offsets ++ more) c := by
  intro h here unfinished
  obtain ⟨h', walk, goes, there, going⟩ := first h here unfinished
  obtain ⟨h'', onward, goes', beyond, going'⟩ := second h' there going
  exact ⟨h'', walk.trans onward, goes.trans goes', beyond, going'⟩

/-! ### One command

A way through a stream of M4A or MLSS depends on the cursor, the nestings and the count of the
repeat, and the playhead that has them may differ in everything else. -/

/-- What a command does to every playhead behind it, it does to one that finds it. -/
theorem route_of_execute (hdriver : driver = .m4a ∨ driver = .mlss)
    (writes : s.Writes driver place command length)
    (execute : ∀ (h : Playhead) (found : Command), command.Alike found →
      h.spot = ⟨place + length, nestings, reached⟩ → ¬ h.IsFinished →
      h.GoesOn (h.execute driver place found).1 ∧ (h.execute driver place found).1.spot = b ∧
        ¬ (h.execute driver place found).1.IsFinished) :
    Route driver s ⟨place, nestings, reached⟩ [place] b := by
  intro h here unfinished
  obtain ⟨rfl, rfl, rfl⟩ := Spot.mk.inj here
  -- whatever the status is, a command like this one is found
  obtain ⟨found, decoded, alike⟩ := writes.decode hdriver h.status
  let behind : Playhead :=
    { h with status := (s.decode driver h.cursor h.status).1, cursor := h.cursor + length }
  have stepped : h.step driver s = behind.execute driver h.cursor found := by
    rw [step, if_neg (Nat.not_le.mpr (EventStream.lt_size_of_decode decoded))]
    simp only [behind]
    generalize s.decode driver h.cursor h.status = result at decoded ⊢
    obtain ⟨status, result⟩ := result
    cases decoded
    rfl
  obtain ⟨goes, there, going⟩ := execute behind found alike rfl unfinished
  rw [← stepped] at goes there going
  -- skipping the rest is all that a hop does after its step
  have hopped : h.hop driver s = { (h.step driver s).1 with rest := 0 } := if_neg unfinished
  refine ⟨h.hop driver s, .hop unfinished ?_ (.refl _), ?_, ?_, ?_⟩
  · rw [hopped]
    exact going
  · rw [hopped]
    exact ⟨goes.loopCount_eq, goes.error_eq⟩
  · rw [hopped]
    exact there
  · rw [hopped]
    exact going

theorem route_simple (hdriver : driver = .m4a ∨ driver = .mlss) (simple : command.IsSimple)
    (writes : s.Writes driver place command length) :
    Route driver s ⟨place, nestings, reached⟩ [place] ⟨place + length, nestings, reached⟩ := by
  apply route_of_execute hdriver writes
  intro h found alike here unfinished
  obtain ⟨progress, rest, controls, loopPoint, same, going⟩ :=
    exists_execute_eq (alike.isSimple simple) driver place h
  rw [same]
  exact ⟨⟨rfl, rfl⟩, here, going unfinished⟩

/-- A command that is not simple is found as it was written. -/
theorem route_of_execute_eq (hdriver : driver = .m4a ∨ driver = .mlss)
    (complex : ¬ command.IsSimple)
    (writes : s.Writes driver place command length)
    (execute : ∀ h : Playhead, h.spot = ⟨place + length, nestings, reached⟩ → ∃ h' : Playhead,
      (h.execute driver place command).1 = h'.settle ∧ h.GoesOn h' ∧ h'.spot = b) :
    Route driver s ⟨place, nestings, reached⟩ [place] b := by
  apply route_of_execute hdriver writes
  intro h found alike here _
  obtain ⟨h', settled, goes, there⟩ := execute h here
  rw [alike.eq complex, settled]
  exact ⟨⟨goes.loopCount_eq, goes.error_eq⟩, there, not_isFinished_settle h'⟩

theorem route_call {target : Nat} (hdriver : driver = .m4a ∨ driver = .mlss)
    (writes : s.Writes driver place (.call target (some 1)) length)
    (free : nestings.length < depth driver) :
    Route driver s ⟨place, nestings, reached⟩ [place]
      ⟨target, .call (place + length) target (some 1) :: nestings, reached⟩ := by
  apply route_of_execute_eq hdriver id writes
  intro h here
  obtain ⟨behind, rfl, rfl⟩ := Spot.mk.inj here
  refine ⟨_, congrArg Prod.fst (if_pos free), ⟨rfl, rfl⟩, ?_⟩
  rw [← behind]
  rfl

theorem route_endCall {resume target : Nat} (hdriver : driver = .m4a ∨ driver = .mlss)
    (writes : s.Writes driver place .endCall length) :
    Route driver s ⟨place, .call resume target (some 1) :: nestings, reached⟩ [place]
      ⟨resume, nestings, reached⟩ := by
  apply route_of_execute_eq hdriver id writes
  intro h here
  obtain ⟨-, opened, rfl⟩ := Spot.mk.inj here
  refine ⟨h.endCall, rfl, ?_⟩
  rw [endCall, opened]
  exact ⟨⟨rfl, rfl⟩, rfl⟩

/-- While the count is not full, the command behind a body goes back to its start. -/
theorem route_back {target count : Nat} (hdriver : driver = .m4a ∨ driver = .mlss)
    (writes : s.Writes driver place (.again target count) length) (more : reached + 1 < count) :
    Route driver s ⟨place, nestings, reached⟩ [place] ⟨target, nestings, reached + 1⟩ := by
  apply route_of_execute_eq hdriver id writes
  intro h here
  obtain ⟨-, rfl, rfl⟩ := Spot.mk.inj here
  refine ⟨h.again target count, rfl, ?_⟩
  rw [again, if_pos more]
  exact ⟨⟨rfl, rfl⟩, rfl⟩

/-- When the body has been passed as often as it says, the repeat is left, with its count at zero.
-/
theorem route_out {target count : Nat} (hdriver : driver = .m4a ∨ driver = .mlss)
    (writes : s.Writes driver place (.again target count) length) (last : ¬ reached + 1 < count) :
    Route driver s ⟨place, nestings, reached⟩ [place] ⟨place + length, nestings, 0⟩ := by
  apply route_of_execute_eq hdriver id writes
  intro h here
  obtain ⟨behind, rfl, rfl⟩ := Spot.mk.inj here
  refine ⟨h.again target count, rfl, ?_⟩
  rw [again, if_neg last, ← behind]
  exact ⟨⟨rfl, rfl⟩, rfl⟩

/-! ### Passages and passes

A passage is gone through as it stands, with its calls. A body that is a passage is gone through
again by each repeat that is not the last one, by induction on the passes that are left. -/

/-- A passage leads from its start to its stop, and keeps nestings and count. -/
theorem route_passage {room start stop : Nat} (hdriver : driver = .m4a ∨ driver = .mlss)
    (passage : s.Passage driver room start stop offsets)
    (free : nestings.length + room ≤ depth driver) :
    Route driver s ⟨start, nestings, reached⟩ offsets ⟨stop, nestings, reached⟩ := by
  induction passage generalizing nestings with
  | nil => exact .refl driver s _
  | command simple writes _ ih => exact (route_simple hdriver simple writes).trans (ih free)
  | call calls _ returns _ ihBody ihOnward =>
    have shallow : nestings.length < depth driver := by omega
    have inside := (route_call hdriver calls shallow).trans
      (ihBody (by rw [List.length_cons]; omega))
    have back := inside.trans (route_endCall hdriver returns)
    have onward := back.trans (ihOnward free)
    simp only [List.append_assoc, List.singleton_append] at onward
    exact onward

/-- What is left of a repeated body: the present pass and `passes` more. -/
theorem route_passes {r : CountedRepeat} (hdriver : driver = .m4a ∨ driver = .mlss)
    (laid : r.IsAt driver s) (free : nestings.length + r.room ≤ depth driver) (passes : Nat)
    (left : reached + (passes + 1) = r.count) :
    Route driver s ⟨r.start, nestings, reached⟩
      (List.replicate (passes + 1) (r.offsets ++ [r.stop])).flatten
      ⟨r.stop + r.length, nestings, 0⟩ := by
  -- on the passes to come; the count goes up as they get fewer
  induction passes generalizing reached with
  | zero =>
    have last : ¬ reached + 1 < r.count := by omega
    have pass := (route_passage hdriver laid.body free).trans (route_out hdriver laid.repeats last)
    simpa using pass
  | succ passes ih =>
    have more : reached + 1 < r.count := by omega
    have pass := (route_passage hdriver laid.body free).trans (route_back hdriver laid.repeats more)
    have fewer : reached + 1 + (passes + 1) = r.count := by omega
    rw [List.replicate_succ, List.flatten_cons]
    exact pass.trans (ih fewer)

theorem route_offsetsRun {r : CountedRepeat} (hdriver : driver = .m4a ∨ driver = .mlss)
    (laid : r.IsAt driver s) (free : nestings.length + r.room ≤ depth driver) :
    Route driver s ⟨r.start, nestings, 0⟩ r.offsetsRun ⟨r.stop + r.length, nestings, 0⟩ := by
  obtain ⟨passes, count⟩ := Nat.exists_eq_add_of_le' laid.pos
  have all : 0 + (passes + 1) = r.count := by omega
  have passed := route_passes hdriver laid free passes all
  rwa [← count] at passed

end Route

/-! ## The count

Nothing but a repeat touches the count. So it is zero wherever no repeat has begun. -/

/-- Only the commands that repeat a body touch the count. -/
theorem reached_execute {c : Command} (plain : ∀ target count, c ≠ .again target count)
    (driver : SoundDriver) (offset : Nat) (h : Playhead) :
    (h.execute driver offset c).1.reached = h.reached := by
  cases c with
  | again target count => exact absurd rfl (plain target count)
  | wait ticks => cases ticks <;> rfl
  | call target passes =>
    rw [execute]
    split <;> rfl
  | openLoop passes =>
    rw [execute]
    split <;> rfl
  | endCall =>
    obtain ⟨_, _, _, same⟩ := exists_endCall_eq h
    simp only [execute, settle, same]
  | closeLoop =>
    obtain ⟨_, _, _, same⟩ := exists_closeLoop_eq h
    simp only [execute, settle, same]
  | _ => rfl

theorem reached_hop
    (plain : ∀ e ∈ h.trace driver s 1, ∀ target count, e.command ≠ .again target count) :
    (h.hop driver s).reached = h.reached := by
  unfold hop
  split
  · rfl
  · next unfinished =>
    rw [trace, if_neg unfinished] at plain
    show (h.step driver s).1.reached = h.reached
    unfold entries command? at plain
    unfold step
    split
    · rfl
    · next inside =>
      rw [if_neg inside] at plain
      generalize s.decode driver h.cursor h.status = result at plain ⊢
      obtain ⟨status, e | d⟩ := result
      · rfl
      · exact reached_execute (plain _ (List.mem_singleton_self _)) driver _ _

theorem reached_iterate_hop (n : Nat)
    (plain : ∀ e ∈ h.trace driver s n, ∀ target count, e.command ≠ .again target count) :
    ((hop driver s)^[n] h).reached = h.reached := by
  induction n generalizing h with
  | zero => rfl
  | succ n ih =>
    rw [Nat.add_comm, trace_add] at plain
    have first := reached_hop fun e mem => plain e (List.mem_append_left _ mem)
    have later := ih (h := h.hop driver s) fun e mem => plain e (List.mem_append_right _ mem)
    exact later.trans first

/-! ## In a log

The first moment at which the log enters the body decides about what follows, as the playhead behind
a part of a log is known up to its rest. -/

theorem Akin.goesOn {h' : Playhead} (a : h.Akin h') : h.GoesOn h' := by
  obtain ⟨progress, rest, rfl⟩ := a.eq
  exact ⟨rfl, rfl⟩

theorem Akin.spot_eq {h' : Playhead} (a : h.Akin h') : h'.spot = h.spot := by
  obtain ⟨progress, rest, rfl⟩ := a.eq
  rfl

/-- A body that is entered is run as often as it is to be, and then left. -/
theorem exists_done {r : CountedRepeat} (hdriver : driver = .m4a ∨ driver = .mlss)
    (laid : r.IsAt driver s) (unlimited : Unlimited driver limit s h) {ticks : Nat}
    {before after : List Entry} (run : h.log driver limit s ticks = before ++ after)
    (entered : r.Entered driver (h.lastPlace before)) :
    ∃ ticks' done later, h.log driver limit s ticks' = before ++ done ++ later ∧
      r.Done (h.lastPlace before) done := by
  obtain ⟨m, -, rfl, -, akin⟩ := exists_trace_of_log unlimited run
  generalize h.lastPlace (h.woken.trace driver s m) = arrival at entered akin ⊢
  generalize place_eq : (hop driver s)^[m] h.woken = place at akin
  have here : place.spot = ⟨r.start, arrival.nestings, 0⟩ := by
    rw [akin.spot_eq, spot, entered.cursor_eq, entered.reached_eq]
  have unfinished : ¬ place.IsFinished := fun finished =>
    entered.unfinished (akin.isFinished_iff.mp finished)
  obtain ⟨h', walk, goes, there, going⟩ :=
    route_offsetsRun hdriver laid entered.room place here unfinished
  obtain ⟨offsets, hop_eq⟩ := walk.trace
  -- the passes are what the log goes on with
  obtain ⟨ticks', later, hlog⟩ := exists_log_eq_append unlimited (m + r.offsetsRun.length)
  rw [trace_add, place_eq] at hlog
  refine ⟨ticks', _, later, hlog, ?_⟩
  have last : (arrival.lastPlace (place.trace driver s r.offsetsRun.length)).Akin h' := by
    have going' : ¬ ((hop driver s)^[r.offsetsRun.length] place).IsFinished := by rwa [hop_eq]
    have traced := lastPlace_trace r.offsetsRun.length going'
    rw [hop_eq] at traced
    exact (akin.lastPlace _).trans (.of_rest traced)
  obtain ⟨cursor, nestings, reached⟩ := Spot.mk.inj (last.spot_eq.symm.trans there)
  exact
    { offsets_eq := by
        have same : place.cursor = arrival.cursor := congrArg Spot.cursor akin.spot_eq
        rwa [same] at offsets
      cursor_eq := cursor
      nestings_eq := nestings
      reached_eq := reached
      unfinished := fun finished => going (last.isFinished_iff.mpr finished)
      goesOn := akin.goesOn.trans (goes.trans last.symm.goesOn) }

/-- A counted repeat runs its body as often as it says, and then goes on behind it with the count at
zero and no loop counted. So whenever the body is entered later with the count at zero, it is run as
often again; and the count stays at zero until another such command is run. -/
theorem repeats_run_count_times (hdriver : driver = .m4a ∨ driver = .mlss) {r : CountedRepeat}
    (laid : r.IsAt driver s) (unlimited : Unlimited driver limit s h) {ticks : Nat}
    {before after : List Entry} (run : h.log driver limit s ticks = before ++ after)
    (entered : r.Entered driver (h.lastPlace before)) :
    ∃ ticks' done later, h.log driver limit s ticks' = before ++ done ++ later ∧
      r.Done (h.lastPlace before) done ∧
      ∀ {ticks : Nat} {between after : List Entry},
        h.log driver limit s ticks = before ++ done ++ between ++ after →
        let next := h.lastPlace (before ++ done ++ between)
        ((∀ e ∈ between, ∀ target count, e.command ≠ .again target count) → next.reached = 0) ∧
          (r.Entered driver next →
            ∃ ticks' done' later, h.log driver limit s ticks' =
              before ++ done ++ between ++ done' ++ later ∧ r.Done next done') := by
  obtain ⟨ticks', done, later, hlog, hdone⟩ := exists_done hdriver laid unlimited run entered
  refine ⟨ticks', done, later, hlog, hdone, fun {ticks between after} run => ⟨fun plain => ?_,
    exists_done hdriver laid unlimited run⟩⟩
  rw [List.append_assoc (before ++ done)] at run
  -- nothing between the two passages repeats, so what the first has left is what the next finds
  obtain ⟨m, k, -, onward, akin⟩ := exists_trace_of_log unlimited run
  obtain ⟨n, -, hbetween, -, akin'⟩ := exists_trace_of_append onward.symm
  have kept := reached_iterate_hop n (hbetween ▸ plain)
  have last := (akin.lastPlace between).trans akin'
  calc (h.lastPlace (before ++ done ++ between)).reached
    _ = (((hop driver s)^[n]) ((hop driver s)^[m] h.woken)).reached := by
      rw [lastPlace_append]
      exact congrArg Spot.reached last.spot_eq.symm
    _ = ((hop driver s)^[m] h.woken).reached := kept
    _ = (h.lastPlace (before ++ done)).reached := congrArg Spot.reached akin.spot_eq
    _ = 0 := by rw [lastPlace_append, hdone.reached_eq]

/-- A stream of M4A that calls the same place two times. There a body with a call and a rest in it
is run twice, and what is called stands right behind it. -/
def repeatedInCalls : EventStream :=
  { bytes := ⟨#[0xB3, 11, 0, 0, 0, 0xB3, 11, 0, 0, 0, 0xB1,
      0xBE, 100, 0xB3, 25, 0, 0, 0, 0x81, 0xB5, 2, 11, 0, 0, 0, 0xBF, 64, 0xB4]⟩ }

theorem repeats_run_count_times_repeatedInCalls :
    let h := atStart .m4a 0
    let before := (h.log .m4a 20 repeatedInCalls 1).take 1
    ∃ ticks done later, h.log .m4a 20 repeatedInCalls ticks = before ++ done ++ later ∧
      offsetsFrom 11 done = [11, 13, 25, 27, 18, 19, 11, 13, 25, 27, 18, 19] ∧
      (h.lastPlace (before ++ done)).cursor = 25 := by
  intro h before
  let r : CountedRepeat :=
    { start := 11, stop := 19, room := 1, offsets := [11, 13, 25, 27, 18], count := 2, length := 6 }
  have laid : r.IsAt .m4a repeatedInCalls := by
    -- the passage is laid out command by command
    have sets : repeatedInCalls.Writes .m4a 11 (.volume 100) 2 :=
      ⟨fun _ => ⟨0xBE, rfl, by decide⟩, rfl⟩
    have calls : repeatedInCalls.Writes .m4a 13 (.call 25 (some 1)) 5 :=
      ⟨fun _ => ⟨0xB3, rfl, by decide⟩, rfl⟩
    have places : repeatedInCalls.Writes .m4a 25 (.pan 0) 2 :=
      ⟨fun _ => ⟨0xBF, rfl, by decide⟩, rfl⟩
    have returns : repeatedInCalls.Writes .m4a 27 .endCall 1 :=
      ⟨fun _ => ⟨0xB4, rfl, by decide⟩, rfl⟩
    have rests : repeatedInCalls.Writes .m4a 18 (.wait 1) 1 :=
      ⟨fun _ => ⟨0x81, rfl, by decide⟩, rfl⟩
    have repeats : repeatedInCalls.Writes .m4a 19 (.again 11 2) 6 :=
      ⟨fun _ => ⟨0xB5, rfl, by decide⟩, rfl⟩
    have called : EventStream.Passage .m4a repeatedInCalls 0 25 27 [25] :=
      .command (by decide) places .nil
    have body : EventStream.Passage .m4a repeatedInCalls 1 11 19 [11, 13, 25, 27, 18] :=
      .command (by decide) sets (.call calls called returns (.command (by decide) rests .nil))
    exact ⟨by decide, body, repeats⟩
  have unlimited : Unlimited .m4a 20 repeatedInCalls h := by
    have ended : (h.ticked .m4a 20 repeatedInCalls 5).IsFinished := by decide +kernel
    exact unlimited_of_isFinished ended (by decide +kernel)
  have run : h.log .m4a 20 repeatedInCalls 1 =
      before ++ (h.log .m4a 20 repeatedInCalls 1).drop 1 :=
    (List.take_append_drop 1 _).symm
  -- the first command has been run, and the passage begins there
  have entered : r.Entered .m4a (h.lastPlace before) :=
    { cursor_eq := by decide +kernel
      reached_eq := by decide +kernel
      room := by decide +kernel
      unfinished := by decide +kernel }
  obtain ⟨ticks, done, later, hlog, passed, -⟩ :=
    repeats_run_count_times (Or.inl rfl) laid unlimited run entered
  refine ⟨ticks, done, later, hlog, ?_, ?_⟩
  · have start : (h.lastPlace before).cursor = 11 := entered.cursor_eq
    have offsets := passed.offsets_eq
    rw [start] at offsets
    exact offsets
  · rw [lastPlace_append]
    exact passed.cursor_eq

/-- A stream of M4A that repeats a rest, and has a second command around all that which is to repeat
it as well. -/
def repeatedAround : EventStream :=
  { bytes := ⟨#[0x81, 0xB5, 2, 0, 0, 0, 0, 0x82, 0xB5, 2, 0, 0, 0, 0, 0xB1]⟩ }

/-- Both commands use the same count. So when the outer one has gone back, the inner one finds it
begun, and the body is not run as often as before. -/
theorem repeatedAround_runs_once :
    let h := atStart .m4a 0
    let log := h.log .m4a 20 repeatedAround
    let r : CountedRepeat :=
      { start := 0, stop := 1, room := 0, offsets := [0], count := 2, length := 6 }
    r.IsAt .m4a repeatedAround ∧ Unlimited .m4a 20 repeatedAround h ∧ r.Entered .m4a h ∧
      ∃ done between after, log 5 = done ++ between ++ after ∧ r.Done h done ∧
        let next := h.lastPlace (done ++ between)
        next.cursor = r.start ∧ next.nestings.length + r.room ≤ depth .m4a ∧ ¬ next.IsFinished ∧
          ∀ ticks done' later, log ticks = done ++ between ++ done' ++ later →
            ¬ r.Done next done' := by
  intro h log r
  have laid : r.IsAt .m4a repeatedAround := by
    have rests : repeatedAround.Writes .m4a 0 (.wait 1) 1 := ⟨fun _ => ⟨0x81, rfl, by decide⟩, rfl⟩
    have repeats : repeatedAround.Writes .m4a 1 (.again 0 2) 6 :=
      ⟨fun _ => ⟨0xB5, rfl, by decide⟩, rfl⟩
    exact ⟨by decide, .command (by decide) rests .nil, repeats⟩
  -- from the third tick on, three ticks lead to the same place again
  have unlimited : Unlimited .m4a 20 repeatedAround h := by
    apply unlimited_of_period (by decide : 0 < 3)
    · show h.ticked .m4a 20 repeatedAround (3 + 3) = h.ticked .m4a 20 repeatedAround 3
      decide +kernel
    · decide +kernel
  have entered : r.Entered .m4a h :=
    { cursor_eq := rfl, reached_eq := rfl, room := by decide, unfinished := by decide }
  have cut : log 5 = (log 5).take 4 ++ ((log 5).drop 4).take 2 ++ ((log 5).drop 4).drop 2 := by
    rw [List.append_assoc, List.take_append_drop, List.take_append_drop]
  refine ⟨laid, unlimited, entered, _, _, _, cut, ?_, ?_⟩
  · exact
      { offsets_eq := by decide +kernel
        cursor_eq := by decide +kernel
        nestings_eq := by decide +kernel
        reached_eq := by decide +kernel
        unfinished := by decide +kernel
        goesOn := ⟨by decide +kernel, by decide +kernel⟩ }
  · refine ⟨by decide +kernel, by decide +kernel, by decide +kernel,
      fun ticks done' later run again => ?_⟩
    -- two passes would go back to the start behind the first one, where the log goes on
    have twice : r.offsetsRun[2]? = some 0 := rfl
    rw [← again.offsets_eq] at twice
    obtain ⟨e, second, back⟩ := exists_of_getElem?_offsetsFrom twice
    have six : ((log 5).take 4 ++ ((log 5).drop 4).take 2).length = 6 := by decide +kernel
    have seventh : (log ticks)[7]? = some e := by
      have inside : 1 < done'.length := (List.getElem?_eq_some_iff.mp second).1
      rw [run, List.append_assoc, List.getElem?_append_right (by omega), six,
        List.getElem?_append_left inside]
      exact second
    have onward : (log 6)[7]?.map (fun e => e.place.cursor) = some 7 := by decide +kernel
    obtain ⟨e', found, out⟩ := Option.map_eq_some_iff.mp onward
    rw [getElem?_log_eq found seventh, back] at out
    cases out

end Playhead
end Chiptune
