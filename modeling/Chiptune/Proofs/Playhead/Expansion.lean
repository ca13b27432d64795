import Chiptune.Proofs.Playhead.Log
import Chiptune.Proofs.Playhead.Places

/-!
# Loops and calls written out

A playhead runs a phrase as it is written out: the body of a loop as often as it is passed, and the
body of a call in place of the call (`Playhead.log_eq_expansion`).

What a playhead does next depends on no more than its cursor and its nestings, so that a passage of
a stream can be described by these alone (`Playhead.Leads`). Passages are put together along the
tree, and with the passes of a loop by induction on how many are left.
-/

namespace Chiptune

/-- A stream of SDAT: a loop of two passes around a call, and a rest behind it. -/
def EventStream.calledTwice : EventStream :=
  { bytes := ⟨#[0xD4, 2, 0x95, 10, 0, 0, 0xFC, 0x80, 1, 0xFF, 0xC1, 80, 0xFD]⟩ }

/-- A stream of SDAT that calls itself. -/
def EventStream.callsItself : EventStream := { bytes := ⟨#[0x95, 0, 0, 0, 0xFD]⟩ }

/-- The simple commands of a log. -/
def simpleCommands (l : List Entry) : List Command :=
  (l.map Entry.command).filter fun c => c.IsSimple

/-- What is kept of two logs is kept of each of them. -/
theorem simpleCommands_append (l m : List Entry) :
    simpleCommands (l ++ m) = simpleCommands l ++ simpleCommands m := by
  simp [simpleCommands]

namespace Playhead

variable {s : EventStream} {h : Playhead} {c : Command} {place length : Nat}

/-! ## Passages

`Leads` says what a stretch of the stream does to every playhead that comes to its start with the
same nestings: it comes to the other end, through these simple commands. Rests are skipped and the
limit of commands is left out, so that only the stream decides. Such stretches are put together by
`Leads.trans`. -/

/-- The playhead is under way at a place, with these loops and calls open. -/
structure StandsAt (h : Playhead) (place : Nat) (nestings : List Nesting) : Prop where
  cursor_eq : h.cursor = place
  nestings_eq : h.nestings = nestings
  unfinished : ¬ h.IsFinished

/-- No loop has been counted from `h` to `h'`, and no error has been met. -/
structure GoesOn (h h' : Playhead) : Prop where
  loopCount_eq : h'.loopCount = h.loopCount
  error_eq : h'.error = h.error

/-- `h'` is `h` after some commands. The simple ones of them are `commands`. -/
def Runs (s : EventStream) (h : Playhead) (commands : List Command) (h' : Playhead) : Prop :=
  ∃ count, simpleCommands (h.trace .sdat s count) = commands ∧ (hop .sdat s)^[count] h = h'

/-- From one place, with these loops and calls open, the stream leads to the other one, through
`commands` and through commands that are not simple. -/
def Leads (s : EventStream) (place : Nat) (nestings : List Nesting) (commands : List Command)
    (place' : Nat) (nestings' : List Nesting) : Prop :=
  ∀ h : Playhead, h.StandsAt place nestings →
    ∃ h', Runs s h commands h' ∧ h.GoesOn h' ∧ h'.StandsAt place' nestings'

section Leads

variable {place' place'' : Nat} {nestings nestings' nestings'' : List Nesting}
  {commands more : List Command}

/-- Runs that meet make one run. -/
theorem Runs.trans {h' h'' : Playhead} (a : Runs s h commands h') (b : Runs s h' more h'') :
    Runs s h (commands ++ more) h'' := by
  obtain ⟨m, hm, rfl⟩ := a
  obtain ⟨n, hn, rfl⟩ := b
  refine ⟨m + n, ?_, ?_⟩
  · rw [trace_add, simpleCommands_append, hm, hn]
  · rw [Nat.add_comm, Function.iterate_add_apply]

/-- What is gone on with twice has gone on. -/
theorem GoesOn.trans {h' h'' : Playhead} (a : h.GoesOn h') (b : h'.GoesOn h'') : h.GoesOn h'' :=
  ⟨b.loopCount_eq.trans a.loopCount_eq, b.error_eq.trans a.error_eq⟩

/-- Nothing leads from a place to itself. -/
theorem Leads.refl : Leads s place nestings [] place nestings := fun h stands =>
  ⟨h, ⟨0, rfl, rfl⟩, ⟨rfl, rfl⟩, stands⟩

/-- Ways that meet make one way, past the commands of both. -/
theorem Leads.trans (a : Leads s place nestings commands place' nestings')
    (b : Leads s place' nestings' more place'' nestings'') :
    Leads s place nestings (commands ++ more) place'' nestings'' := by
  intro h stands
  obtain ⟨h', hruns, hgoes, hstands⟩ := a h stands
  obtain ⟨h'', hruns', hgoes', hstands'⟩ := b h' hstands
  exact ⟨h'', hruns.trans hruns', hgoes.trans hgoes', hstands'⟩

/-- Commands that are not simple may follow unseen. -/
theorem Leads.onward (a : Leads s place nestings commands place' nestings')
    (b : Leads s place' nestings' [] place'' nestings'') :
    Leads s place nestings commands place'' nestings'' := by
  rw [← List.append_nil commands]
  exact a.trans b

/-! ### One command

A step of the playhead at a command that is known to stand there. Simple commands lead on to the
next one and are listed, all others only change the nestings and the place. -/

/-- The playhead when the command under its cursor has been read. -/
def behind (s : EventStream) (length : Nat) (h : Playhead) : Playhead :=
  { h with status := (s.decode .sdat h.cursor h.status).1, cursor := h.cursor + length }

/-- At a command that is known, a step is what this command does. -/
theorem step_of_has (has : s.Has h.cursor c length) :
    h.step .sdat s = (h.behind s length).execute .sdat h.cursor c := by
  have hdecode := (s.decode_sdat_snd h.cursor h.status).trans has
  unfold step behind
  rw [if_neg (Nat.not_le.mpr has.lt_size)]
  generalize s.decode .sdat h.cursor h.status = decoded at hdecode ⊢
  obtain ⟨status, result⟩ := decoded
  cases hdecode
  rfl

/-- Commands that only lead on are no part of the expansion. -/
theorem simpleCommands_entries (has : s.Has h.cursor c length) :
    simpleCommands (h.entries .sdat s) = if c.IsSimple then [c] else [] := by
  have hdecode := (s.decode_sdat_snd h.cursor h.status).trans has
  unfold entries command?
  rw [if_neg (Nat.not_le.mpr has.lt_size), hdecode]
  simp [simpleCommands, List.filter_cons]

/-- One command, and its rest skipped, is a run. -/
theorem runs_step (s : EventStream) (unfinished : ¬ h.IsFinished) :
    Runs s h (simpleCommands (h.entries .sdat s)) { (h.step .sdat s).1 with rest := 0 } := by
  refine ⟨1, ?_, if_neg unfinished⟩
  rw [trace, if_neg unfinished]
  exact congrArg _ (List.append_nil _)

/-- What a command does to every playhead behind it, it does to one that finds it. -/
theorem leads_of_execute (has : s.Has place c length)
    (execute : ∀ h : Playhead, h.StandsAt (place + length) nestings →
      h.GoesOn (h.execute .sdat place c).1 ∧
        (h.execute .sdat place c).1.StandsAt place' nestings') :
    Leads s place nestings (if c.IsSimple then [c] else []) place' nestings' := by
  intro h stands
  obtain ⟨rfl, hnestings, unfinished⟩ := stands
  -- to read a command changes the status, which no place depends on
  obtain ⟨goes, stands⟩ := execute (h.behind s length) ⟨rfl, hnestings, unfinished⟩
  have hruns := runs_step s unfinished
  rw [simpleCommands_entries has, step_of_has has] at hruns
  exact ⟨_, hruns, ⟨goes.loopCount_eq, goes.error_eq⟩,
    ⟨stands.cursor_eq, stands.nestings_eq, stands.unfinished⟩⟩

/-- A simple command leads on to the place behind it. -/
theorem leads_simple (simple : c.IsSimple) (has : s.Has place c length) :
    Leads s place nestings [c] (place + length) nestings := by
  have leads : Leads s place nestings (if c.IsSimple then [c] else [])
      (place + length) nestings := by
    apply leads_of_execute has
    intro h stands
    obtain ⟨progress, rest, controls, loopPoint, same, going⟩ :=
      exists_execute_eq simple .sdat place h
    rw [same]
    exact ⟨⟨rfl, rfl⟩, stands.cursor_eq, stands.nestings_eq, going stands.unfinished⟩
  rwa [if_pos simple] at leads

/-! ### Loops and calls

What opens and closes a nesting, command by command. A body that leads to the end of its loop is
then passed as often as the loop says, by induction on the passes that are left. -/

variable {target resume passes : Nat}

/-- Where there is room, a loop leads into its body. -/
theorem leads_openLoop (has : s.Has place (.openLoop (some passes)) length)
    (room : nestings.length < depth .sdat) :
    Leads s place nestings [] (place + length)
      (.loop (place + length) (some passes) :: nestings) := by
  apply leads_of_execute has
  intro h stands
  have hroom : h.nestings.length < depth .sdat := by rwa [stands.nestings_eq]
  rw [execute, if_pos hroom, stands.nestings_eq, stands.cursor_eq]
  exact ⟨⟨rfl, rfl⟩, rfl, rfl, not_isFinished_settle _⟩

/-- At its end a loop goes back to its start while more than one pass is left. -/
theorem leads_back (has : s.Has place .closeLoop length) (more : 1 < passes) :
    Leads s place (.loop target (some passes) :: nestings) [] target
      (.loop target (some (passes - 1)) :: nestings) := by
  apply leads_of_execute has
  intro h stands
  rw [execute, closeLoop, stands.nestings_eq]
  dsimp only [endPass]
  rw [if_pos more]
  exact ⟨⟨rfl, rfl⟩, rfl, rfl, not_isFinished_settle _⟩

/-- The end of a loop in its last pass leads out of it. -/
theorem leads_out (has : s.Has place .closeLoop length) (last : ¬ 1 < passes) :
    Leads s place (.loop target (some passes) :: nestings) [] (place + length) nestings := by
  apply leads_of_execute has
  intro h stands
  rw [execute, closeLoop, stands.nestings_eq]
  dsimp only [endPass]
  rw [if_neg last]
  exact ⟨⟨rfl, rfl⟩, stands.cursor_eq, rfl, not_isFinished_settle _⟩

/-- A call leads to its target and remembers where to resume. -/
theorem leads_call (has : s.Has place (.call target (some 1)) length)
    (room : nestings.length < depth .sdat) :
    Leads s place nestings [] target (.call (place + length) target (some 1) :: nestings) := by
  apply leads_of_execute has
  intro h stands
  have hroom : h.nestings.length < depth .sdat := by rwa [stands.nestings_eq]
  rw [execute, if_pos hroom, stands.nestings_eq, stands.cursor_eq]
  exact ⟨⟨rfl, rfl⟩, rfl, rfl, not_isFinished_settle _⟩

/-- The end of a body leads back behind the call. -/
theorem leads_endCall (has : s.Has place .endCall length) :
    Leads s place (.call resume target (some 1) :: nestings) [] resume nestings := by
  apply leads_of_execute has
  intro h stands
  rw [execute, endCall, stands.nestings_eq]
  exact ⟨⟨rfl, rfl⟩, rfl, rfl, not_isFinished_settle _⟩

/-- A body that leads to the end of its loop does so in every pass. -/
theorem leads_passes (closes : s.Has place' .closeLoop length)
    (body : ∀ passes, Leads s target (.loop target (some passes) :: nestings) commands place'
      (.loop target (some passes) :: nestings)) (passes : Nat) :
    Leads s target (.loop target (some (passes + 1)) :: nestings)
      (List.replicate (passes + 1) commands).flatten (place' + length) nestings := by
  -- on the passes that are left after this one
  induction passes with
  | zero =>
    show Leads s _ _ (commands ++ []) _ _
    exact (body 1).trans (leads_out closes (Nat.lt_irrefl 1))
  | succ passes ih =>
    have first : Leads s target (.loop target (some (passes + 1 + 1)) :: nestings) commands target
        (.loop target (some (passes + 1)) :: nestings) :=
      (body _).onward (leads_back closes (Nat.lt_add_left passes Nat.one_lt_two))
    rw [List.replicate_succ, List.flatten_cons]
    exact first.trans ih

end Leads

/-! ## Whole phrases

The induction is on the tree. With room for its depth a phrase leads through its expansion. Without,
there is a first loop or call that is one too many, and the phrase leads there. -/

variable {room start stop : Nat} {p : Phrase} {nestings : List Nesting}

/-- A whole loop: into the body, around as often as it says, and out. -/
theorem leads_loop {passes opening inner closing : Nat} {commands : List Command}
    (opens : s.Has place (.openLoop (some (passes + 1))) opening)
    (closes : s.Has inner .closeLoop closing) (free : nestings.length < depth .sdat)
    (body : ∀ nesting, Leads s (place + opening) (nesting :: nestings) commands inner
      (nesting :: nestings)) :
    Leads s place nestings (List.replicate (passes + 1) commands).flatten (inner + closing)
      nestings :=
  (leads_openLoop opens free).trans (leads_passes closes (fun _ => body _) passes)

/-- A whole call: to the body, through it and back. -/
theorem leads_body {target calling inner closing : Nat} {commands : List Command}
    (calls : s.Has place (.call target (some 1)) calling) (closes : s.Has inner .endCall closing)
    (free : nestings.length < depth .sdat)
    (body : ∀ nesting, Leads s target (nesting :: nestings) commands inner
      (nesting :: nestings)) :
    Leads s place nestings commands (place + calling) nestings :=
  (leads_call calls free).trans ((body _).onward (leads_endCall closes))

/-- One nesting more leaves room for one less. -/
theorem full_cons (nesting : Nesting) (full : nestings.length + (room + 1) = depth .sdat) :
    (nesting :: nestings).length + room = depth .sdat := by
  rw [List.length_cons]
  omega

/-- With room for all that it opens, a phrase leads from its start to its stop through its
expansion. -/
theorem leads_expansion (laid : p.IsAt s room start stop) (fits : p.depth ≤ room)
    (full : nestings.length + room = depth .sdat) :
    Leads s start nestings p.expansion stop nestings := by
  -- along the phrase; with each loop and each call there is room for one nesting less
  induction laid generalizing nestings with
  | nil => exact .refl
  | command simple has _ ih => exact (leads_simple simple has).trans (ih fits full)
  | loop pos opens _ closes _ ihBody ihRest =>
    obtain ⟨fitsBody, fitsRest⟩ := Nat.max_le.mp fits
    obtain ⟨passes, rfl⟩ := Nat.exists_eq_add_of_le' pos
    have free : nestings.length < depth .sdat := by omega
    have passed := leads_loop opens closes free fun nesting =>
      ihBody (Nat.le_of_succ_le_succ fitsBody) (full_cons nesting full)
    exact passed.trans (ihRest fitsRest full)
  | call calls _ closes _ ihBody ihRest =>
    obtain ⟨fitsBody, fitsRest⟩ := Nat.max_le.mp fits
    have free : nestings.length < depth .sdat := by omega
    have passed := leads_body calls closes free fun nesting =>
      ihBody (Nat.le_of_succ_le_succ fitsBody) (full_cons nesting full)
    exact passed.trans (ihRest fitsRest full)
  -- what lies deeper than there is room does not fit
  | loopBeyond => exact absurd (Nat.max_le.mp fits).1 (Nat.not_succ_le_zero _)
  | callBeyond => exact absurd (Nat.max_le.mp fits).1 (Nat.not_succ_le_zero _)

/-- The stream leads, through `before`, to a loop or call that is one too many. -/
def Overflows (s : EventStream) (place : Nat) (nestings : List Nesting) (before : List Command)
    (offset : Nat) : Prop :=
  s.OpensAt offset ∧
    ∃ full : List Nesting, depth .sdat ≤ full.length ∧ Leads s place nestings before offset full

/-- A way to a place that overflows, overflows. -/
theorem Overflows.after {place' offset : Nat} {nestings' : List Nesting}
    {commands before : List Command} (overflows : Overflows s place' nestings' before offset)
    (leads : Leads s place nestings commands place' nestings') :
    Overflows s place nestings (commands ++ before) offset := by
  obtain ⟨opens, full, hfull, hbefore⟩ := overflows
  exact ⟨opens, full, hfull, leads.trans hbefore⟩

/-- Without that room, it leads to the first loop or call that is one too many. -/
theorem overflows_of_overflow? {before : List Command} {offset : Nat}
    (laid : p.IsAt s room start stop) (deep : p.overflow? room = some (before, offset))
    (full : nestings.length + room = depth .sdat) :
    Overflows s start nestings before offset := by
  induction laid generalizing nestings before with
  | nil => cases deep
  | command simple has _ ih =>
    obtain ⟨⟨before, _⟩, hrest, heq⟩ := Option.map_eq_some_iff.mp deep
    cases heq
    exact (ih hrest full).after (leads_simple simple has)
  | @loop room _ passes _ _ _ _ body rest pos opens laidBody closes _ ihBody ihRest =>
    have free : nestings.length < depth .sdat := by omega
    -- the body is too deep, which shows in its first pass, or all passes come before
    rw [Phrase.overflow?, Option.or_eq_some_iff] at deep
    rcases deep with inside | ⟨fits, later⟩
    · exact (ihBody inside (full_cons _ full)).after (leads_openLoop opens free)
    · obtain ⟨⟨before, _⟩, hrest, heq⟩ := Option.map_eq_some_iff.mp later
      cases heq
      obtain ⟨passes, rfl⟩ := Nat.exists_eq_add_of_le' pos
      have fits := (body.overflow?_eq_none_iff room).mp fits
      have passed := leads_loop opens closes free fun nesting =>
        leads_expansion laidBody fits (full_cons nesting full)
      exact (ihRest hrest full).after passed
  | @call room _ _ _ _ _ _ body rest calls laidBody closes _ ihBody ihRest =>
    have free : nestings.length < depth .sdat := by omega
    rw [Phrase.overflow?, Option.or_eq_some_iff] at deep
    rcases deep with inside | ⟨fits, later⟩
    · exact (ihBody inside (full_cons _ full)).after (leads_call calls free)
    · obtain ⟨⟨before, _⟩, hrest, heq⟩ := Option.map_eq_some_iff.mp later
      cases heq
      have fits := (body.overflow?_eq_none_iff room).mp fits
      have passed := leads_body calls closes free fun nesting =>
        leads_expansion laidBody fits (full_cons nesting full)
      exact (ihRest hrest full).after passed
  | loopBeyond opens =>
    cases deep
    exact ⟨⟨_, _, opens, Or.inl ⟨_, rfl⟩⟩, nestings, by omega, .refl⟩
  | callBeyond calls =>
    cases deep
    exact ⟨⟨_, _, calls, Or.inr ⟨_, _, rfl⟩⟩, nestings, by omega, .refl⟩

/-! ## The end of the stream

What comes behind the phrase: the stream says that it is over, or it fails at the nesting for which
there is no room. -/

/-- Where the stream says that it ends, it is over without an error. -/
theorem runs_finish (unfinished : ¬ h.IsFinished) (ends : s.EndsAt h.cursor) :
    ∃ h', Runs s h [] h' ∧ h.GoesOn h' ∧ h'.IsFinished := by
  have hruns := runs_step s unfinished
  rcases ends with beyond | ⟨length, has⟩
  · have hnone : h.command? .sdat s = none := if_pos beyond
    have hstep : h.step .sdat s = (h.finish, [.ended]) := if_pos beyond
    rw [entries, hnone, hstep] at hruns
    exact ⟨_, hruns, ⟨rfl, rfl⟩, rfl⟩
  · rw [simpleCommands_entries has, step_of_has has] at hruns
    exact ⟨_, hruns, ⟨rfl, rfl⟩, rfl⟩

/-- A loop or call that is one too many stops the stream. -/
theorem runs_fail (unfinished : ¬ h.IsFinished) (opens : s.OpensAt h.cursor)
    (full : depth .sdat ≤ h.nestings.length) :
    ∃ h', Runs s h [] h' ∧ h'.IsFinished ∧ h'.error = some (.loopStackOverflow h.cursor) := by
  have hruns := runs_step s unfinished
  obtain ⟨c, length, has, hopens⟩ := opens
  have hfull : ¬ (h.behind s length).nestings.length < depth .sdat := Nat.not_lt.mpr full
  rw [simpleCommands_entries has, step_of_has has] at hruns
  rcases hopens with ⟨passes, rfl⟩ | ⟨target, passes, rfl⟩
  · rw [execute, if_neg hfull] at hruns
    exact ⟨_, hruns, rfl, rfl⟩
  · rw [execute, if_neg hfull] at hruns
    exact ⟨_, hruns, rfl, rfl⟩

/-! ## The log of a phrase

Back from skipped rests to ticks. As long as no tick is stopped by its limit, the log of enough
ticks is the trace, and later ticks add nothing. -/

/-- Waking up moves nothing. -/
theorem standsAt_woken {nestings : List Nesting} :
    h.woken.StandsAt place nestings ↔ h.StandsAt place nestings := by
  obtain ⟨progress, hwoken⟩ := exists_woken_eq h
  have hcursor : h.woken.cursor = h.cursor := by rw [hwoken]
  have hnestings : h.woken.nestings = h.nestings := by rw [hwoken]
  constructor
  · exact fun ⟨c, n, u⟩ => ⟨hcursor ▸ c, hnestings ▸ n, fun f => u (isFinished_woken.mpr f)⟩
  · exact fun ⟨c, n, u⟩ => ⟨hcursor.trans c, hnestings.trans n, fun f => u (isFinished_woken.mp f)⟩

/-- Once woken, a playhead goes on as it would have before. -/
theorem goesOn_woken (h : Playhead) : h.GoesOn h.woken ∧ h.woken.GoesOn h := by
  obtain ⟨progress, hwoken⟩ := exists_woken_eq h
  rw [hwoken]
  exact ⟨⟨rfl, rfl⟩, ⟨rfl, rfl⟩⟩

/-- After a trace that has not come to the end, the last command has led to where the playhead
is. -/
theorem standsAt_lastPlace {count : Nat} {nestings : List Nesting}
    (stands : ((hop .sdat s)^[count] h.woken).StandsAt place nestings)
    (goes : h.woken.GoesOn ((hop .sdat s)^[count] h.woken)) :
    (h.lastPlace (h.woken.trace .sdat s count)).StandsAt place nestings ∧
      h.GoesOn (h.lastPlace (h.woken.trace .sdat s count)) := by
  have hlast := lastPlace_trace count stands.unfinished
  have hstands : (h.woken.lastPlace (h.woken.trace .sdat s count)).StandsAt place nestings :=
    ⟨(congrArg cursor hlast).trans stands.cursor_eq,
      (congrArg Playhead.nestings hlast).trans stands.nestings_eq,
      fun finished => stands.unfinished ((congrArg progress hlast).symm.trans finished)⟩
  have hgoes : h.woken.GoesOn (h.woken.lastPlace (h.woken.trace .sdat s count)) :=
    ⟨(congrArg loopCount hlast).trans goes.loopCount_eq, (congrArg error hlast).trans goes.error_eq⟩
  obtain ⟨started, back⟩ := goesOn_woken h
  unfold lastPlace at hstands hgoes ⊢
  generalize (h.woken.trace .sdat s count).getLast? = last at hstands hgoes ⊢
  -- without any command, it is still where it was
  cases last with
  | none => exact ⟨standsAt_woken.mp hstands, ⟨rfl, rfl⟩⟩
  | some entry => exact ⟨hstands, started.trans hgoes⟩

/-- Where the stream is over after some commands, there are no more of them in any log. -/
theorem log_of_runs {limit : Nat} {commands : List Command} {h' : Playhead}
    (unlimited : Unlimited .sdat limit s h) (runs : Runs s h.woken commands h')
    (ended : h'.IsFinished) :
    ∃ enough, ∀ ticks ≥ enough, simpleCommands (h.log .sdat limit s ticks) = commands ∧
      (h.ticked .sdat limit s ticks).IsFinished ∧
      h'.GoesOn (h.ticked .sdat limit s ticks) := by
  obtain ⟨count, hcommands, rfl⟩ := runs
  obtain ⟨enough, hlog⟩ := exists_log_eq unlimited ended
  refine ⟨enough, fun ticks hticks => ?_⟩
  obtain ⟨htrace, hwoken⟩ := hlog ticks hticks
  rw [htrace, ← hwoken]
  rw [← hwoken] at ended
  exact ⟨hcommands, isFinished_woken.mp ended, (goesOn_woken _).2⟩

/-- A phrase is run as it is written out. If there is room for all that it opens, the commands that
are run are those of its expansion, and no loop or call is then left open; and if the stream is over
behind it, these are all. If there is no room, the stream stops at the first loop or call that is
one too many. -/
theorem log_eq_expansion {limit start stop : Nat} {p : Phrase} {s : EventStream} {h : Playhead}
    (laid : p.IsAt s (depth .sdat) start stop) (stands : h.StandsAt start [])
    (unlimited : Unlimited .sdat limit s h) :
    (p.depth ≤ depth .sdat →
      (∃ ticks done later, h.log .sdat limit s ticks = done ++ later ∧
        simpleCommands done = p.expansion ∧ (h.lastPlace done).StandsAt stop [] ∧
        h.GoesOn (h.lastPlace done)) ∧
      (s.EndsAt stop → ∃ enough, ∀ ticks ≥ enough,
        simpleCommands (h.log .sdat limit s ticks) = p.expansion ∧
        (h.ticked .sdat limit s ticks).IsFinished ∧ h.GoesOn (h.ticked .sdat limit s ticks))) ∧
    (depth .sdat < p.depth → ∃ before offset,
      p.overflow? (depth .sdat) = some (before, offset) ∧ ∃ enough, ∀ ticks ≥ enough,
        simpleCommands (h.log .sdat limit s ticks) = before ∧
        (h.ticked .sdat limit s ticks).IsFinished ∧
        (h.ticked .sdat limit s ticks).error = some (.loopStackOverflow offset)) := by
  have woken := standsAt_woken.mpr stands
  refine ⟨fun fits => ?_, fun deep => ?_⟩
  -- the phrase leads to its end, in so many commands
  · obtain ⟨h', ⟨count, hcommands, rfl⟩, goes, arrives⟩ :=
      leads_expansion laid fits rfl h.woken woken
    constructor
    · obtain ⟨ticks, later, hlog⟩ := exists_log_eq_append unlimited count
      exact ⟨ticks, _, later, hlog, hcommands, standsAt_lastPlace arrives goes⟩
    · intro ends
      -- and if the stream ends there, one more command finishes it
      obtain ⟨h', finishes, finished, ended⟩ :=
        runs_finish arrives.unfinished (arrives.cursor_eq.symm ▸ ends)
      have runs := Runs.trans ⟨count, hcommands, rfl⟩ finishes
      rw [List.append_nil] at runs
      obtain ⟨enough, hlog⟩ := log_of_runs unlimited runs ended
      refine ⟨enough, fun ticks hticks => ?_⟩
      obtain ⟨hsame, hover, hend⟩ := hlog ticks hticks
      exact ⟨hsame, hover, (goesOn_woken h).1.trans (goes.trans (finished.trans hend))⟩
  -- a phrase that is too deep has a place where it overflows, and there the playhead fails
  · obtain ⟨⟨before, offset⟩, hover⟩ := Option.ne_none_iff_exists'.mp
      (mt (p.overflow?_eq_none_iff _).mp (Nat.not_le.mpr deep))
    refine ⟨before, offset, hover, ?_⟩
    have none : ([] : List Nesting).length + depth .sdat = depth .sdat := Nat.zero_add _
    obtain ⟨opens, full, hfull, leads⟩ := overflows_of_overflow? laid hover none
    obtain ⟨h₁, arrival, -, arrives⟩ := leads h.woken woken
    obtain ⟨h', fails, ended, herror⟩ := runs_fail arrives.unfinished
      (arrives.cursor_eq.symm ▸ opens) (arrives.nestings_eq.symm ▸ hfull)
    have runs := arrival.trans fails
    rw [List.append_nil] at runs
    obtain ⟨enough, hlog⟩ := log_of_runs unlimited runs ended
    refine ⟨enough, fun ticks hticks => ?_⟩
    obtain ⟨hsame, hover, hend⟩ := hlog ticks hticks
    refine ⟨hsame, hover, ?_⟩
    rw [hend.error_eq, herror, arrives.cursor_eq]

theorem log_eq_expansion_calledTwice_callsItself :
    let h := atStart .sdat 0
    (∃ enough, ∀ ticks ≥ enough,
      simpleCommands (h.log .sdat 10 .calledTwice ticks) = [.volume 80, .volume 80, .wait 1]) ∧
    ∃ enough, ∀ ticks ≥ enough,
      (h.ticked .sdat 10 .callsItself ticks).error = some (.loopStackOverflow 0) := by
  intro h
  have stands : h.StandsAt 0 [] := ⟨rfl, rfl, by decide⟩
  constructor
  · have unlimited : Unlimited .sdat 10 .calledTwice h := by
      have ended : (h.ticked .sdat 10 .calledTwice 2).IsFinished := by decide +kernel
      exact unlimited_of_isFinished ended (by decide +kernel)
    -- the stream is laid out command by command
    have opens : EventStream.Has .calledTwice 0 (.openLoop (some 2)) 2 := rfl
    have calls : EventStream.Has .calledTwice 2 (.call 10 (some 1)) 4 := rfl
    have sets : EventStream.Has .calledTwice 10 (.volume 80) 2 := rfl
    have returns : EventStream.Has .calledTwice 12 .endCall 1 := rfl
    have closes : EventStream.Has .calledTwice 6 .closeLoop 1 := rfl
    have rests : EventStream.Has .calledTwice 7 (.wait 1) 2 := rfl
    have ends : EventStream.Has .calledTwice 9 .finish 1 := rfl
    have called : Phrase.IsAt .calledTwice 1 (.command (.volume 80) .nil) 10 12 :=
      .command trivial sets .nil
    have laid : Phrase.IsAt .calledTwice 3
        (.loop 0 2 (.call 2 (.command (.volume 80) .nil) .nil) (.command (.wait 1) .nil)) 0 9 :=
      .loop (by decide) opens (.call calls called returns .nil) closes
        (.command trivial rests .nil)
    obtain ⟨enough, hlog⟩ :=
      ((log_eq_expansion laid stands unlimited).1 (by decide)).2 (Or.inr ⟨1, ends⟩)
    exact ⟨enough, fun ticks hticks => (hlog ticks hticks).1⟩
  · have unlimited : Unlimited .sdat 10 .callsItself h := by
      intro ticks offset
      have ended : (h.ticked .sdat 10 .callsItself 1).IsFinished := by decide +kernel
      have hticks : ∀ t ≤ 1, (h.ticked .sdat 10 .callsItself t).error = none ∨
          (h.ticked .sdat 10 .callsItself t).error = some (.loopStackOverflow 0) := by
        decide +kernel
      obtain ⟨t, ht, hsame⟩ := exists_ticked_eq ended ticks
      rcases hticks t ht with herror | herror
      · simp [hsame, herror]
      · simp [hsame, herror]
    have calls : EventStream.Has .callsItself 0 (.call 0 (some 1)) 4 := rfl
    have returns : EventStream.Has .callsItself 4 .endCall 1 := rfl
    -- a body that calls itself is a phrase of any depth that is asked for
    have again : ∀ {room : Nat} {p : Phrase}, p.IsAt .callsItself room 0 4 →
        (Phrase.call 0 p .nil).IsAt .callsItself (room + 1) 0 4 := fun inside =>
      .call calls inside returns .nil
    have deepest : (Phrase.call 0 .nil .nil).IsAt .callsItself 0 0 4 := .callBeyond calls
    obtain ⟨before, offset, hover, enough, hlog⟩ :=
      (log_eq_expansion (again (again (again deepest))) stands unlimited).2 (by decide)
    cases hover
    exact ⟨enough, fun ticks hticks => (hlog ticks hticks).2.2⟩

end Playhead
end Chiptune
