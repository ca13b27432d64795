import Chiptune.Proofs.Checked.Playhead

/-!
# Which counters run full

Of the counters that nothing bounds, a tick of a playhead only counts two: how often the stream has
gone back, and the last pause of a DSE stream. Everything else that it calculates traps for other
reasons, or not at all, so a tick in words comes out right as long as these two fit
(`Playhead.checkedTick_cases`).

Whether a number is in range does not matter here. So `Checked.FillsOnly` follows how a calculation
is put together, and nothing needs to be known of the playhead.
-/

namespace Chiptune

namespace Checked

variable {α β : Type} {allowed : Counter → Prop}

/-- The calculation finds no counters full but those. -/
def FillsOnly (allowed : Counter → Prop) (m : Checked α) : Prop :=
  ∀ c, m = .error (.full c) → allowed c

namespace FillsOnly

theorem ok (a : α) : FillsOnly allowed (.ok a) := by
  intro c h
  cases h

/-- A counter is found full in the first calculation or in the second one. -/
theorem bind {m : Checked α} {f : α → Checked β} (h : m.FillsOnly allowed)
    (next : ∀ a, (f a).FillsOnly allowed) : (m >>= f).FillsOnly allowed := by
  intro c full
  cases m with
  | ok a => exact next a c full
  | error trap =>
    cases full
    exact h c rfl

theorem word {bits n : Nat} : (word bits n).FillsOnly allowed := by
  intro c h
  unfold Checked.word at h
  split at h <;> cases h

theorem signed {bits : Nat} {x : Int} : (signed bits x).FillsOnly allowed := by
  intro c h
  unfold Checked.signed at h
  split at h <;> cases h

theorem less {a b : Nat} : (less a b).FillsOnly allowed := by
  intro c h
  unfold Checked.less at h
  split at h <;> cases h

theorem entry {table : Array α} {i : Nat} : (entry table i).FillsOnly allowed := by
  intro c h
  unfold Checked.entry at h
  split at h <;> cases h

/-- Counting finds no counter full but the one that is counted. -/
theorem count {c : Counter} {n : Nat} (h : allowed c) : (count c n).FillsOnly allowed := by
  intro c' full
  unfold Checked.count at full
  split at full
  · cases full
  · cases full
    exact h

/-- What comes out right or finds one of two counters full. -/
theorem cases_of_gives {m : Checked α} {a : α} {c d : Counter}
    (h : m.FillsOnly fun e => e = c ∨ e = d) (gives : Gives m a) :
    m = .ok a ∨ m = .error (.full c) ∨ m = .error (.full d) := by
  cases gives with
  | ok => exact Or.inl rfl
  | full e =>
    rcases h e rfl with rfl | rfl
    · exact Or.inr (Or.inl rfl)
    · exact Or.inr (Or.inr rfl)

end FillsOnly
end Checked

open Checked

/-! ## Decoding

The opcode tables are gone through once more, this time for what they count. Only one line of one
table does: the DSE opcode that makes the last pause longer. All other calculations are checks that
trap for another reason or not at all. -/

namespace CheckedReading

variable {α β : Type} {allowed : Counter → Prop}

/-- The reading finds no counters full but those. -/
def FillsOnly (allowed : Counter → Prop) (r : CheckedReading α) : Prop :=
  ∀ s place, (r s place).FillsOnly allowed

namespace FillsOnly

theorem pure (a : α) : (pure a : CheckedReading α).FillsOnly allowed := fun _ _ => .ok _

theorem plain (r : Reading α) : (plain r).FillsOnly allowed := fun _ _ => .ok _

/-- A calculation inside a reading finds full what it finds full by itself. -/
theorem calculate {m : Checked α} (h : m.FillsOnly allowed) :
    (calculate m).FillsOnly allowed := fun _ _ => h.bind fun _ => .ok _

/-- Where the stream ends, nothing more is counted. -/
theorem bind {r : CheckedReading α} {next : α → CheckedReading β} (h : r.FillsOnly allowed)
    (h' : ∀ a, (next a).FillsOnly allowed) : (r >>= next).FillsOnly allowed := by
  intro s place
  refine (h s place).bind ?_
  intro found
  cases found with
  | ok found => exact h' found.1 s found.2
  | error d => exact .ok _

/-- What is done with the value finds no counter full. -/
theorem giving {r : CheckedReading α} {f : α → β} (h : r.FillsOnly allowed) :
    (do return f (← r) : CheckedReading β).FillsOnly allowed := h.bind fun _ => .pure _

theorem centred : centred.FillsOnly allowed := (plain _).bind fun _ => calculate .signed

theorem varlen : varlen.FillsOnly allowed := (plain _).bind fun _ => calculate .word

/-- The place that is gone to is calculated with checks, but not counted. -/
theorem displacement : displacement.FillsOnly allowed := by
  refine (plain _).bind ?_
  intro delta s place
  refine Checked.FillsOnly.signed.bind ?_
  intro target
  split
  · exact Checked.FillsOnly.word.bind fun _ => .ok _
  · exact .ok _

end FillsOnly
end CheckedReading

namespace CheckedDecoder

variable {α : Type} {allowed : Counter → Prop}

/-- The decoder finds no counters full but those. -/
def FillsOnly (allowed : Counter → Prop) (d : CheckedDecoder) : Prop :=
  ∀ status s place, (d status s place).FillsOnly allowed

namespace FillsOnly

theorem plain (d : Decoder) : (plain d).FillsOnly allowed := fun _ _ _ => .ok _

theorem reading {r : CheckedReading Command} (h : r.FillsOnly allowed) :
    (reading r).FillsOnly allowed := fun _ s place => (h s place).bind fun _ => .ok _

/-- The status is made anew by a calculation of its own, which may count. -/
theorem updating {r : CheckedReading α} {next : Status → α → Checked (Status × Command)}
    (h : r.FillsOnly allowed) (h' : ∀ status a, (next status a).FillsOnly allowed) :
    (updating r next).FillsOnly allowed := by
  intro status s place
  refine (h s place).bind ?_
  intro found
  cases found with
  | ok found => exact (h' status found.1).bind fun _ => .ok _
  | error d => exact .ok _

theorem after {m : Checked α} {next : α → CheckedDecoder} (h : m.FillsOnly allowed)
    (h' : ∀ a, (next a).FillsOnly allowed) : (after m next).FillsOnly allowed :=
  fun status s place => h.bind fun a => h' a status s place

/-- The table decides what is counted, opcode by opcode. -/
theorem byOpcode {table : UInt8 → CheckedDecoder} (h : ∀ op, (table op).FillsOnly allowed) :
    (byOpcode table).FillsOnly allowed := by
  intro status s place
  unfold CheckedDecoder.byOpcode
  split
  · exact h _ status s _
  · exact .ok _

end FillsOnly
end CheckedDecoder

namespace EventStream

open CheckedDecoder

variable {allowed : Counter → Prop}

/-- A table that is entered at a byte. -/
theorem fillsOnly_entry {α : Type} {table : Array α} {a b : Nat} :
    (do entry table (← less a b)).FillsOnly allowed :=
  Checked.FillsOnly.less.bind fun _ => .entry

/-- No opcode of M4A counts anything. -/
theorem M4a.fillsOnly_checkedPlain (op : UInt8) : (M4a.checkedPlain op).FillsOnly allowed := by
  unfold checkedPlain
  split
  · exact (CheckedReading.FillsOnly.plain _).bind fun _ => .giving (.calculate .word)
  · exact .giving .centred
  · exact CheckedReading.FillsOnly.centred.bind fun _ => .giving (.calculate .signed)
  · split
    · exact .giving (.calculate fillsOnly_entry)
    · exact .plain _

/-- No opcode of MLSS does. -/
theorem Mlss.fillsOnly_checkedPlain (op : UInt8) : (Mlss.checkedPlain op).FillsOnly allowed := by
  unfold checkedPlain
  split
  · exact .giving .centred
  · exact (CheckedReading.FillsOnly.plain _).bind fun _ => .giving (.calculate .signed)
  · exact .giving .displacement
  · exact (CheckedReading.FillsOnly.plain _).bind fun _ => .giving .displacement
  · exact .plain _

/-- No opcode of SDAT does. -/
theorem Sdat.fillsOnly_checkedPlain (op : UInt8) : (Sdat.checkedPlain op).FillsOnly allowed := by
  unfold checkedPlain
  split
  · exact .giving .varlen
  · exact .giving .varlen
  · exact .giving .centred
  · exact (CheckedReading.FillsOnly.plain _).bind fun _ => .giving (.calculate .signed)
  · exact .plain _

theorem M4a.fillsOnly_checkedNote (duration : Option Nat) :
    (M4a.checkedNote duration).FillsOnly allowed := by
  intro status s place
  cases duration with
  | none => exact .ok _
  | some ticks =>
    exact (Checked.FillsOnly.word.bind fun _ => .ok _).bind fun _ => .ok _

theorem M4a.fillsOnly_checkedPerform (op : UInt8) :
    (M4a.checkedPerform op).FillsOnly allowed := by
  unfold checkedPerform
  split
  · exact .reading (M4a.fillsOnly_checkedPlain op)
  · split
    · exact .plain _
    · split
      · exact M4a.fillsOnly_checkedNote none
      · exact .after fillsOnly_entry fun ticks => M4a.fillsOnly_checkedNote (some ticks)

/-- Running status is checked by comparisons only. -/
theorem M4a.fillsOnly_checkedDecoder : M4a.checkedDecoder.FillsOnly allowed := by
  intro status s place
  unfold checkedDecoder
  split
  · exact .ok _
  · split
    · exact M4a.fillsOnly_checkedPerform _ _ _ _
    · split
      · exact M4a.fillsOnly_checkedPerform _ _ _ _
      · exact .ok _

/-- The key of a note is calculated with signs, and the duration is read. -/
theorem Dse.fillsOnly_checkedNote (velocity : Nat) :
    (Dse.checkedNote velocity).FillsOnly allowed := by
  intro status s place
  unfold checkedNote
  split
  · exact .ok _
  · exact Checked.FillsOnly.signed.bind fun _ => Checked.FillsOnly.signed.bind fun _ =>
      Checked.FillsOnly.signed.bind fun _ => .ok _

/-- Only one opcode counts. -/
theorem Dse.fillsOnly_checkedPerform {op : UInt8} (allows : op = 0x91 → allowed .lastPause) :
    (Dse.checkedPerform op).FillsOnly allowed := by
  unfold checkedPerform
  split
  · exact Dse.fillsOnly_checkedNote _
  · split
    · exact .after fillsOnly_entry fun _ => .plain _
    · split
      · refine .updating (.plain _) fun _ _ => ?_
        exact (Checked.FillsOnly.count (allows rfl)).bind fun _ => .ok _
      · exact .updating (.plain _) fun _ _ => Checked.FillsOnly.signed.bind fun _ => .ok _
      · exact .reading (.giving .centred)
      · exact .plain _

theorem Sdat.fillsOnly_checkedNote (key : Nat) : (Sdat.checkedNote key).FillsOnly allowed := by
  refine .updating ?_ fun _ _ => .ok _
  exact (CheckedReading.FillsOnly.plain _).bind fun _ => .giving .varlen

/-- Decoding counts what the table of the driver counts. -/
theorem fillsOnly_checkedDecode_of_decoder {driver : SoundDriver} {s : EventStream} {cursor : Nat}
    {status : Status} (decoder : (driver.checkedDecoder status s cursor).FillsOnly allowed) :
    (s.checkedDecode driver cursor status).FillsOnly allowed := by
  refine Checked.FillsOnly.word.bind fun _ => decoder.bind ?_
  rintro ⟨status, d | ⟨command, after⟩⟩
  · exact .ok _
  · exact Checked.FillsOnly.less.bind fun _ => .ok _

/-- Only a pause of a DSE stream is counted. -/
theorem fillsOnly_checkedDecoder {driver : SoundDriver}
    (allows : driver = .dse → allowed .lastPause) : driver.checkedDecoder.FillsOnly allowed := by
  cases driver with
  | m4a => exact M4a.fillsOnly_checkedDecoder
  | mlss =>
    apply CheckedDecoder.FillsOnly.byOpcode
    intro op
    split
    · exact .plain _
    · exact .reading (Mlss.fillsOnly_checkedPlain op)
  | dse => exact .byOpcode fun _ => Dse.fillsOnly_checkedPerform fun _ => allows rfl
  | sdat =>
    apply CheckedDecoder.FillsOnly.byOpcode
    intro op
    split
    · exact Sdat.fillsOnly_checkedNote _
    · exact .reading (Sdat.fillsOnly_checkedPlain op)

/-- Decoding finds at most the last pause full, whatever the driver. -/
theorem fillsOnly_checkedDecode (allows : allowed .lastPause) (driver : SoundDriver)
    (s : EventStream) (cursor : Nat) (status : Status) :
    (s.checkedDecode driver cursor status).FillsOnly allowed :=
  fillsOnly_checkedDecode_of_decoder (fillsOnly_checkedDecoder (fun _ => allows) status s cursor)

end EventStream

/-! ## Ticks

What executing a command adds to this: a jump back counts that the stream has gone back, and so does
the end of a pass of a call or loop that has no number of passes. Hence a tick of a playhead has two
counters to fear, and `checkedTick_cases` tells them apart. -/

namespace Playhead

variable {driver : SoundDriver} {limit : Nat} {s : EventStream} {source : TrackSource}
  {h : Playhead} {allowed : Counter → Prop}

section

variable (allows : allowed .trackLoops)
include allows

/-- Only a loop without a number of passes counts how often it has gone back. -/
theorem fillsOnly_checkedEndPass {target : Nat} {passes : Option Nat}
    {again : Option Nat → Nesting} {left : Playhead} {outer : List Nesting} :
    (h.checkedEndPass target passes again left outer).FillsOnly allowed := by
  cases passes with
  | some n =>
    unfold checkedEndPass
    dsimp only
    split
    · exact FillsOnly.less.bind fun _ => .ok _
    · exact .ok _
  | none => exact (FillsOnly.count allows).bind fun _ => .ok _

/-- Of all commands, only those that go back count. -/
theorem fillsOnly_checkedExecute {offset : Nat} (c : Command) :
    (h.checkedExecute driver offset c).FillsOnly allowed := by
  -- loops and calls add to the cursor or count that they have gone back, and the others do neither
  cases c with
  | jump target =>
    refine FillsOnly.bind ?_ fun _ => .ok _
    unfold checkedJump
    split
    · exact (FillsOnly.count allows).bind fun _ => .ok _
    · exact .ok _
  | call target passes =>
    refine FillsOnly.word.bind fun _ => ?_
    split <;> exact .ok _
  | endCall =>
    refine FillsOnly.bind ?_ fun _ => .ok _
    unfold checkedEndCall
    split
    · exact fillsOnly_checkedEndPass allows
    · exact .ok _
  | again target count => exact (FillsOnly.word.bind fun _ => .ok _).bind fun _ => .ok _
  | openLoop passes =>
    refine FillsOnly.word.bind fun _ => ?_
    split <;> exact .ok _
  | closeLoop =>
    refine FillsOnly.bind ?_ fun _ => .ok _
    unfold checkedCloseLoop
    split
    · exact fillsOnly_checkedEndPass allows
    · exact .ok _
  | loopPoint => exact FillsOnly.word.bind fun _ => .ok _
  | _ => exact .ok _

variable (pauses : allowed .lastPause)
include pauses

/-- One command: the last pause may be full in decoding it, the loops in executing it. -/
theorem fillsOnly_checkedStep : (h.checkedStep driver s).FillsOnly allowed := by
  unfold checkedStep
  split
  · exact .ok _
  · refine (EventStream.fillsOnly_checkedDecode pauses driver s h.cursor h.status).bind ?_
    rintro ⟨status, e | d⟩
    · exact .ok _
    · exact FillsOnly.word.bind fun _ => fillsOnly_checkedExecute allows d.command

/-- All commands of a tick. -/
theorem fillsOnly_checkedRun {executed : Nat} {effects : Array Effect} (budget : Nat) :
    (checkedRun driver limit s budget executed h effects).FillsOnly allowed := by
  induction budget generalizing executed h effects with
  | zero => exact FillsOnly.word.bind fun _ => .ok _
  | succ budget ih =>
    refine FillsOnly.word.bind fun executed => ?_
    refine (fillsOnly_checkedStep allows pauses).bind fun moved => ?_
    dsimp only
    split
    · exact .ok _
    · exact ih

/-- A whole tick. What is left of a rest can be taken down by one without counting. -/
theorem fillsOnly_checkedTick : (h.checkedTick driver limit s).FillsOnly allowed := by
  have rest : h.checkedRest.FillsOnly allowed := by
    unfold checkedRest
    split
    · exact .less
    · exact .ok _
  unfold checkedTick
  split
  · exact .ok _
  · refine rest.bind fun rest => ?_
    split
    · exact .ok _
    · exact fillsOnly_checkedRun allows pauses limit

end

/-- In words, a tick of a playhead comes out as it does in plain numbers, unless the stream has gone
back too often or lengthened its pause too much to count. -/
theorem checkedTick_cases (hsource : source.Fits) (hlimit : limit < 2 ^ 32 - 1)
    (f : h.Fits driver source) :
    h.checkedTick driver limit source.stream = .ok (h.tick driver limit source.stream) ∨
      h.checkedTick driver limit source.stream = .error (.full .trackLoops) ∨
      h.checkedTick driver limit source.stream = .error (.full .lastPause) :=
  (fillsOnly_checkedTick (Or.inl rfl) (Or.inr rfl)).cases_of_gives
    (gives_checkedTick hsource hlimit f)

end Playhead
end Chiptune
