import Chiptune.Proofs.EventStream.Range
import Chiptune.Proofs.Playhead.Ending
import Chiptune.Song

/-!
# Where a playhead can come to

A playhead takes its cursor, its nestings and its controls from commands, and commands are always in
range. So it never leaves its stream, never has more open than its driver allows, and always asks
for effects with controls in range. The one place outside the stream where it can be is its start,
if that was given wrongly: then it stays there and finishes.

`Playhead.Fits` says all this, and `Playhead.Fits.tick` that no stream can lead out of it.
-/

namespace Chiptune

/-- The controls are in range. -/
structure Controls.Fits (c : Controls) : Prop where
  volume_le : c.volume ≤ 127
  expression_le : c.expression ≤ 127
  pan_bounds : -64 ≤ c.pan ∧ c.pan ≤ 63
  bend_bounds : -8192 ≤ c.bend ∧ c.bend ≤ 8191
  bendRange_lt : c.bendRange < 2 ^ 8
  transpose_bounds : -128 ≤ c.transpose ∧ c.transpose ≤ 127

/-- The nesting goes back to a place in a stream of that many bytes, and on from another one. -/
def Nesting.Within (size : Nat) : Nesting → Prop
  | call resume target _ => resume ≤ size ∧ target ≤ size
  | loop target _ => target ≤ size

/-- What the effect carries is in range. -/
def Effect.Fits : Effect → Prop
  | .noteOn key _ _ c => key ≤ 127 ∧ c.Fits
  | .mix c => c.Fits
  | .tune c => c.Fits
  | .tempo bpm => bpm < 2 ^ 16
  | _ => True

theorem Effect.fits_singleton {e : Effect} (h : e.Fits) : ∀ asked ∈ [e], asked.Fits := by
  intro asked mem
  rw [List.mem_singleton.mp mem]
  exact h

namespace Playhead

/-- The playhead is in range, for a stream of its driver. -/
structure Fits (driver : SoundDriver) (source : TrackSource) (h : Playhead) : Prop where
  /-- It is in the stream or right behind it, or still at a start that lies further behind. -/
  cursor : h.cursor ≤ source.stream.bytes.size ∨
    (source.stream.bytes.size < source.start ∧ h.cursor = source.start)
  /-- No more is open than the driver can keep. -/
  depth : h.nestings.length ≤ depth driver
  nesting : ∀ n ∈ h.nestings, n.Within source.stream.bytes.size
  /-- The count of a repeat has a byte, and starts anew when its end is reached. -/
  reached_le : h.reached ≤ 254
  loopPoint_le : ∀ place, h.loopPoint = some place → place ≤ source.stream.bytes.size
  controls : h.controls.Fits
  status : h.status.Fits

variable {driver : SoundDriver} {source : TrackSource} {limit : Nat} {h : Playhead}

theorem fits_atStart (driver : SoundDriver) (source : TrackSource) :
    (atStart driver source.start).Fits driver source where
  cursor := (Nat.lt_or_ge source.stream.bytes.size source.start).elim
    (fun behind => Or.inr ⟨behind, rfl⟩) Or.inl
  depth := Nat.zero_le _
  nesting n hn := by cases hn
  reached_le := Nat.zero_le _
  loopPoint_le place e := by cases e
  controls := by
    constructor <;> simp only [atStart]
    all_goals first | omega | (cases driver <;> decide)
  status := by constructor <;> simp [atStart]

namespace Fits

/-! ## Single commands

One lemma for each thing that a command may do. Places come from commands that are in range, or from
nestings, which were in range when they were opened. -/

/-- Settling changes the progress alone. -/
theorem settle (f : h.Fits driver source) : h.settle.Fits driver source := { f with }

theorem finish (f : h.Fits driver source) : h.finish.Fits driver source :=
  { f with
    depth := Nat.zero_le _
    nesting := fun _ hn => by cases hn }

/-- A stream that fails is over, with whatever numbers it had. -/
theorem fail (f : h.Fits driver source) (error : DecodeError) :
    (h.fail error).1.Fits driver source :=
  { f.finish with }

theorem control (f : h.Fits driver source) (c : Controls) (hc : c.Fits) :
    { h with controls := c }.Fits driver source :=
  { f with controls := hc }

theorem goTo (f : h.Fits driver source) {target : Nat}
    (inside : target ≤ source.stream.bytes.size) :
    { h with cursor := target }.Fits driver source :=
  { f with cursor := Or.inl inside }

/-- A jump takes the cursor to a place inside the stream. -/
theorem jump (f : h.Fits driver source) (offset : Nat) {target : Nat}
    (inside : target ≤ source.stream.bytes.size) : (h.jump offset target).Fits driver source :=
  { f with cursor := Or.inl inside }

/-- An `again` is only counted as long as its count, of 8 bits, has not been reached. -/
theorem again (f : h.Fits driver source) {target count : Nat}
    (inside : target ≤ source.stream.bytes.size) (hcount : count < 2 ^ 8) :
    (h.again target count).Fits driver source := by
  unfold Playhead.again
  split
  · exact { f with cursor := Or.inl inside, reached_le := by dsimp only; omega }
  · exact { f with reached_le := Nat.zero_le _ }

/-- Open one more call or loop. -/
theorem nest (f : h.Fits driver source) {n : Nesting}
    (room : h.nestings.length < Playhead.depth driver)
    (within : n.Within source.stream.bytes.size) :
    { h with nestings := n :: h.nestings }.Fits driver source :=
  { f with
    depth := room
    nesting := fun m hm => by
      rcases List.mem_cons.mp hm with rfl | hm
      · exact within
      · exact f.nesting m hm }

/-- Leave only some inner part of what was open away. -/
theorem leave (f : h.Fits driver source) {outer : List Nesting} (part : outer <:+ h.nestings) :
    { h with nestings := outer }.Fits driver source :=
  { f with
    depth := Nat.le_trans part.length_le f.depth
    nesting := fun n hn => f.nesting n (part.mem hn) }

/-- The end of a pass goes back to a place inside the stream, or leaves to what was there before. -/
theorem endPass (f : h.Fits driver source) {n : Nesting} {outer : List Nesting}
    (part : n :: outer <:+ h.nestings) {target : Nat} (passes : Option Nat)
    {again : Option Nat → Nesting} {left : Playhead} (inside : target ≤ source.stream.bytes.size)
    (within : ∀ passes, (again passes).Within source.stream.bytes.size)
    (hleft : left.Fits driver source) :
    (h.endPass target passes again left outer).Fits driver source := by
  have room : outer.length < Playhead.depth driver :=
    Nat.lt_of_lt_of_le (Nat.lt_succ_self _) (Nat.le_trans part.length_le f.depth)
  have outside := f.leave ((List.suffix_cons n outer).trans part)
  unfold Playhead.endPass
  split
  · split
    · exact (outside.nest room (within _)).goTo inside
    · exact hleft
  · exact { (outside.nest room (within none)).goTo inside with }

/-- The calls that are open are part of the nestings, so their places are inside. -/
theorem endCall (f : h.Fits driver source) : h.endCall.Fits driver source := by
  have part := List.dropWhile_suffix (l := h.nestings) Nesting.isLoop
  unfold Playhead.endCall
  split
  · next resume target passes outer hopen =>
    rw [hopen] at part
    obtain ⟨back, inside⟩ := f.nesting _ (part.mem List.mem_cons_self)
    exact f.endPass part passes inside (fun _ => ⟨back, inside⟩)
      ((f.leave ((List.suffix_cons _ outer).trans part)).goTo back)
  · exact f.leave part

/-- The end of a loop keeps the loops that are open within bounds. -/
theorem closeLoop (f : h.Fits driver source) : h.closeLoop.Fits driver source := by
  unfold Playhead.closeLoop
  split
  · next target passes outer hopen =>
    have part : Nesting.loop target passes :: outer <:+ h.nestings := hopen ▸ List.suffix_rfl
    have inside := f.nesting _ (part.mem List.mem_cons_self)
    exact f.endPass part passes inside (fun _ => inside)
      (f.leave ((List.suffix_cons _ outer).trans part))
  · exact f

/-- A command in range leaves the playhead in range. -/
theorem execute (f : h.Fits driver source) (inside : h.cursor ≤ source.stream.bytes.size)
    (offset : Nat) {c : Command} (hc : c.Fits source.stream.bytes.size) :
    (h.execute driver offset c).1.Fits driver source := by
  -- each number that is set is one that the command carries, and the command is in range
  cases c with
  | noteOn key velocity duration => exact f.settle
  | noteOff key => exact f.settle
  | program id => exact (f.control { h.controls with program := id } { f.controls with }).settle
  | volume level =>
    exact (f.control { h.controls with volume := level }
      { f.controls with volume_le := hc }).settle
  | expression level =>
    exact (f.control { h.controls with expression := level }
      { f.controls with expression_le := hc }).settle
  | pan place =>
    exact (f.control { h.controls with pan := place } { f.controls with pan_bounds := hc }).settle
  | bend amount =>
    exact (f.control { h.controls with bend := amount }
      { f.controls with bend_bounds := hc }).settle
  | bendRange semitones =>
    exact (f.control { h.controls with bendRange := semitones }
      { f.controls with bendRange_lt := hc }).settle
  | transpose semitones =>
    exact (f.control { h.controls with transpose := semitones }
      { f.controls with transpose_bounds := hc }).settle
  | tempo bpm => exact f.settle
  | wait ticks =>
    cases ticks with
    | zero => exact f.settle
    | succ ticks => exact { f with }
  | jump target => exact (f.jump offset (Nat.le_of_lt hc)).settle
  | call target passes =>
    rw [Playhead.execute]
    split
    -- where there is room, the nesting remembers places inside the stream
    · next room =>
      have opened := f.nest (n := .call h.cursor target passes) room ⟨inside, Nat.le_of_lt hc⟩
      exact (opened.goTo (Nat.le_of_lt hc)).settle
    · exact f.fail _
  | endCall => exact f.endCall.settle
  | again target count => exact (f.again (Nat.le_of_lt hc.1) hc.2).settle
  | openLoop passes =>
    rw [Playhead.execute]
    split
    · next room => exact (f.nest (n := .loop h.cursor passes) room inside).settle
    · exact f.fail _
  | closeLoop => exact f.closeLoop.settle
  | loopPoint =>
    have marked : { h with loopPoint := some h.cursor }.Fits driver source :=
      { f with loopPoint_le := fun _ e => Option.some.inj e ▸ inside }
    exact marked.settle
  | envelope param value =>
    exact (f.control { h.controls with envelope := h.controls.envelope.set param value }
      { f.controls with }).settle
  | nop => exact f.settle
  | finish => exact f.finish

/-- What a command asks for carries the controls that it leaves behind. -/
theorem execute_effects (f : h.Fits driver source) (offset : Nat) {c : Command}
    (hc : c.Fits source.stream.bytes.size) :
    ∀ e ∈ (h.execute driver offset c).2, e.Fits := by
  have nothing : ∀ e ∈ ([] : List Effect), e.Fits := fun _ he => (List.not_mem_nil he).elim
  -- what is asked for carries the numbers of the command, or the controls
  cases c with
  | noteOn key velocity duration => exact Effect.fits_singleton ⟨hc, f.controls⟩
  | noteOff key => exact Effect.fits_singleton trivial
  | volume level => exact Effect.fits_singleton { f.controls with volume_le := hc }
  | expression level => exact Effect.fits_singleton { f.controls with expression_le := hc }
  | pan place => exact Effect.fits_singleton { f.controls with pan_bounds := hc }
  | bend amount => exact Effect.fits_singleton { f.controls with bend_bounds := hc }
  | bendRange semitones => exact Effect.fits_singleton { f.controls with bendRange_lt := hc }
  | tempo bpm => exact Effect.fits_singleton hc
  | wait ticks =>
    cases ticks with
    | zero => exact nothing
    | succ ticks => exact nothing
  | call target passes =>
    rw [Playhead.execute]
    split
    · exact nothing
    · exact Effect.fits_singleton trivial
  | openLoop passes =>
    rw [Playhead.execute]
    split
    · exact nothing
    · exact Effect.fits_singleton trivial
  | finish => exact Effect.fits_singleton trivial
  | _ => exact nothing

/-! ## Ticks

Decoding gives commands in range (`decode_fits`), and so a step keeps a playhead in range, a run
does, and a tick. -/

/-- One command: it is decoded in range, so what it does is in range. -/
theorem step (f : h.Fits driver source) :
    (h.step driver source.stream).1.Fits driver source ∧
      ∀ e ∈ (h.step driver source.stream).2, e.Fits := by
  unfold Playhead.step
  split
  · exact ⟨f.finish, Effect.fits_singleton trivial⟩
  · next before =>
    have inside : h.cursor ≤ source.stream.bytes.size := by omega
    obtain ⟨hstatus, hd⟩ := EventStream.decode_fits driver f.status inside
    split
    · next e =>
      rw [e] at hstatus
      exact ⟨{ f.finish with status := hstatus }, Effect.fits_singleton trivial⟩
    · next status d e =>
      rw [e] at hstatus hd
      obtain ⟨inside, hc⟩ := hd d rfl
      have behind : { h with status, cursor := h.cursor + d.length }.Fits driver source :=
        { f.goTo inside with status := hstatus }
      exact ⟨behind.execute inside h.cursor hc, behind.execute_effects h.cursor hc⟩

/-- Where a tick has too many commands, the playhead fails and tells so. -/
theorem exhaust (f : h.Fits driver source) :
    (h.exhaust limit source.stream).1.Fits driver source ∧
      ∀ e ∈ (h.exhaust limit source.stream).2, e.Fits := by
  unfold Playhead.exhaust
  split
  · exact ⟨f.finish, Effect.fits_singleton trivial⟩
  · exact ⟨f.fail _, Effect.fits_singleton trivial⟩

/-- All commands of a tick. -/
theorem run (budget : Nat) (f : h.Fits driver source) {effects : Array Effect}
    (asked : ∀ e ∈ effects, e.Fits) :
    (run driver limit source.stream budget h effects).1.Fits driver source ∧
      ∀ e ∈ (run driver limit source.stream budget h effects).2, e.Fits := by
  have more : ∀ {effects : Array Effect} {later : List Effect}, (∀ e ∈ effects, e.Fits) →
      (∀ e ∈ later, e.Fits) → ∀ e ∈ effects.appendList later, e.Fits := by
    intro effects later before after e he
    rw [← Array.mem_toList_iff, Array.appendList_eq_append, Array.toList_appendList,
      List.mem_append, Array.mem_toList_iff] at he
    exact he.elim (before e) (after e)
  -- on the commands that may still be run in this tick
  induction budget generalizing h effects with
  | zero => exact ⟨f.exhaust.1, more asked f.exhaust.2⟩
  | succ budget ih =>
    rw [Playhead.run]
    dsimp only
    split
    · exact ⟨f.step.1, more asked f.step.2⟩
    · exact ih f.step.1 (more asked f.step.2)

/-- A playhead that begins is where it was. -/
theorem started (f : h.Fits driver source) : h.started.Fits driver source := by
  unfold Playhead.started
  split
  · exact { f with }
  · exact f

/-- A tick keeps a playhead within bounds, and whatever it asks for is within bounds as well. -/
theorem tick (limit : Nat) (f : h.Fits driver source) :
    (h.tick driver limit source.stream).1.Fits driver source ∧
      ∀ e ∈ (h.tick driver limit source.stream).2, e.Fits := by
  have nothing : ∀ e ∈ (#[] : Array Effect), e.Fits := fun e he => by simp at he
  by_cases done : h.IsFinished
  · rw [tick_of_isFinished done]
    exact ⟨f, nothing⟩
  · rw [tick_of_not_isFinished done]
    split
    · exact ⟨{ f.started with }, nothing⟩
    · have waiting : { h.started with rest := 0 }.Fits driver source := { f.started with }
      exact waiting.run limit nothing

/-- The loop point was remembered as a place inside the stream. -/
theorem restart? (f : h.Fits driver source) {later : Playhead} (e : h.restart? = some later) :
    later.Fits driver source := by
  unfold Playhead.restart? at e
  split at e
  · next place hplace _ =>
    cases e
    exact
      { f with
        cursor := Or.inl (f.loopPoint_le place hplace)
        depth := Nat.zero_le _
        nesting := fun n hn => by cases hn
        reached_le := Nat.zero_le _ }
  · cases e

end Fits
end Playhead
end Chiptune
