import Chiptune.Proofs.Playhead.Ending
import Chiptune.Proofs.Playhead.Phrase

/-!
# What commands leave alone

The end of a pass, of a call or of a loop moves a playhead to another place and may count a loop.
It does nothing else, and neither does an `again`, which keeps a count of its own. A simple command
does not move the playhead at all.
-/

namespace Chiptune.Playhead

/-- The end of a pass goes to another place, and may count a loop. -/
theorem exists_endPass_eq {h leave : Playhead} {target : Nat} {passes : Option Nat}
    {again : Option Nat → Nesting} {outer : List Nesting}
    (left : ∃ cursor nestings, leave = { h with cursor, nestings }) :
    ∃ cursor nestings loopCount,
      h.endPass target passes again leave outer = { h with cursor, nestings, loopCount } := by
  obtain ⟨cursor, nestings, rfl⟩ := left
  unfold endPass
  split
  · split
    · exact ⟨_, _, h.loopCount, rfl⟩
    · exact ⟨cursor, nestings, h.loopCount, rfl⟩
  · exact ⟨_, _, _, rfl⟩

theorem exists_endCall_eq (h : Playhead) :
    ∃ cursor nestings loopCount, h.endCall = { h with cursor, nestings, loopCount } := by
  unfold endCall
  split
  · exact exists_endPass_eq ⟨_, _, rfl⟩
  · exact ⟨h.cursor, _, h.loopCount, rfl⟩

theorem exists_closeLoop_eq (h : Playhead) :
    ∃ cursor nestings loopCount, h.closeLoop = { h with cursor, nestings, loopCount } := by
  unfold closeLoop
  split
  · exact exists_endPass_eq ⟨h.cursor, _, rfl⟩
  · exact ⟨h.cursor, h.nestings, h.loopCount, rfl⟩

/-- A repeat goes to another place, and changes its count. -/
theorem exists_again_eq (h : Playhead) (target count : Nat) :
    ∃ cursor reached, h.again target count = { h with cursor, reached } := by
  unfold again
  split
  · exact ⟨_, _, rfl⟩
  · exact ⟨h.cursor, _, rfl⟩

/-- A simple command lets the playhead stay where it is, with all its counts. -/
theorem exists_execute_eq {c : Command} (simple : c.IsSimple) (driver : SoundDriver) (offset : Nat)
    (h : Playhead) :
    ∃ progress rest controls loopPoint,
      (h.execute driver offset c).1 = { h with progress, rest, controls, loopPoint } ∧
        (¬ h.IsFinished → progress ≠ .finished) := by
  -- all of them settle with other controls or another loop point, but for a rest
  have settled : ∀ controls loopPoint, ∃ progress rest controls' loopPoint',
      ({ h with controls, loopPoint } : Playhead).settle =
          { h with progress, rest, controls := controls', loopPoint := loopPoint' } ∧
        (¬ h.IsFinished → progress ≠ .finished) := fun controls loopPoint =>
    ⟨_, h.rest, controls, loopPoint, rfl, fun _ =>
      not_isFinished_settle { h with controls, loopPoint }⟩
  cases c with
  | jump => cases simple
  | call => cases simple
  | endCall => cases simple
  | again => cases simple
  | openLoop => cases simple
  | closeLoop => cases simple
  | finish => cases simple
  | wait ticks =>
    cases ticks with
    | zero => exact settled h.controls h.loopPoint
    | succ ticks => exact ⟨h.progress, _, h.controls, h.loopPoint, rfl, id⟩
  | _ => exact settled _ _

end Chiptune.Playhead
