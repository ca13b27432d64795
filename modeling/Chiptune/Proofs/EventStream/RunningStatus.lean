import Chiptune.Proofs.EventStream.Soundness

/-!
# Running status

An M4A stream need not write an opcode again when the next command has the same one: where an
argument stands instead of an opcode, the last opcode that can be repeated is meant. So an opcode
with an argument behind it can be read in two ways. It is read where it stands, or it is passed
over, and the argument is read with that opcode as the last one.

Both readings end up in the same line of the table (`M4a.decoder_of_opcode`,
`M4a.decoder_of_argument`), at the same place and with the same status. So they find the same
command there, one byte longer or shorter, and leave the same status behind, or they find the same
thing wrong with it (`opcode_can_be_left_out`). That holds of every opcode from the first one that
can be repeated on, those that mean nothing included.
-/

namespace Chiptune

/-- The same error, told of a command that starts at another offset. -/
def DecodeError.movedTo (offset : Nat) : DecodeError → DecodeError
  | unknownOpcode op _ => .unknownOpcode op offset
  | unexpectedEnd _ => .unexpectedEnd offset
  | invalidJump target _ => .invalidJump target offset
  | loopStackOverflow _ => .loopStackOverflow offset
  | commandLimit limit _ => .commandLimit limit offset

@[simp] theorem DecodeError.movedTo_at (i j : Nat) (d : Defect) : (d.at i).movedTo j = d.at j := by
  cases d <;> rfl

namespace EventStream

variable {s : EventStream} {status : Status} {place : Nat} {op b : UInt8}

/-! ## The two ways to a line of the table

An opcode that is written out is performed behind its byte, one that is left out is performed at the
cursor. Both ways end in `M4a.perform`. -/

theorem M4a.remember_of_repeatable (repeats : M4a.Repeatable op) (status : Status) :
    M4a.Status.remember status op = { status with lastOpcode := op } := if_pos repeats

/-- An opcode that can be repeated is not an argument. -/
theorem M4a.isOpcode_of_repeatable (repeats : M4a.Repeatable op) : 0x80 ≤ op :=
  UInt8.le_trans (by decide : 0x80 ≤ M4a.firstRepeatable) repeats

/-- An opcode that is written out is remembered, and its arguments start behind it. -/
theorem M4a.decoder_of_opcode (status : Status) (found : s.bytes[place]? = some op)
    (repeats : M4a.Repeatable op) :
    M4a.decoder status s place =
      M4a.perform op { status with lastOpcode := op } s (place + 1) := by
  unfold M4a.decoder
  rw [found]
  dsimp only
  rw [if_pos (M4a.isOpcode_of_repeatable repeats), M4a.remember_of_repeatable repeats]

/-- An opcode that is left out is the last one, and its arguments start right here. -/
theorem M4a.decoder_of_argument (found : s.bytes[place]? = some b) (small : b < 0x80)
    (repeats : M4a.Repeatable status.lastOpcode) :
    M4a.decoder status s place = M4a.perform status.lastOpcode status s place := by
  unfold M4a.decoder
  rw [found]
  dsimp only
  rw [if_neg (UInt8.not_le.mpr small), if_pos repeats]

/-! ## Both readings

Since the same line is performed at the same place with the same status, the results are the same.
Only where the command begins is one byte apart, and that shows in its length and in the offset that
an error tells. -/

/-- An opcode that can be repeated, with an argument behind it, may as well be left out if it is the
last one. Read with the opcode at `cursor`, or without it behind `cursor`, the stream holds the same
command there, which takes one byte less without its opcode, and the status afterwards is the same.
Where there is something wrong with one of them, the same is wrong with the other. -/
theorem opcode_can_be_left_out (s : EventStream) (cursor : Nat) (status : Status)
    (written : s.bytes[cursor]? = some op) (repeats : 0xBC ≤ op)
    (argument : s.bytes[cursor + 1]? = some b) (small : b < 0x80) :
    let whole := s.decode .m4a cursor status
    let short := s.decode .m4a (cursor + 1) { status with lastOpcode := op }
    (∀ command length later, whole = (later, .ok ⟨command, length⟩) ↔
      1 ≤ length ∧ short = (later, .ok ⟨command, length - 1⟩)) ∧
    (∀ e later, whole = (later, .error e) → short = (later, .error (e.movedTo (cursor + 1)))) ∧
    ∀ e later, short = (later, .error e) → whole = (later, .error (e.movedTo cursor)) := by
  have repeats : M4a.Repeatable op := repeats
  have opcode := M4a.decoder_of_opcode status written repeats
  have last : M4a.Repeatable { status with lastOpcode := op }.lastOpcode := repeats
  have noOpcode := M4a.decoder_of_argument argument small last
  unfold decode decodeWith SoundDriver.decoder
  dsimp only
  rw [opcode, noOpcode]
  dsimp only
  cases line : M4a.perform op { status with lastOpcode := op } s (cursor + 1) with
  | mk later found =>
    cases found with
    | error d =>
      refine ⟨fun command length later' => ?_, fun e later' told => ?_, fun e later' told => ?_⟩
      · simp
      · cases told
        rw [DecodeError.movedTo_at]
      · cases told
        rw [DecodeError.movedTo_at]
    | ok found =>
      obtain ⟨command, after⟩ := found
      -- the argument belongs to the command, so there is a byte to spare
      have forth : cursor + 1 < after :=
        M4a.lt_of_perform repeats argument small (congrArg Prod.snd line)
      refine ⟨fun command' length later' => ?_, fun e later' told => ?_, fun e later' told => ?_⟩
      · have lengths : after - cursor = length ↔
            1 ≤ length ∧ after - (cursor + 1) = length - 1 := by omega
        simp only [Prod.mk.injEq, Except.ok.injEq, Decoded.mk.injEq, lengths]
        constructor
        · rintro ⟨status, same, long, rest⟩
          exact ⟨long, status, same, rest⟩
        · rintro ⟨long, status, same, rest⟩
          exact ⟨status, same, long, rest⟩
      · cases told
      · cases told

/-- A stream of M4A: a note with all its arguments, a note without its opcode, and a command that
lacks its second argument. -/
def sharedOpcodes : EventStream := { bytes := ⟨#[0xD3, 60, 100, 64, 90, 67, 0xCD, 5]⟩ }

theorem opcode_can_be_left_out_sharedOpcodes :
    sharedOpcodes.bytes[0]? = some 0xD3 ∧ (0xBC : UInt8) ≤ 0xD3 ∧
      sharedOpcodes.bytes[1]? = some 60 ∧ (60 : UInt8) < 0x80 ∧
      sharedOpcodes.decode .m4a 0 {} =
        ({ lastOpcode := 0xD3, lastKey := 60, lastVelocity := 100 },
          .ok ⟨.noteOn 60 100 (some (4 + 64)), 4⟩) ∧
      sharedOpcodes.decode .m4a 1 { lastOpcode := 0xD3 } =
        ({ lastOpcode := 0xD3, lastKey := 60, lastVelocity := 100 },
          .ok ⟨.noteOn 60 100 (some (4 + 64)), 3⟩) ∧
      (sharedOpcodes.decode .m4a 6 {}).2 = .error (.unexpectedEnd 6) ∧
      (sharedOpcodes.decode .m4a 7 { lastOpcode := 0xCD }).2 = .error (.unexpectedEnd 7) := by
  have note : sharedOpcodes.bytes[0]? = some 0xD3 := rfl
  have key : sharedOpcodes.bytes[1]? = some 60 := rfl
  have truncated : sharedOpcodes.bytes[6]? = some 0xCD := rfl
  have argument : sharedOpcodes.bytes[7]? = some 5 := rfl
  -- once for a note that is there, and once for one whose length is cut off
  obtain ⟨found, -, -⟩ := opcode_can_be_left_out sharedOpcodes 0 {} note (by decide) key (by decide)
  obtain ⟨-, wrong, -⟩ :=
    opcode_can_be_left_out sharedOpcodes 6 {} truncated (by decide) argument (by decide)
  refine ⟨note, by decide, key, by decide, rfl, ?_, rfl, ?_⟩
  · exact ((found _ _ _).mp rfl).2
  · exact congrArg Prod.snd (wrong (.unexpectedEnd 6) _ rfl)

end EventStream
end Chiptune
