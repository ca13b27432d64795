import Chiptune.EventStream.Basic

/-!
# The SDAT opcode table

A byte below 128 is a note and its key; velocity and a duration of variable length follow. Jump
targets are three-byte addresses, counted from the start of the data that the song came with.
-/

namespace Chiptune.EventStream.Sdat

/-- The commands that leave the status alone. -/
def plain (op : UInt8) : Reading Command :=
  match op with
  | 0x80 => return .wait (← .varlen)
  | 0x81 => return .program (min (← .varlen) 255)
  | 0x93 => do .skip 4; return .nop
  | 0x94 => return .jump (← .address 3)
  | 0x95 => return .call (← .address 3) (some 1)
  | 0xC0 => return .pan (← .centred)
  | 0xC1 => return .volume (← .sevenBit)
  | 0xC3 => return .transpose (← .signed)
  | 0xC4 => return .bend (64 * (← .signed))
  | 0xC5 => return .bendRange (← .unsigned)
  | 0xD0 => return .envelope .attack (← .byte)
  | 0xD1 => return .envelope .decay (← .byte)
  | 0xD2 => return .envelope .sustain (← .byte)
  | 0xD3 => return .envelope .release (← .byte)
  | 0xD4 => do
    let passes ← .unsigned
    return .openLoop (if passes = 0 then none else some passes)
  | 0xD5 => return .expression (← .sevenBit)
  | 0xD6 => do .skip 1; return .nop
  | 0xE0 | 0xE3 | 0xFE => do .skip 2; return .nop
  | 0xE1 => return .tempo (← .little 2)
  | 0xFC => pure .closeLoop
  | 0xFD => pure .endCall
  | 0xFF => pure .finish
  | _ =>
    if 0xB0 ≤ op ∧ op ≤ 0xBD then do .skip 3; return .nop
    else if op = 0xC2 ∨ (0xC6 ≤ op ∧ op ≤ 0xCF) then do .skip 1; return .nop
    else .fail (.opcode op)

/-- A note becomes the last note once it has been read as a whole. -/
def note (key : Nat) : Decoder :=
  .updating (do return (← Reading.sevenBit, ← Reading.varlen)) fun status (velocity, ticks) =>
    ({ status with lastKey := key, lastVelocity := velocity }, .noteOn key velocity (some ticks))

/-- Decode the command under the cursor. -/
def decoder : Decoder :=
  .byOpcode fun op => if op < 0x80 then note op.toNat else .plain (plain op)

end Chiptune.EventStream.Sdat
