import Chiptune.EventStream.Basic

/-!
# The MLSS opcode table

A byte below 128 is a note and its key; the length follows it. Jumps are written as distances from
the end of the jump command.
-/

namespace Chiptune.EventStream.Mlss

/-- The commands that leave the status alone. -/
def plain (op : UInt8) : Reading Command :=
  match op with
  | 0xF0 => return .program (← .unsigned)
  | 0xF1 => return .volume (← .sevenBit)
  | 0xF2 => return .pan (← .centred)
  | 0xF3 => return .bend (64 * (← .signed))
  | 0xF4 => return .bendRange (← .unsigned)
  | 0xF6 => return .wait (← .unsigned)
  | 0xF7 => return .wait (← .little 2)
  | 0xF8 => return .jump (← .displacement)
  | 0xF9 => do
    let count ← .unsigned
    let target ← .displacement
    return if count = 0 then .jump target else .again target count
  | 0xFA => pure .endCall
  | 0xFB => return .tempo (← .unsigned)
  | 0xFF => pure .finish
  | _ => .fail (.opcode op)

/-- A note has its own length and sounds as loud as the last one. -/
def note (key : Nat) : Decoder :=
  .updating .unsigned fun status length =>
    ({ status with lastKey := key }, .noteOn key status.lastVelocity (some length))

/-- Decode the command under the cursor. -/
def decoder : Decoder :=
  .byOpcode fun op => if op < 0x80 then note op.toNat else .plain (plain op)

end Chiptune.EventStream.Mlss
