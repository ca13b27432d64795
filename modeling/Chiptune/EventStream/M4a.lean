import Chiptune.EventStream.Basic

/-!
# The M4A opcode table

Bytes below 128 are arguments. One that stands where an opcode is expected repeats the last note
or parameter command with it (*running status*), so the table itself, `perform`, takes the opcode
as an argument and starts at the first argument byte: it cannot tell whether the opcode was
written out. Jump targets are console addresses of four bytes.
-/

namespace Chiptune.EventStream.M4a

/-- The durations, in ticks, that an opcode can name. -/
def durations : Array Nat := #[
  0, 1, 2, 3, 4, 5, 6, 7, 8, 9, 10, 11, 12, 13, 14, 15, 16, 17, 18, 19, 20, 21, 22, 23, 24, 28,
  30, 32, 36, 40, 42, 44, 48, 52, 54, 56, 60, 64, 66, 68, 72, 76, 78, 80, 84, 88, 90, 92, 96]

/-- Rests are the opcodes from here on, one per duration. -/
def firstWait : UInt8 := 0x80

/-- The first parameter command; from here on running status can repeat an opcode. -/
def firstRepeatable : UInt8 := 0xBC

def endNote : UInt8 := 0xCE

/-- Untimed notes; the opcodes after it are notes of each duration but zero. -/
def startNote : UInt8 := 0xCF

/-- Running status can repeat this opcode. -/
def Repeatable (op : UInt8) : Prop := firstRepeatable ≤ op

instance (op : UInt8) : Decidable (Repeatable op) := inferInstanceAs (Decidable (_ ≤ _))

/-- The commands that leave the status alone. -/
def plain (op : UInt8) : Reading Command :=
  match op with
  | 0xB1 => pure .finish
  | 0xB2 => return .jump (← .address 4)
  | 0xB3 => return .call (← .address 4) (some 1)
  | 0xB4 => pure .endCall
  | 0xB5 => do
    let count ← .unsigned
    let target ← .address 4
    return if count = 0 then .jump target else .again target count
  | 0xB9 => do .skip 3; return .nop
  | 0xBA => do .skip 1; return .nop
  | 0xBB => return .tempo (2 * (← .unsigned))
  | 0xBC => return .transpose (← .signed)
  | 0xBD => return .program (← .unsigned)
  | 0xBE => return .volume (← .sevenBit)
  | 0xBF => return .pan (← .centred)
  | 0xC0 => return .bend (128 * (← .centred))
  | 0xC1 => return .bendRange (← .unsigned)
  | 0xC2 | 0xC3 | 0xC4 | 0xC5 | 0xC8 => do .skip 1; return .nop
  | 0xCD => do .skip 2; return .nop
  | _ =>
    match durations[(op - firstWait).toNat]? with
    | some ticks => pure (.wait ticks)
    | none => .fail (.opcode op)

/-- Notes take up to three arguments: key, velocity and (timed notes only) extra ticks. What is
left out is as it was in the last note. -/
def note (duration : Option Nat) : Decoder := fun status s place =>
  let arguments := s.arguments (if duration.isSome then 3 else 2) place
  let key := arguments[0]?.getD status.lastKey
  let velocity := arguments[1]?.getD status.lastVelocity
  let extra := arguments[2]?.getD 0
  ({ status with lastKey := key, lastVelocity := velocity },
    .ok (.noteOn key velocity (duration.map (· + extra)), place + arguments.length))

/-- The end of an untimed note names its key or means all of them. -/
def noteEnd : Decoder := fun status s place =>
  let arguments := s.arguments 1 place
  ({ status with lastKey := arguments[0]?.getD status.lastKey },
    .ok (.noteOff arguments[0]?, place + arguments.length))

/-- Decode the arguments of `op`, which start under the cursor. -/
def perform (op : UInt8) : Decoder :=
  if op < endNote then .plain (plain op)
  else if op = endNote then noteEnd
  else if op = startNote then note none
  else note durations[(op - startNote).toNat]?

/-- An opcode that can be repeated is remembered even if its arguments turn out defective. -/
def Status.remember (status : Status) (op : UInt8) : Status :=
  if Repeatable op then { status with lastOpcode := op } else status

/-- Decode the command under the cursor. -/
def decoder : Decoder := fun status s place =>
  match s.bytes[place]? with
  | none => (status, .error .ended)
  | some op =>
    if 0x80 ≤ op then perform op (Status.remember status op) s (place + 1)
    else if Repeatable status.lastOpcode then perform status.lastOpcode status s place
    else (status, .error (.opcode op))

end Chiptune.EventStream.M4a
