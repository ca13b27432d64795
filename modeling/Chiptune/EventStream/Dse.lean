import Chiptune.EventStream.Basic

/-!
# The DSE opcode table

A byte below 128 is a note and its velocity. The byte after it packs three things: how many bytes
of duration follow (two bits), a change of octave (two bits, from −2 to 1) and the key within the
octave (four bits). Pauses and durations that are left out are as they were the last time.
-/

namespace Chiptune.EventStream.Dse

/-- The pauses, in ticks, that an opcode can name. -/
def pauses : Array Nat := #[96, 72, 64, 48, 36, 32, 24, 18, 16, 12, 9, 8, 6, 4, 3, 2]

def highestOctave : Nat := 10

/-- The commands that leave the status alone. -/
def plain (op : UInt8) : Reading Command :=
  match op with
  | 0x98 => pure .finish
  | 0x99 => pure .loopPoint
  | 0xA4 | 0xA5 => return .tempo (← .unsigned)
  | 0xAC => return .program (← .unsigned)
  | 0xD7 => return .bend ((← .signed16 (.big 2)) / 4)
  | 0xE0 => return .volume (← .sevenBit)
  | 0xE3 => return .expression (← .sevenBit)
  | 0xE8 => return .pan (← .centred)
  | 0xA9 | 0xAA | 0xAB | 0xBE | 0xBF | 0xDB | 0xF6 => do .skip 1; return .nop
  | _ => .fail (.opcode op)

/-- A pause, remembered so that it can be repeated or lengthened. -/
def pause (status : Status) (ticks : Nat) : Status × Command :=
  ({ status with lastWait := ticks }, .wait ticks)

/-- A change of octave stays between 0 and the highest one. -/
def setOctave (status : Status) (octave : Int) : Status × Command :=
  ({ status with octave := min octave.toNat highestOctave }, .nop)

/-- The change of octave holds even where the stream ends inside the duration. -/
def note (velocity : Nat) : Decoder := fun status s place =>
  match Reading.unsigned s place with
  | .error d => (status, .error d)
  | .ok (packed, place) =>
    let width := packed / 64
    let octave := min (status.octave + packed / 16 % 4 - 2) highestOctave
    let key := min (12 * octave + packed % 16) 127
    let status := { status with octave := octave }
    let duration : Reading Nat := if width = 0 then pure status.lastDuration else .big width
    Decoder.updating duration (fun status ticks =>
      ({ status with lastDuration := ticks, lastKey := key, lastVelocity := velocity },
        .noteOn key velocity (some ticks))) status s place

/-- Decode the command whose opcode was just read. -/
def perform (op : UInt8) : Decoder :=
  if op < 0x80 then note op.toNat
  else match pauses[(op - 0x80).toNat]? with
  | some ticks => .updating (pure ticks) pause
  | none =>
    match op with
    | 0x90 => .updating (pure ()) fun status _ => (status, .wait status.lastWait)
    | 0x91 => .updating .unsigned fun status ticks => pause status (status.lastWait + ticks)
    | 0x92 | 0x95 => .updating .unsigned pause
    | 0x93 => .updating (.little 2) pause
    | 0x94 => .updating (.little 3) pause
    | 0xA0 => .updating .unsigned fun status octave => setOctave status octave
    | 0xA1 => .updating .signed fun status shift => setOctave status (status.octave + shift)
    | _ => .plain (plain op)

/-- Decode the command under the cursor. -/
def decoder : Decoder := .byOpcode perform

end Chiptune.EventStream.Dse
