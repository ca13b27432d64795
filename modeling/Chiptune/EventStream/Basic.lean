import Chiptune.Bytes
import Chiptune.Command
import Chiptune.Fault

/-!
# Event streams

An event stream is a byte string together with the address that the console gives its first byte.
Decoding a command takes the bytes at a cursor and the *status*: what the driver remembers of
earlier commands, so that later ones may leave it out.

The opcode tables (`Chiptune.EventStream.M4a` and its siblings) are written with `Reading`s. A
reading starts at some place of a stream and either yields a value and the place after it, or says
what is wrong; it never looks at the place where its command began. The offset of the command is
added once, at the end, by `EventStream.decodeWith`.
-/

namespace Chiptune

/-- The bytes of a stream and the address of the first one. -/
structure EventStream where
  bytes : ByteArray
  base : UInt32 := 0
  deriving Inhabited

/-- What a driver remembers between two commands of one track. -/
structure Status where
  /-- The opcode that a bare argument repeats (M4A). -/
  lastOpcode : UInt8 := 0
  lastKey : Nat := 60
  lastVelocity : Nat := 127
  /-- Duration of the last note (DSE). -/
  lastDuration : Nat := 0
  /-- Length of the last pause (DSE). -/
  lastWait : Nat := 0
  /-- The octave that notes are counted from (DSE). -/
  octave : Nat := 4
  deriving DecidableEq, Repr, Inhabited

/-- A command and the number of bytes that encode it. -/
structure Decoded where
  command : Command
  length : Nat
  deriving DecidableEq, Repr, Inhabited

/-- What can be wrong inside a command. -/
inductive Defect
  | ended
  | opcode (opcode : UInt8)
  | target (address : UInt32)
  deriving DecidableEq, Repr, Inhabited

def Defect.at (offset : Nat) : Defect → DecodeError
  | ended => .unexpectedEnd offset
  | opcode op => .unknownOpcode op offset
  | target address => .invalidJump address offset

@[simp] theorem Defect.offset_at (offset : Nat) (d : Defect) : (d.at offset).offset = offset := by
  cases d <;> rfl

/-- A reading takes a value from a stream, from some place on. -/
def Reading (α : Type) : Type := EventStream → Nat → Except Defect (α × Nat)

namespace Reading

variable {α β : Type}

def yield (a : α) : Reading α := fun _ place => .ok (a, place)

/-- Read with `r`, then go on from there as its value says. -/
def andThen (r : Reading α) (next : α → Reading β) : Reading β := fun s place =>
  match r s place with
  | .ok (a, after) => next a s after
  | .error d => .error d

instance : Monad Reading where
  pure := yield
  bind := andThen

def fail (d : Defect) : Reading α := fun _ _ => .error d

@[simp] theorem pure_apply (a : α) (s : EventStream) (place : Nat) :
    (pure a : Reading α) s place = .ok (a, place) := rfl

theorem bind_apply (r : Reading α) (next : α → Reading β) (s : EventStream) (place : Nat) :
    (r >>= next) s place =
      match r s place with
      | .ok (a, after) => next a s after
      | .error d => .error d := rfl

/-- A value that takes `width` bytes, given how to find it in a byte string. -/
def fixed (width : Nat) (find : ByteArray → Nat → Option α) : Reading α := fun s place =>
  match find s.bytes place with
  | some a => .ok (a, place + width)
  | none => .error .ended

def byte : Reading UInt8 := fixed 1 fun b i => b[i]?

/-- One byte as a number from 0 to 255. -/
def unsigned : Reading Nat := do return (← byte).toNat

/-- One byte as a number from −128 to 127. -/
def signed : Reading Int := do return (← byte).toInt8.toInt

/-- A number of `width` bytes, least significant byte first. -/
def little (width : Nat) : Reading Nat := fixed width (Bytes.little? · width)

/-- A number of `width` bytes, most significant byte first. -/
def big (width : Nat) : Reading Nat := fixed width (Bytes.big? · width)

/-- A byte cut off at 127. -/
def sevenBit : Reading Nat := do return min (← unsigned) 127

/-- A byte centred on 64, as a place from −64 to 63. -/
def centred : Reading Int := do return (← sevenBit) - 64

/-- Pass over `width` bytes. -/
def skip (width : Nat) : Reading Unit := do let _ ← little width

/-- Two bytes as a number from −32768 to 32767, given as one from 0 to 65535. -/
def signed16 (wide : Reading Nat) : Reading Int := do
  let n ← wide
  return if n < 32768 then n else (n : Int) - 65536

/-- Digits of seven bits, most significant first, behind the number `acc` read so far. Each digit
but the last has its high bit set; at most `digits` of them are read. -/
def varlenFrom : (digits acc : Nat) → Reading Nat
  | 0, acc => pure acc
  | digits + 1, acc => do
    let b ← unsigned
    let acc := 128 * acc + b % 128
    if b < 128 then pure acc else varlenFrom digits acc

/-- A number of one to four digits of seven bits. -/
def varlen : Reading Nat := varlenFrom 4 0

/-- The offset of a console address, which has to lie inside the stream. -/
def resolve (address : UInt32) : Reading Nat := fun s place =>
  let target := (address - s.base).toNat
  if target < s.bytes.size then .ok (target, place) else .error (.target address)

/-- A jump target written as a console address of `width` bytes. -/
def address (width : Nat) : Reading Nat := do resolve (UInt32.ofNat (← little width))

/-- A jump target written as a distance from the end of the command. -/
def displacement : Reading Nat := do
  let delta ← signed16 (little 2)
  fun s place =>
    let target := (place : Int) + delta
    if 0 ≤ target ∧ target < s.bytes.size then .ok (target.toNat, place)
    else .error (.target (UInt32.ofInt target))

end Reading

/-- The argument bytes (those below 128) from `place` on, up to the first byte that is none, and
at most `limit` of them. -/
def EventStream.arguments (s : EventStream) : (limit place : Nat) → List Nat
  | 0, _ => []
  | limit + 1, place =>
    match s.bytes[place]? with
    | some b => if b < 128 then b.toNat :: s.arguments limit (place + 1) else []
    | none => []

/-- How one driver decodes a command: the status afterwards, and the command with the place after
it. The status may have changed even where the command turns out defective. -/
def Decoder : Type :=
  Status → EventStream → Nat → Status × Except Defect (Command × Nat)

namespace Decoder

/-- Decode by a reading that leaves the status alone. -/
def plain (r : Reading Command) : Decoder := fun status s place => (status, r s place)

/-- Decode by a reading whose value gives the command and, if it is read, the new status. -/
def updating {α : Type} (r : Reading α) (next : Status → α → Status × Command) : Decoder :=
  fun status s place =>
    match r s place with
    | .ok (a, after) => ((next status a).1, .ok ((next status a).2, after))
    | .error d => (status, .error d)

/-- Take the opcode under the cursor and go on with its own decoder. -/
def byOpcode (table : UInt8 → Decoder) : Decoder := fun status s place =>
  match s.bytes[place]? with
  | some op => table op status s (place + 1)
  | none => (status, .error .ended)

end Decoder

/-- Decode the command at `cursor`: its length is the distance to the place after it, and a defect
becomes an error at the cursor. -/
def EventStream.decodeWith (table : Decoder) (s : EventStream) (cursor : Nat) (status : Status) :
    Status × Except DecodeError Decoded :=
  match table status s cursor with
  | (status, .ok (command, after)) => (status, .ok ⟨command, after - cursor⟩)
  | (status, .error d) => (status, .error (d.at cursor))

end Chiptune
