import Chiptune.Text

/-!
# What can go wrong with a song

A stream that cannot be decoded stops its own track (`DecodeError`), a note without an instrument
is skipped (`ResourceError`), and a song of the wrong shape is refused (`SongError`). Each cause
is a constructor, and its wording is given by `message` alone.
-/

namespace Chiptune

/-- Why a track stopped; `offset` is where the command at fault starts. -/
inductive DecodeError
  | unknownOpcode (opcode : UInt8) (offset : Nat)
  /-- The stream ended before the command was complete. -/
  | unexpectedEnd (offset : Nat)
  /-- A jump leaves the stream; `target` is the address as the stream wrote it. -/
  | invalidJump (target : UInt32) (offset : Nat)
  /-- One call or loop too many was open. -/
  | loopStackOverflow (offset : Nat)
  /-- The track ran `limit` commands in one tick without resting. -/
  | commandLimit (limit offset : Nat)
  deriving DecidableEq, Repr, Inhabited

/-- Why a note could not sound. -/
inductive ResourceError
  | missingInstrument (program key : Nat)
  | missingSample (program : Nat)
  deriving DecidableEq, Repr, Inhabited

/-- Why a song was refused. -/
inductive SongError
  | noTracks
  | tooManyTracks (count limit : Nat)
  deriving DecidableEq, Repr, Inhabited

open Text (hex hexPadded)

/-- The offset of the command at fault. -/
def DecodeError.offset : DecodeError → Nat
  | unknownOpcode _ offset => offset
  | unexpectedEnd offset => offset
  | invalidJump _ offset => offset
  | loopStackOverflow offset => offset
  | commandLimit _ offset => offset

def DecodeError.message : DecodeError → String
  | unknownOpcode opcode offset =>
    "unknown opcode " ++ hexPadded 2 opcode.toNat ++ " at offset " ++ hex offset
  | unexpectedEnd offset => "event stream ended inside a command at offset " ++ hex offset
  | invalidJump target offset =>
    "jump target " ++ hex target.toNat ++ " at offset " ++ hex offset ++ " is outside the stream"
  | loopStackOverflow offset => "loop stack overflow at offset " ++ hex offset
  | commandLimit limit offset =>
    s!"more than {limit} commands in one tick at offset " ++ hex offset

def ResourceError.message : ResourceError → String
  | missingInstrument program key => s!"no instrument for program {program} key {key}"
  | missingSample program => s!"program {program} references a missing sample"

def SongError.message : SongError → String
  | noTracks => "song has no tracks"
  | tooManyTracks count limit => s!"song has {count} tracks, at most {limit} are supported"

end Chiptune
