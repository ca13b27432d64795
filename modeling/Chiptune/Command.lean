/-!
# Commands

Each driver has its own opcodes, and all of them decode into this one vocabulary. A place in a
stream is always a byte offset from the stream's first byte; addresses of the console and relative
jumps have been resolved by then.
-/

namespace Chiptune

/-- The four numbers that shape an envelope. -/
inductive EnvelopeParam
  | attack
  | decay
  | sustain
  | release
  deriving DecidableEq, Repr, Inhabited

/-- What a stream can ask of its track. -/
inductive Command
  /-- Start a note; without a duration it sounds until a matching `noteOff`. -/
  | noteOn (key velocity : Nat) (duration : Option Nat)
  /-- End the untimed notes on one key, or all of them. -/
  | noteOff (key : Option Nat)
  /-- Choose the program that later notes play. -/
  | program (id : Nat)
  | volume (level : Nat)
  | expression (level : Nat)
  /-- Place the track between left (−64) and right (63). -/
  | pan (place : Int)
  /-- Bend the pitch, as a fraction of 8192 of the bend range. -/
  | bend (amount : Int)
  | bendRange (semitones : Nat)
  | transpose (semitones : Int)
  /-- Set the song's tempo in quarter notes a minute. -/
  | tempo (bpm : Nat)
  /-- Rest for a number of ticks. -/
  | wait (ticks : Nat)
  | jump (target : Nat)
  /-- Run the body at `target` that many times (for ever without a number), then come back. -/
  | call (target : Nat) (passes : Option Nat)
  /-- End of a called body. -/
  | endCall
  /-- Go back to `target` until this has been reached `count` times. -/
  | again (target count : Nat)
  /-- Open a loop that starts right here; without a number it repeats for ever. -/
  | openLoop (passes : Option Nat)
  | closeLoop
  /-- Remember this place: the song goes on from here when every track has run out. -/
  | loopPoint
  /-- Replace one envelope number of the notes to come. -/
  | envelope (param : EnvelopeParam) (value : UInt8)
  | nop
  /-- End of the stream. -/
  | finish
  deriving DecidableEq, Repr, Inhabited

end Chiptune
