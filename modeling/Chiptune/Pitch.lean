/-!
# Pitch

A pitch is counted in 256ths of a semitone. A recording is played at the ratio of a pitch relative
to its root key; a tone generator turns an absolute pitch into the part of its cycle that passes
in one output frame. All arithmetic is on whole numbers, so equal inputs give equal sounds.
-/

namespace Chiptune.Pitch

def unitsPerSemitone : Nat := 256

def unitsPerOctave : Nat := 12 * unitsPerSemitone

/-- The ratio of 0 to 12 semitones, with 16 fraction bits. -/
def semitoneRatios : Array Nat := #[
  65536, 69433, 73562, 77936, 82570, 87480, 92682, 98193, 104032, 110218, 116772, 123715, 131072]

/-- The ratio of a pitch within one octave: between two semitones it grows in a straight line. -/
def ratioWithinOctave (units : Nat) : Nat :=
  let semitone := units / unitsPerSemitone
  let low := semitoneRatios.getD semitone 0
  let high := semitoneRatios.getD (semitone + 1) 0
  low + (high - low) * (units % unitsPerSemitone) / unitsPerSemitone

/-- The octave of a pitch, no further than 16 down and 10 up. -/
def octave (pitch : Int) : Int := max (-16) (min (pitch / unitsPerOctave) 10)

/-- The ratio of frequencies that a pitch stands for, with 16 fraction bits. -/
def ratio (pitch : Int) : Nat :=
  let within := ratioWithinOctave (pitch % unitsPerOctave).toNat
  let octave := octave pitch
  if 0 ≤ octave then within <<< octave.toNat else within >>> (-octave).toNat

/-- How far a bend moves the pitch; 8192 stands for the whole range. -/
def bendOffset (bend : Int) (range : Nat) : Int :=
  (bend * range * unitsPerSemitone).tdiv 8192

/-- The pitch of a key against a root key. -/
def relative (key rootKey : Nat) (transpose bend : Int) (range : Nat) : Int :=
  (key + transpose - rootKey) * unitsPerSemitone + bendOffset bend range

/-- The pitch of a key against key 0. -/
def absolute (key : Nat) (bend : Int) (range : Nat) : Int :=
  key * unitsPerSemitone + bendOffset bend range

/-- Increments are kept in 32 bits and stop at the greatest of them. -/
def greatestIncrement : Nat := 0xFFFFFFFF

/-- How far a recording of `rate` moves on in one output frame, with 16 fraction bits. -/
def sampleIncrement (rate : Nat) (pitch : Int) (sampleRate : Nat) : Nat :=
  if sampleRate = 0 then 0 else min (rate * ratio pitch / sampleRate) greatestIncrement

/-- The key of the tuning fork and its frequency. -/
def concertKey : Nat := 69

def concertFrequency : Nat := 440

/-- The part of a cycle, of 2^32 parts, that passes in one output frame. -/
def phaseIncrement (pitch : Int) (sampleRate : Nat) : Nat :=
  let frequency := concertFrequency * ratio (pitch - concertKey * unitsPerSemitone)
  if sampleRate = 0 then 0 else min (frequency * 65536 / sampleRate) greatestIncrement

end Chiptune.Pitch
