import Chiptune.Bytes
import Chiptune.Frame

/-!
# WAV files

A WAV file is a header of 44 bytes followed by the frames, left before right, each level in two
bytes with the low one first. The header tells the sample rate and two sizes, all in 32 bits, so
sound that is too long or too fast has no file (`Wav.Fits`).
-/

namespace Chiptune.Wav

def channels : Nat := 2

def bitsPerLevel : Nat := 16

def frameSize : Nat := channels * bitsPerLevel / 8

def headerSize : Nat := 44

/-- The bytes of the levels. -/
def dataSize (frames : Array Frame) : Nat := frames.size * frameSize

/-- The bytes behind the first size field. -/
def riffSize (frames : Array Frame) : Nat := headerSize - 8 + dataSize frames

/-- The bytes of one second. -/
def byteRate (sampleRate : Nat) : Nat := sampleRate * frameSize

/-- All numbers of the header fit 32 bits. -/
def Fits (frames : Array Frame) (sampleRate : Nat) : Prop :=
  riffSize frames < Bytes.span 4 ∧ byteRate sampleRate < Bytes.span 4

instance (frames : Array Frame) (sampleRate : Nat) : Decidable (Fits frames sampleRate) :=
  inferInstanceAs (Decidable (_ ∧ _))

/-- The bytes of a text of ASCII characters. -/
def tag (text : String) : List UInt8 := text.toUTF8.data.toList

/-- The header: what the file is, the format of its levels, and their size. -/
def header (frames : Array Frame) (sampleRate : Nat) : List UInt8 :=
  tag "RIFF" ++ Bytes.littleBytes 4 (riffSize frames) ++
    tag "WAVE" ++
    tag "fmt " ++ Bytes.littleBytes 4 16 ++
    Bytes.littleBytes 2 1 ++
    Bytes.littleBytes 2 channels ++
    Bytes.littleBytes 4 sampleRate ++
    Bytes.littleBytes 4 (byteRate sampleRate) ++
    Bytes.littleBytes 2 frameSize ++
    Bytes.littleBytes 2 bitsPerLevel ++
    tag "data" ++ Bytes.littleBytes 4 (dataSize frames)

def pushLevel (file : ByteArray) (level : Int16) : ByteArray :=
  let bits := level.toUInt16
  (file.push bits.toUInt8).push (bits >>> 8).toUInt8

def pushFrame (file : ByteArray) (f : Frame) : ByteArray :=
  pushLevel (pushLevel file f.left) f.right

/-- The file of some frames, if its header can tell their size and rate. -/
def encode? (frames : Array Frame) (sampleRate : Nat) : Option ByteArray :=
  if Fits frames sampleRate then
    some (frames.foldl pushFrame (header frames sampleRate).toByteArray)
  else none

end Chiptune.Wav
