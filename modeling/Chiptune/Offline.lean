import Chiptune.Sequencer.Render
import Chiptune.SongSource
import Chiptune.Wav

/-!
# Rendering songs offline

A song is rendered as a whole: until it stops, or until its time is over.
-/

namespace Chiptune.Offline

/-- Frames that are rendered between two looks at whether the song still plays. -/
def blockSize : Nat := 1024

/-- The frames of a song, for at most `seconds`. -/
def render (source : SongSource) (index : Nat) (config : Config) (seconds : Nat) :
    Except LoadError (Array Frame) := do
  let s ← source.loadInto index (.empty config)
  return (s.play.renderUntilStopped blockSize (config.sampleRate * seconds)).1

/-- The WAV file of a song that goes round at most `loops` times. The header names the rate that
was asked for. -/
def renderWav? (source : SongSource) (index sampleRate : Nat) (loops : Option Nat)
    (seconds : Nat) : Except LoadError (Option ByteArray) := do
  let config := { ({} : Config).withSampleRate sampleRate with loopLimit := loops }
  return Wav.encode? (← render source index config seconds) sampleRate

end Chiptune.Offline
