/-!
# Sound drivers

A handheld game plays its music through a small program, the sound driver. The driver fixes what
a song's event stream means and how it is timed: the length of a tick, the number of voices, the
shape of its envelopes. `SoundDriver` names the four drivers that can be played and
`SoundDriver.profile` holds their constants.
-/

namespace Chiptune

/-- How a driver runs its envelopes. -/
inductive EnvelopeModel
  /-- Levels from 0 to 255, added to and scaled directly. -/
  | linear
  /-- Levels in units of attenuation, from the floor up to 0. -/
  | attenuation
  deriving DecidableEq, Repr, Inhabited

/-- The drivers whose event streams can be played. -/
inductive SoundDriver
  | m4a
  | mlss
  | dse
  | sdat
  deriving DecidableEq, Repr, Inhabited

/-- The constants of one driver. -/
structure Profile where
  /-- Ticks in a quarter note. -/
  ticksPerQuarter : Nat
  /-- Voices that can sound at once. -/
  maxVoices : Nat
  /-- How often envelopes advance, in thousandths of a hertz. -/
  envelopeRate : Nat
  envelopeModel : EnvelopeModel
  /-- Quarter notes in a minute, for songs that name no tempo. -/
  defaultTempo : Nat
  /-- Semitones that a full bend reaches. -/
  defaultBendRange : Nat
  /-- Calls and loops that may be open at once in one stream. -/
  nestingDepth : Nat
  deriving DecidableEq, Repr, Inhabited

namespace SoundDriver

/-- Thousandths of a hertz of one screen refresh on the older handheld. -/
def refreshRate : Nat := 59727

/-- Thousandths of a hertz of the sequencer interrupt on the newer handheld. -/
def interruptRate : Nat := 191952

/-- The constants of each driver. -/
def profile : SoundDriver → Profile
  | m4a => ⟨24, 12, refreshRate, .linear, 150, 2, 3⟩
  | mlss => ⟨24, 12, refreshRate, .linear, 120, 2, 4⟩
  | dse => ⟨48, 16, interruptRate, .attenuation, 120, 2, 4⟩
  | sdat => ⟨48, 16, interruptRate, .attenuation, 120, 2, 3⟩

def name : SoundDriver → String
  | m4a => "M4A/MP2K"
  | mlss => "MLSS"
  | dse => "DSE"
  | sdat => "SDAT"

end SoundDriver

/-- Output frames between two envelope steps: at least one, so envelopes always advance. -/
def Profile.envelopePeriod (p : Profile) (sampleRate : Nat) : Nat :=
  max 1 (sampleRate * 1000 / p.envelopeRate)

theorem Profile.envelopePeriod_pos (p : Profile) (sampleRate : Nat) :
    0 < p.envelopePeriod sampleRate := by
  unfold envelopePeriod
  omega

end Chiptune
