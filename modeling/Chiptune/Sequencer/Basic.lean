import Chiptune.Track

/-!
# The sequencer

A sequencer holds one song: its tracks, the pool of voices that they share, and where in time the
song is. Time is kept in whole numbers. Every output frame adds the tempo times the ticks of a
quarter note to an account, and a tick is due whenever the account holds a minute's worth of
frames; what is left over stays in the account, so nothing is lost to rounding.

This module holds the state, loading a song, and going back to its start. Ticks are in
`Chiptune.Sequencer.Tick`, what the host can ask for in `Chiptune.Sequencer.Control`, and sound in
`Chiptune.Sequencer.Render`.
-/

namespace Chiptune

/-- What a sequencer is doing. -/
inductive Transport
  | stopped
  | playing
  | paused
  deriving DecidableEq, Repr, Inhabited

/-- What happens to the voices of a song that is paused. -/
inductive PausePolicy
  /-- They are held, and go on where they were. -/
  | sustain
  /-- They are cut off. -/
  | cut
  deriving DecidableEq, Repr, Inhabited

/-- What the host chooses for a sequencer. -/
structure Config where
  /-- Output frames a second. -/
  sampleRate : Nat := 48000
  /-- The most commands that a track may run in one tick. -/
  commandLimit : Nat := 1000
  /-- End the song after this many loops. -/
  loopLimit : Option Nat := none
  /-- The furthest tick that can be sought. -/
  maxSeekTicks : Nat := 262144
  volume : MasterVolume := .unity
  deriving DecidableEq, Repr, Inhabited

/-- The same choices with a sample rate of at least one. -/
def Config.withSampleRate (c : Config) (sampleRate : Nat) : Config :=
  { c with sampleRate := max 1 sampleRate }

/-- The most tracks of a song. -/
def maxTracks : Nat := 32

structure Sequencer where
  config : Config
  driver : SoundDriver
  /-- The place of the loaded song in its collection. -/
  songIndex : Option Nat := none
  bank : Bank := {}
  tracks : List Track := []
  pool : VoicePool
  volume : MasterVolume
  notices : Notices := {}
  transport : Transport := .stopped
  initialTempo : Nat
  tempo : Nat
  /-- Ticks since the start of the song. -/
  tick : Nat := 0
  /-- The account that ticks are paid from. -/
  account : Nat := 0
  /-- Frames since the last envelope step. -/
  envelopeFrames : Nat := 0
  /-- How often the whole song has gone round. -/
  songLoops : Nat := 0
  deriving Inhabited

namespace Sequencer

/-- A sequencer without a song, which is silent. -/
def empty (config : Config) : Sequencer :=
  let driver := SoundDriver.m4a
  { config := config.withSampleRate config.sampleRate
    driver
    pool := .empty driver.profile.maxVoices
    volume := config.volume
    initialTempo := driver.profile.defaultTempo
    tempo := driver.profile.defaultTempo }

/-- Take every voice out, and forget the notes they were for. -/
def cutVoices (s : Sequencer) : Sequencer :=
  { s with pool := s.pool.killAll, tracks := s.tracks.map Track.clearNotes }

/-- Go back to the start of the song. Mutes, volume and notifications stay as they are. -/
def rewind (s : Sequencer) : Sequencer :=
  { s with
    pool := s.pool.killAll
    tracks := s.tracks.map (Track.reset s.driver)
    tempo := s.initialTempo
    tick := 0
    account := 0
    envelopeFrames := 0
    songLoops := 0 }

/-- Take a song, stopped at its start, in place of the one before. -/
def load (s : Sequencer) (song : Song) : Except SongError Sequencer :=
  if song.sources = [] then .error .noTracks
  else if maxTracks < song.sources.length then
    .error (.tooManyTracks song.sources.length maxTracks)
  else
    .ok { s with
      driver := song.driver
      songIndex := some song.index
      bank := song.bank
      tracks := song.sources.mapIdx (Track.atStart song.driver)
      pool := .empty song.driver.profile.maxVoices
      transport := .stopped
      initialTempo := max 1 song.initialTempo : Sequencer }.rewind

/-- A tick is due when the account holds this much. -/
def tickPrice (s : Sequencer) : Nat := s.config.sampleRate * 60

/-- What every frame adds to the account. -/
def frameIncome (s : Sequencer) : Nat := s.tempo * s.driver.profile.ticksPerQuarter

/-- Frames between two envelope steps. -/
def envelopePeriod (s : Sequencer) : Nat :=
  s.driver.profile.envelopePeriod s.config.sampleRate

/-- Every track has run out. -/
def AllFinished (s : Sequencer) : Prop := ∀ t ∈ s.tracks, t.IsFinished

instance (s : Sequencer) : Decidable s.AllFinished := inferInstanceAs (Decidable (∀ _ ∈ _, _))

/-- Tell the host. -/
def notify (s : Sequencer) (n : Notification) : Sequencer :=
  { s with notices := s.notices.push n }

/-- Take the oldest notification out. -/
def popNotice (s : Sequencer) : Option Notification × Sequencer :=
  let (n, notices) := s.notices.pop
  (n, { s with notices })

/-- Take all notifications out, oldest first. -/
def drainNotices (s : Sequencer) : List Notification × Sequencer :=
  (s.notices.waiting, { s with notices := {} })

end Sequencer
end Chiptune
