import Chiptune.Sequencer.Basic

/-!
# Snapshots

A snapshot is what a display shows of a sequencer: its state at one moment, without the parts that
only matter for going on.
-/

namespace Chiptune

/-- One track at one moment. -/
structure TrackSnapshot where
  index : Nat
  progress : Progress
  cursor : Nat
  program : Nat
  volume : Nat
  pan : Int
  bend : Int
  /-- The keys that are held and not yet released. -/
  keys : List Nat
  loopCount : Nat
  muted : Bool
  error : Option DecodeError
  deriving DecidableEq, Repr, Inhabited

/-- A song at one moment. -/
structure Snapshot where
  transport : Transport := .stopped
  songIndex : Option Nat := none
  driver : SoundDriver := .m4a
  tick : Nat := 0
  tempo : Nat := 0
  volume : MasterVolume := .unity
  activeVoices : Nat := 0
  songLoops : Nat := 0
  tracks : List TrackSnapshot := []
  deriving DecidableEq, Repr, Inhabited

def Snapshot.heldKeys (s : Snapshot) : Nat :=
  s.tracks.foldr (fun t held => t.keys.length + held) 0

def Track.snapshot (pool : VoicePool) (t : Track) : TrackSnapshot where
  index := t.index
  progress := t.head.progress
  cursor := t.head.cursor
  program := t.head.controls.program
  volume := t.head.controls.volume
  pan := t.head.controls.pan
  bend := t.head.controls.bend
  keys := t.soundingKeys pool
  loopCount := t.head.loopCount
  muted := t.muted
  error := t.head.error

def Sequencer.snapshot (s : Sequencer) : Snapshot where
  transport := s.transport
  songIndex := s.songIndex
  driver := s.driver
  tick := s.tick
  tempo := s.tempo
  volume := s.volume
  activeVoices := s.pool.activeCount
  songLoops := s.songLoops
  tracks := s.tracks.map (Track.snapshot s.pool)

end Chiptune
