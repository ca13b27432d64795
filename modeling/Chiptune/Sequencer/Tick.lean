import Chiptune.Sequencer.Basic

/-!
# Ticks of a song

In one tick every track passes a tick, in order. Then the song looks at itself: if all tracks have
run out, it goes on from their loop points or ends; if not, it has gone round as often as the
track that has gone round least. A limit on loops ends it too.
-/

namespace Chiptune.Sequencer

/-- Pass one tick of each track, one after the other, on the same stage. -/
def tickTracks (env : Setting) : List Track → Stage → List Track × Stage
  | [], stage => ([], stage)
  | t :: rest, stage =>
    let (t, stage) := t.tick env stage
    let (rest, stage) := tickTracks env rest stage
    (t :: rest, stage)

/-- What the tracks of the loaded song play with. -/
def setting (s : Sequencer) : Setting where
  driver := s.driver
  bank := s.bank
  sampleRate := s.config.sampleRate
  commandLimit := s.config.commandLimit

/-- What the tracks of the loaded song share. -/
def stage (s : Sequencer) : Stage where
  pool := s.pool
  tempo := s.tempo
  notices := s.notices

/-- The song is over: silence, and word of it to the host. -/
def endSong (s : Sequencer) : Sequencer :=
  { s.cutVoices with transport := .stopped }.notify .songEnded

/-- End the song if it has gone round as often as it may. -/
def checkLoopLimit (s : Sequencer) : Sequencer :=
  match s.config.loopLimit with
  | some limit => if limit ≤ s.songLoops then s.endSong else s
  | none => s

/-- Every track has run out: those with a loop point go on from it, and without any the song is
over. -/
def wrapOrEnd (s : Sequencer) : Sequencer :=
  if s.tracks.any fun t => t.restart?.isSome then
    let s := { s with
      tracks := s.tracks.map fun t => (Track.restart? t).getD t
      songLoops := s.songLoops + 1 }
    (s.notify (.loopWrapped s.songLoops)).checkLoopLimit
  else s.endSong

/-- How often every unfinished track has gone round, at least. -/
def commonLoops (s : Sequencer) : Nat :=
  (((s.tracks.filter fun t => ¬ t.IsFinished).map fun t => t.head.loopCount).min?).getD 0

/-- Take note if the song has gone round once more, and tell the host if `announce` says so. -/
def countLoops (announce : Bool) (s : Sequencer) : Sequencer :=
  let loops := s.commonLoops
  if loops ≤ s.songLoops then s
  else
    let s := { s with songLoops := loops }
    (if announce then s.notify (.loopWrapped loops) else s).checkLoopLimit

/-- Pass one tick of the song. -/
def runTick (announce : Bool) (s : Sequencer) : Sequencer :=
  let (tracks, stage) := tickTracks s.setting s.tracks s.stage
  let s := { s with
    tracks
    pool := stage.pool
    tempo := stage.tempo
    notices := stage.notices
    tick := s.tick + 1 }
  if s.AllFinished then s.wrapOrEnd else s.countLoops announce

end Chiptune.Sequencer
