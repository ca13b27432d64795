import Chiptune.Sequencer.Tick

/-!
# Controls of the sequencer

What the host can ask of a sequencer besides sound: to play, pause, stop, go to another tick,
change the volume, and mute tracks. To seek is to play from the start without sound.
-/

namespace Chiptune.Sequencer

/-- Play on, or from the start if every track has run out. The first tick is due at once. -/
def play (s : Sequencer) : Sequencer :=
  match s.transport with
  | .playing => s
  | .paused => { s with transport := .playing }
  | .stopped =>
    if s.tracks = [] then s
    else
      let s := if s.AllFinished then s.rewind else s
      { s with account := s.tickPrice, transport := .playing }

/-- Hold a song that is playing. -/
def pause (policy : PausePolicy) (s : Sequencer) : Sequencer :=
  if s.transport = .playing then
    let s := { s with transport := .paused }
    match policy with
    | .sustain => s
    | .cut => s.cutVoices
  else s

/-- Stop, and go back to the start. -/
def stop (s : Sequencer) : Sequencer := { s with transport := .stopped }.rewind

/-- Pass up to `ticks` ticks without sound, and fewer if the song ends. -/
def replay : (ticks : Nat) → Sequencer → Sequencer
  | 0, s => s
  | ticks + 1, s =>
    if s.transport = .playing then replay ticks (s.runTick false).cutVoices else s

/-- Go to a tick, counted from the start of the song; `tick` then is the one that was reached. The
sequencer goes on as it was unless the song has ended on the way. -/
def seek (target : Nat) (s : Sequencer) : Sequencer :=
  let played := { s.rewind with transport := .playing }.replay (min target s.config.maxSeekTicks)
  { played with
    transport := if played.transport = .playing then s.transport else played.transport
    account := played.tickPrice }

def setVolume (volume : MasterVolume) (s : Sequencer) : Sequencer := { s with volume }

/-- Mute a track or let it be heard; false if there is no such track. -/
def setTrackMuted (i : Nat) (muted : Bool) (s : Sequencer) : Bool × Sequencer :=
  match s.tracks[i]? with
  | some t =>
    let (t, pool) := t.setMuted muted s.pool
    (true, { s with tracks := s.tracks.set i t, pool })
  | none => (false, s)

end Chiptune.Sequencer
