import Chiptune.MasterVolume
import Chiptune.Notification
import Chiptune.Playhead.Tick
import Chiptune.Song

/-!
# Tracks

A track is a playhead with the notes that it has started. The playhead says what should sound, and
the track sees to it: it finds the instrument of each note, puts voices into the pool, and keeps
the pool's handles so that it can end its notes later.

All tracks act on one `Stage`: the pool, the tempo and the notifications of the song. Nothing on
the stage ever reaches a playhead.
-/

namespace Chiptune

/-- A note that a track holds. -/
structure Note where
  handle : VoiceHandle
  key : Nat
  /-- Ticks until the note ends; without a number it lasts until it is ended. -/
  remaining : Option Nat
  deriving DecidableEq, Repr, Inhabited

/-- What the tracks of a song share while they play. -/
structure Stage where
  pool : VoicePool
  tempo : Nat
  notices : Notices
  deriving Inhabited

/-- What stays the same for all tracks of a song. -/
structure Setting where
  driver : SoundDriver
  bank : Bank
  sampleRate : Nat
  commandLimit : Nat
  deriving Inhabited

structure Track where
  index : Nat
  source : TrackSource
  head : Playhead
  /-- The notes that are held, oldest first. -/
  notes : List Note := []
  muted : Bool := false
  deriving Inhabited

def Stage.modifyPool (st : Stage) (f : VoicePool → VoicePool) : Stage :=
  { st with pool := f st.pool }

/-- Tell the host. -/
def Stage.notify (st : Stage) (n : Notification) : Stage :=
  { st with notices := st.notices.push n }

def Stage.releaseNotes (st : Stage) (notes : List Note) : Stage :=
  st.modifyPool fun pool => notes.foldl (fun pool n => pool.release n.handle) pool

namespace Note

/-- The note one tick later. -/
def countDown (n : Note) : Note := { n with remaining := n.remaining.map (· - 1) }

/-- The note's time is over. -/
def IsExpired (n : Note) : Prop := n.remaining = some 0

instance (n : Note) : Decidable n.IsExpired := inferInstanceAs (Decidable (_ = _))

/-- The note is ended by a note-off of that key, or of all keys. Timed notes never are. -/
def EndsWith (n : Note) (key : Option Nat) : Prop :=
  n.remaining = none ∧ (key = none ∨ key = some n.key)

instance (n : Note) (key : Option Nat) : Decidable (n.EndsWith key) :=
  inferInstanceAs (Decidable (_ ∧ _))

/-- The note's voice still sounds and is not being released. -/
def IsHeld (pool : VoicePool) (n : Note) : Prop :=
  match pool.get? n.handle with
  | some v => ¬ v.envelope.IsReleased
  | none => False

instance (pool : VoicePool) (n : Note) : Decidable (n.IsHeld pool) := by
  unfold IsHeld
  split <;> infer_instance

end Note

namespace Track

/-- A track at the start of its stream. -/
def atStart (driver : SoundDriver) (index : Nat) (source : TrackSource) : Track where
  index
  source
  head := .atStart driver source.start

/-- Go back to the start of the stream; only the mute stays. -/
def reset (driver : SoundDriver) (t : Track) : Track :=
  { atStart driver t.index t.source with muted := t.muted }

/-- The stream is over. -/
def IsFinished (t : Track) : Prop := t.head.IsFinished

instance (t : Track) : Decidable t.IsFinished := inferInstanceAs (Decidable t.head.IsFinished)

/-- The keys of the notes that are held and not yet released. -/
def soundingKeys (pool : VoicePool) (t : Track) : List Nat :=
  (t.notes.filter fun n => n.IsHeld pool).map Note.key

/-- Forget the notes, whose voices are gone. -/
def clearNotes (t : Track) : Track := { t with notes := [] }

/-- The most notes that a track holds. -/
def greatestNotes : Nat := 16

/-! ### Starting a note -/

/-- The rate of the recording that an instrument plays, or nothing if the recording is missing.
Tone generators have no rate. -/
def sampleRate? (bank : Bank) (source : SoundSource) : Option Nat :=
  match source with
  | .pcm sample => (bank.sample? sample).map Sample.rate
  | .wave sample => (bank.sample? sample).map Sample.rate
  | .square _ => some 0
  | .noise _ => some 0

/-- The key that a track plays: transposed, and kept within the keyboard. -/
def transposed (key : Nat) (transpose : Int) : Nat := min (max 0 (key + transpose)).toNat 127

/-- The voice of a note, or why there is none. -/
def voiceFor (env : Setting) (index : Nat) (muted : Bool) (key velocity : Nat) (c : Controls) :
    Except ResourceError Voice :=
  match env.bank.resolve c.program key with
  | none => .error (.missingInstrument c.program key)
  | some (instrument, soundingKey) =>
    match sampleRate? env.bank instrument.source with
    | none => .error (.missingSample c.program)
    | some rate =>
      let envelope :=
        Envelope.start env.driver.profile.envelopeModel (c.envelope.apply instrument.adsr)
      let voice := Voice.start instrument rate index key soundingKey velocity envelope
      .ok (((voice.retune c.bend c.bendRange env.sampleRate).setMix c.level c.pan).setMuted muted)

/-- Let go of the oldest note if there is no room for another one. -/
def makeRoom (t : Track) (st : Stage) : Track × Stage :=
  if t.notes.length < greatestNotes then (t, st)
  else ({ t with notes := t.notes.drop 1 }, st.releaseNotes (t.notes.take 1))

/-- Put a voice into the pool and hold it as a note. A note of no duration lasts one tick. -/
def hold (key : Nat) (duration : Option Nat) (voice : Voice) (t : Track) (st : Stage) :
    Track × Stage :=
  let (t, st) := t.makeRoom st
  let (handle, pool) := st.pool.allocate voice
  ({ t with notes := t.notes ++ [⟨handle, key, duration.map (max 1)⟩] }, { st with pool })

/-- Start a note, or tell the host why it cannot sound. -/
def noteOn (env : Setting) (key velocity : Nat) (duration : Option Nat) (c : Controls) (t : Track)
    (st : Stage) : Track × Stage :=
  let key := transposed key c.transpose
  match voiceFor env t.index t.muted key velocity c with
  | .ok voice => t.hold key duration voice st
  | .error e => (t, st.notify (.resourceMissing t.index e))

/-! ### Ending notes -/

/-- Release the notes that `ends` picks out, and keep the others. -/
def endNotes (ends : Note → Bool) (t : Track) (st : Stage) : Track × Stage :=
  ({ t with notes := t.notes.filter fun n => !ends n }, st.releaseNotes (t.notes.filter ends))

/-- Count every timed note down. Notes whose time is over end, and notes whose voice has gone are
forgotten. -/
def countDown (t : Track) (st : Stage) : Track × Stage :=
  { t with notes := t.notes.map Note.countDown }.endNotes
    (fun n => n.IsExpired ∨ (st.pool.get? n.handle).isNone) st

/-! ### Effects and ticks -/

/-- Do what the playhead asks for. -/
def apply (env : Setting) (t : Track) (st : Stage) : Effect → Track × Stage
  | .noteOn key velocity duration c => t.noteOn env key velocity duration c st
  | .noteOff key => t.endNotes (fun n => n.EndsWith key) st
  | .mix c => (t, st.modifyPool (·.mapTrack t.index (·.setMix c.level c.pan)))
  | .tune c => (t, st.modifyPool (·.mapTrack t.index (·.retune c.bend c.bendRange env.sampleRate)))
  | .tempo bpm => (t, { st with tempo := max 1 bpm })
  | .ended => t.endNotes (fun _ => true) st
  | .failed e =>
    let (t, st) := t.endNotes (fun _ => true) st
    (t, st.notify (.trackFailed t.index e))

/-- Pass one tick: count the notes down, move the playhead, and do what it asks for. -/
def tick (env : Setting) (t : Track) (st : Stage) : Track × Stage :=
  if t.IsFinished then (t, st)
  else
    let (t, st) := t.countDown st
    let (head, effects) := t.head.tick env.driver env.commandLimit t.source.stream
    effects.foldl (fun (t, st) e => t.apply env st e) ({ t with head }, st)

/-- Go on from the loop point, if there is one. -/
def restart? (t : Track) : Option Track := t.head.restart?.map ({ t with head := · })

/-- Silence the track's voices, or let them be heard again. -/
def setMuted (muted : Bool) (t : Track) (pool : VoicePool) : Track × VoicePool :=
  ({ t with muted }, pool.mapTrack t.index (·.setMuted muted))

end Track
end Chiptune
