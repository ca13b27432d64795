import Chiptune.Sequencer.Render
import Chiptune.Sequencer.Snapshot
import Chiptune.SongSource

/-!
# Sessions

A session has two sides. The control side owns the collection of songs and tells the sequencer what
to do; the render side asks it for sound. After every stretch of sound the render side forwards the
sequencer's notifications through a bounded queue, the mailbox, and the control side polls them. A
full mailbox means that nobody polls, and then new notifications are dropped.
-/

namespace Chiptune

/-- The state shared by both sides. The song end handler changes a value of type `σ`, which stands
for whatever the host keeps. -/
structure Session (σ : Type) where
  source : SongSource
  sequencer : Sequencer
  /-- The notifications on their way to the control side, oldest first. -/
  mailbox : List Notification := []
  /-- Called for every turn of the song that is polled. -/
  songEndHandler : Option (Notification → σ → σ) := none

namespace Session

variable {σ : Type}

def mailboxCapacity : Nat := 2 * Notices.capacity

/-- A session without a song. -/
def start (source : SongSource) (config : Config) : Session σ where
  source
  sequencer := .empty config

/-! ### The control side -/

def control (s : Session σ) (f : Sequencer → Sequencer) : Session σ :=
  { s with sequencer := f s.sequencer }

/-- Load a song of the collection in place of the one before. -/
def loadSong (index : Nat) (s : Session σ) : Except LoadError (Session σ) := do
  return { s with sequencer := ← s.source.loadInto index s.sequencer }

/-- Mute a track or let it be heard; false if there is no such track. -/
def setTrackMuted (i : Nat) (muted : Bool) (s : Session σ) : Bool × Session σ :=
  let (found, sequencer) := s.sequencer.setTrackMuted i muted
  (found, { s with sequencer })

def setSongEndHandler (handler : Notification → σ → σ) (s : Session σ) : Session σ :=
  { s with songEndHandler := some handler }

/-- What the song end handler makes of a host when it is called for some notifications. -/
def handle (s : Session σ) (polled : List Notification) (host : σ) : σ :=
  match s.songEndHandler with
  | some handler => (polled.filter fun n => n.IsTurn).foldl (fun host n => handler n host) host
  | none => host

/-! A poll takes out the notifications in two steps. The mailbox belongs to the control side and can
always be emptied. The sequencer is shared: the render side may hold it just then, and what it still
has is left for the next poll. -/

/-- The notifications in the mailbox, and the session without them. -/
def takeMailbox (s : Session σ) : List Notification × Session σ :=
  (s.mailbox, { s with mailbox := [] })

/-- The notifications that the sequencer still has, and the session without them. -/
def takeWaiting (s : Session σ) : List Notification × Session σ :=
  let (waiting, sequencer) := s.sequencer.drainNotices
  (waiting, { s with sequencer })

/-- The second step of a poll that has `taken` some notifications from the mailbox: take the
sequencer's, if it is `free`, and call the song end handler for the turns of the song among all of
them. -/
def finishPoll (s : Session σ) (taken : List Notification) (free : Bool) (host : σ) :
    List Notification × σ × Session σ :=
  let (rest, s) := if free then s.takeWaiting else ([], s)
  (taken ++ rest, s.handle (taken ++ rest) host, s)

/-- Take out all notifications: those in the mailbox, and then those that the sequencer still
has. -/
def poll (s : Session σ) (host : σ) : List Notification × σ × Session σ :=
  let (taken, s) := s.takeMailbox
  s.finishPoll taken true host

/-! ### The render side -/

/-- Move the sequencer's notifications to the mailbox, as far as there is room. -/
def forward (s : Session σ) : Session σ :=
  let (notices, sequencer) := s.sequencer.drainNotices
  { s with sequencer, mailbox := (s.mailbox ++ notices).take mailboxCapacity }

def renderFrames (count : Nat) (s : Session σ) : Array Frame × Session σ :=
  let (frames, sequencer) := s.sequencer.render count
  (frames, { s with sequencer }.forward)

/-- A row of `length` levels, left before right. -/
def renderInterleaved (length : Nat) (s : Session σ) : Array Int16 × Session σ :=
  let (row, sequencer) := s.sequencer.renderInterleaved length
  (row, { s with sequencer }.forward)

end Session
end Chiptune
