import Chiptune.Sequencer.Control

/-!
# Sound from the sequencer

A frame of a playing song begins with the ticks that are due, goes on with what all voices add up
to, and ends by paying for the next tick and, now and then, a step of all envelopes. Where nothing
is playing, frames are silent and nothing moves.
-/

namespace Chiptune.Sequencer

/-- Pay for up to `count` ticks and pass them, and fewer if the song ends. -/
def passTicks : (count : Nat) → Sequencer → Sequencer
  | 0, s => s
  | count + 1, s =>
    let s := { s with account := s.account - s.tickPrice }.runTick true
    if s.transport = .playing then passTicks count s else s

def passDueTicks (s : Sequencer) : Sequencer := s.passTicks (s.account / s.tickPrice)

/-- Count a frame towards the next envelope step. At each step, voices that are finished leave the
pool. -/
def countEnvelopeFrame (s : Sequencer) : Sequencer :=
  if s.envelopeFrames + 1 < s.envelopePeriod then
    { s with envelopeFrames := s.envelopeFrames + 1 }
  else { s with envelopeFrames := 0, pool := s.pool.stepEnvelopes.reapFinished }

/-- Sound all voices for one frame. -/
def soundFrame (s : Sequencer) : Frame × Sequencer :=
  let (frame, pool) := s.pool.render s.bank s.volume
  (frame, { s with pool, account := s.account + s.frameIncome }.countEnvelopeFrame)

def nextFrame (s : Sequencer) : Frame × Sequencer :=
  if s.transport = .playing then
    let s := s.passDueTicks
    if s.transport = .playing then s.soundFrame else (.silence, s)
  else (.silence, s)

def renderOnto : (count : Nat) → (frames : Array Frame) → Sequencer → Array Frame × Sequencer
  | 0, frames, s => (frames, s)
  | count + 1, frames, s =>
    let (frame, s) := s.nextFrame
    s.renderOnto count (frames.push frame)

def render (count : Nat) (s : Sequencer) : Array Frame × Sequencer := s.renderOnto count #[]

/-! A player works out the place in a wave in 64 bits. Where these are too few it comes to a stop,
and then there is no sound. -/

def soundFrame? (s : Sequencer) : Option (Frame × Sequencer) :=
  if s.pool.PlacesFit s.bank then some s.soundFrame else none

def nextFrame? (s : Sequencer) : Option (Frame × Sequencer) :=
  if s.transport = .playing then
    let s := s.passDueTicks
    if s.transport = .playing then s.soundFrame? else some (.silence, s)
  else some (.silence, s)

def renderOnto? :
    (count : Nat) → (frames : Array Frame) → Sequencer → Option (Array Frame × Sequencer)
  | 0, frames, s => some (frames, s)
  | count + 1, frames, s => do
    let (frame, s) ← s.nextFrame?
    s.renderOnto? count (frames.push frame)

/-- What `render` gives, if all places on the way can be worked out. -/
def render? (count : Nat) (s : Sequencer) : Option (Array Frame × Sequencer) :=
  s.renderOnto? count #[]

/-- A row of `length` levels, left before right. -/
def renderInterleaved (length : Nat) (s : Sequencer) : Array Int16 × Sequencer :=
  let (frames, s) := s.render (length / 2)
  (interleave length frames, s)

/-- Add up to `limit` frames to `frames`, in blocks of `block`. Before each block, a sequencer that
is not playing ends it. -/
def renderBlocks (block limit : Nat) (frames : Array Frame) (s : Sequencer) :
    Array Frame × Sequencer :=
  if _h : 0 < limit ∧ s.transport = .playing then
    let count := min limit (max 1 block)
    let (frames, s) := s.renderOnto count frames
    renderBlocks block (limit - count) frames s
  else (frames, s)
termination_by limit
decreasing_by omega

/-- The frames of a song until it stops, at most `limit` of them. A song that stops inside a block
is followed by silence up to the block's end. -/
def renderUntilStopped (block limit : Nat) (s : Sequencer) : Array Frame × Sequencer :=
  s.renderBlocks block limit #[]

end Chiptune.Sequencer
