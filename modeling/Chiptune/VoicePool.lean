import Chiptune.Voice

/-!
# The voice pool

All tracks of a song share a pool of voices of fixed size. A voice is held under a handle, made of
its slot and a serial number that is never used again: once the slot has been given to another
voice, the old handle finds nothing and does no harm.

`VoicePool.slotFor` says which slot a new voice takes. A voice of a tone channel replaces the one
that holds the channel; else a free slot is taken; and in a full pool a voice has to go, released
ones before others and older ones before younger.
-/

namespace Chiptune

/-- Names one allocation of a pool. -/
structure VoiceHandle where
  slot : Nat
  serial : Nat
  deriving DecidableEq, Repr, Inhabited

/-- A voice and the serial number it was given. -/
structure HeldVoice where
  voice : Voice
  serial : Nat
  deriving DecidableEq, Inhabited

structure VoicePool where
  slots : Array (Option HeldVoice)
  nextSerial : Nat := 0
  deriving Inhabited

namespace VoicePool

/-- The most slots of a pool. -/
def greatestCapacity : Nat := 65535

/-- A pool of free slots; a capacity out of range is taken to the nearest one in range. -/
def empty (capacity : Nat) : VoicePool where
  slots := Array.replicate (max 1 (min capacity greatestCapacity)) none

def capacity (p : VoicePool) : Nat := p.slots.size

/-- The voices in the order of their slots. -/
def voices (p : VoicePool) : List Voice := p.slots.toList.filterMap (·.map HeldVoice.voice)

/-- How many slots are taken. -/
def activeCount (p : VoicePool) : Nat := p.slots.countP (·.isSome)

/-! ### Which slot a new voice takes -/

def channelSlot? (p : VoicePool) (channel : PsgChannel) : Option Nat :=
  p.slots.findIdx? fun
    | some h => h.voice.psgChannel = some channel
    | none => false

def freeSlot? (p : VoicePool) : Option Nat := p.slots.findIdx? (·.isNone)

/-- The handles of the voices that `test` accepts, in the order of their slots. -/
def handles (p : VoicePool) (test : Voice → Bool) : List VoiceHandle :=
  p.slots.toList.zipIdx.filterMap fun (held, slot) =>
    held.bind fun h => if test h.voice then some ⟨slot, h.serial⟩ else none

/-- The oldest of some handles: the one with the least serial number. -/
def oldest? : List VoiceHandle → Option VoiceHandle
  | [] => none
  | h :: rest =>
    match oldest? rest with
    | some o => some (if h.serial ≤ o.serial then h else o)
    | none => some h

/-- The slot whose voice goes when the pool is full. -/
def victimSlot? (p : VoicePool) : Option Nat :=
  (oldest? (p.handles fun v => v.envelope.IsReleased) <|> oldest? (p.handles fun _ => true)).map
    VoiceHandle.slot

def slotFor (p : VoicePool) (channel : Option PsgChannel) : Nat :=
  (channel.bind p.channelSlot? <|> p.freeSlot? <|> p.victimSlot?).getD 0

/-! ### Operations on one voice -/

/-- Give a voice a slot and a fresh serial number. -/
def allocate (p : VoicePool) (v : Voice) : VoiceHandle × VoicePool :=
  let slot := p.slotFor v.psgChannel
  (⟨slot, p.nextSerial⟩,
    { slots := p.slots.setIfInBounds slot (some ⟨v, p.nextSerial⟩)
      nextSerial := p.nextSerial + 1 })

/-- What the slot of a handle holds, if it still is what the handle was given for. -/
def held? (p : VoicePool) (h : VoiceHandle) : Option HeldVoice :=
  match p.slots[h.slot]? with
  | some (some held) => if held.serial = h.serial then some held else none
  | _ => none

def get? (p : VoicePool) (h : VoiceHandle) : Option Voice := (p.held? h).map HeldVoice.voice

def modify (p : VoicePool) (h : VoiceHandle) (f : Voice → Voice) : VoicePool :=
  match p.held? h with
  | some held =>
    { p with slots := p.slots.setIfInBounds h.slot (some { held with voice := f held.voice }) }
  | none => p

/-- Begin the release of a voice; it sounds on until its envelope is done. -/
def release (p : VoicePool) (h : VoiceHandle) : VoicePool := p.modify h Voice.release

/-- Take a voice out at once. -/
def kill (p : VoicePool) (h : VoiceHandle) : VoicePool :=
  match p.held? h with
  | some _ => { p with slots := p.slots.setIfInBounds h.slot none }
  | none => p

/-- Once a handle finds nothing, releasing or killing it changes nothing. -/
theorem release_of_get?_eq_none {p : VoicePool} {h : VoiceHandle} (gone : p.get? h = none) :
    p.release h = p := by
  simp_all [get?, release, modify]

theorem kill_of_get?_eq_none {p : VoicePool} {h : VoiceHandle} (gone : p.get? h = none) :
    p.kill h = p := by
  simp_all [get?, kill]

/-! ### Operations on all voices -/

/-- Take every voice out. -/
def killAll (p : VoicePool) : VoicePool := { p with slots := Array.replicate p.slots.size none }

/-- Change every voice. -/
def mapVoices (p : VoicePool) (f : Voice → Voice) : VoicePool :=
  { p with slots := p.slots.map (·.map fun h => { h with voice := f h.voice }) }

def mapTrack (p : VoicePool) (track : Nat) (f : Voice → Voice) : VoicePool :=
  p.mapVoices fun v => if v.track = track then f v else v

def stepEnvelopes (p : VoicePool) : VoicePool := p.mapVoices Voice.stepEnvelope

def reapFinished (p : VoicePool) : VoicePool :=
  { p with slots := p.slots.map (·.filter fun h => ¬ h.voice.IsFinished) }

/-- The sum of what all voices add to the present frame, left and right. -/
def output (bank : Bank) (p : VoicePool) : Int × Int :=
  p.slots.foldl (fun sum held =>
    match held with
    | some h =>
      let (left, right) := h.voice.output bank
      (sum.1 + left, sum.2 + right)
    | none => sum) (0, 0)

/-- Move every voice on by one frame. -/
def advance (bank : Bank) (p : VoicePool) : VoicePool := p.mapVoices (Voice.advance bank)

/-- All voices can work out their places. -/
def PlacesFit (bank : Bank) (p : VoicePool) : Prop := ∀ v ∈ p.voices, v.PlaceFits bank

instance (bank : Bank) (p : VoicePool) : Decidable (p.PlacesFit bank) :=
  inferInstanceAs (Decidable (∀ _ ∈ _, _))

@[simp] theorem capacity_mapVoices (p : VoicePool) (f : Voice → Voice) :
    (p.mapVoices f).capacity = p.capacity := by
  simp [capacity, mapVoices]

end VoicePool
end Chiptune
