import Chiptune.Bank
import Chiptune.Cartridge.Image

/-!
# Voice groups

A voice group is the instrument bank of a song: up to 128 entries of twelve bytes. An entry is an
instrument, or it stands for a whole group of them, chosen by key. Samples are shared: an address
that has been read once names the same sample from then on (`SampleShelf`).

Anything that cannot be read is left out, and the rest of the group still plays.
-/

namespace Chiptune

/-- One entry of a voice group. -/
structure VoiceEntry where
  kind : UInt8
  baseKey : Nat
  panSweep : UInt8
  /-- Address of a sample, a wave or a group; duty or noise mode of a tone channel. -/
  data : Nat
  adsr : Adsr
  deriving DecidableEq, Repr, Inhabited

/-- Where a key split keeps the address of its key map: in place of the envelope. -/
def VoiceEntry.keyMap (e : VoiceEntry) : Nat :=
  e.adsr.attack.toNat + 256 * (e.adsr.decay.toNat +
    256 * (e.adsr.sustain.toNat + 256 * e.adsr.release.toNat))

/-- The samples read so far, each with the address that it was read from. -/
structure SampleShelf where
  addresses : Array Nat := #[]
  samples : Array Sample := #[]
  deriving Inhabited

namespace SampleShelf

def place? (shelf : SampleShelf) (address : Nat) : Option Nat :=
  shelf.addresses.findIdx? (· == address)

/-- Put a sample behind the others. -/
def add (shelf : SampleShelf) (address : Nat) (s : Sample) : SampleShelf where
  addresses := shelf.addresses.push address
  samples := shelf.samples.push s

/-- The place of the sample of an address, which `read` finds if it was not read before. -/
def fetch (address : Nat) (read : Nat → Option Sample) (shelf : SampleShelf) :
    Option Nat × SampleShelf :=
  match shelf.place? address with
  | some place => (some place, shelf)
  | none =>
    match read address with
    | some s => (some shelf.samples.size, shelf.add address s)
    | none => (none, shelf)

end SampleShelf

namespace Image

def voiceEntrySize : Nat := 12

/-- The entries of a group. -/
def voiceGroupSize : Nat := 128

/-- Entry `index` of the group at `group`, if the image holds all of it. -/
def voiceEntryAt? (image : Image) (group index : Nat) : Option VoiceEntry := do
  let i := group + index * voiceEntrySize
  let kind ← image.bytes[i]?
  let baseKey ← image.bytes[i + 1]?
  let panSweep ← image.bytes[i + 3]?
  let data ← Bytes.little? image.bytes 4 (i + 4)
  let attack ← image.bytes[i + 8]?
  let decay ← image.bytes[i + 9]?
  let sustain ← image.bytes[i + 10]?
  let release ← image.bytes[i + 11]?
  return ⟨kind, baseKey.toNat, panSweep, data, ⟨attack, decay, sustain, release⟩⟩

/-! ### Samples -/

/-- The bit that marks a looped recording. -/
def loopedFlag : Nat := 0x40000000

/-- The recording at an address: a header of sixteen bytes (flags, rate in 1024ths of a hertz, loop
start, length), and that many levels. -/
def recording? (image : Image) (address : Nat) : Option Sample := do
  let i ← image.offset? address
  let flags ← Bytes.little? image.bytes 4 i
  let rate ← Bytes.little? image.bytes 4 (i + 4)
  let loopStart ← Bytes.little? image.bytes 4 (i + 8)
  let length ← Bytes.little? image.bytes 4 (i + 12)
  let body ← Bytes.slice? image.bytes (i + 16) length
  let sample := Sample.ofData "pcm" (.pcm8 body) (rate / 1024)
  return if flags &&& loopedFlag ≠ 0 then sample.withLoop loopStart else sample

/-- The bytes of a wave, each of which holds two levels. -/
def waveSize : Nat := 16

/-- A level of four bits, centred and scaled to eight. -/
def waveLevel (nibble : Nat) : UInt8 := UInt8.ofInt ((nibble - 8) * 16)

/-- The wave at an address: 32 levels of four bits, the high half of each byte first. -/
def wave? (image : Image) (address : Nat) : Option Sample := do
  let i ← image.offset? address
  let bytes ← Bytes.slice? image.bytes i waveSize
  let levels := bytes.data.flatMap fun b =>
    #[waveLevel (b.toNat / 16), waveLevel (b.toNat % 16)]
  return (Sample.ofData "wave" (.pcm8 ⟨levels⟩) 0).withLoop 0

/-! ### Instruments -/

/-- The place of a recorded instrument, if its byte sets one. -/
def placeOf (panSweep : UInt8) : Option Int :=
  if 128 ≤ panSweep.toNat then some (panSweep.toNat - 128 - 64) else none

/-- How a tone channel's rate of falling (0 to 7 frames a level) reads as a linear rate. -/
def toneFall (rate : UInt8) : UInt8 :=
  let frames := rate.toNat % 8
  if frames = 0 then 0 else UInt8.ofNat (min (256 - 32 / frames) 255)

/-- The linear envelope that comes closest to that of a tone channel. -/
def toneAdsr (a : Adsr) : Adsr where
  attack := if a.attack.toNat % 8 = 0 then 255 else UInt8.ofNat (17 / (a.attack.toNat % 8))
  decay := toneFall a.decay
  sustain := UInt8.ofNat (a.sustain.toNat % 16 * 17)
  release := toneFall a.release

def toneInstrument (name : String) (source : SoundSource) (channel : PsgChannel) (adsr : Adsr) :
    Instrument :=
  { Instrument.named name source with psgChannel := some channel, adsr := toneAdsr adsr }

/-- The bit of a recorded instrument that sounds its root key whatever key is played. -/
def fixedPitchFlag : UInt8 := 0x08

def recordedInstrument (e : VoiceEntry) (sample : Nat) : Instrument :=
  let i := { Instrument.named "direct" (.pcm sample) with
    adsr := e.adsr
    pan := placeOf e.panSweep }
  if e.kind &&& fixedPitchFlag ≠ 0 then i.fixedAt i.rootKey else i

def keySplitKind : UInt8 := 0x40

def drumkitKind : UInt8 := 0x80

/-- The instrument of an entry. Entries that stand for a group have none, and neither has an entry
of an unknown kind or one whose sample cannot be read. -/
def instrument (image : Image) (e : VoiceEntry) (shelf : SampleShelf) :
    Option Instrument × SampleShelf :=
  if e.kind &&& (keySplitKind ||| drumkitKind) ≠ 0 then (none, shelf)
  else
    let duty := Duty.ofBits e.data
    match e.kind.toNat % 8 with
    | 0 =>
      let (place, shelf) := shelf.fetch e.data image.recording?
      (place.map (recordedInstrument e), shelf)
    | 1 => (some (toneInstrument "square1" (.square duty) .square1 e.adsr), shelf)
    | 2 => (some (toneInstrument "square2" (.square duty) .square2 e.adsr), shelf)
    | 3 =>
      let (place, shelf) := shelf.fetch e.data image.wave?
      (place.map fun sample => toneInstrument "wave" (.wave sample) .wave e.adsr, shelf)
    | 4 =>
      let mode := if e.data % 2 = 1 then NoiseMode.short else NoiseMode.long
      (some (toneInstrument "noise" (.noise mode) .noise e.adsr), shelf)
    | _ => (none, shelf)

/-- The instrument of entry `index` of the group at `group`, with the entry's base key. -/
def groupInstrument (image : Image) (group index : Nat) (shelf : SampleShelf) :
    Option (Nat × Instrument) × SampleShelf :=
  match image.voiceEntryAt? group index with
  | some e =>
    let (i, shelf) := image.instrument e shelf
    (i.map (e.baseKey, ·), shelf)
  | none => (none, shelf)

/-! ### Programs -/

/-- The regions of a key map: one for each run of equal entries, as far as its entry can be played.
`keys` are the keys to look at and `next` is the map's entry for the key behind each. -/
def regions (image : Image) (group : Nat) (map : ByteArray) :
    (keys : List Nat) → SampleShelf → List KeyRegion × SampleShelf
  | [], shelf => ([], shelf)
  | key :: keys, shelf =>
    match map[key]? with
    | none => ([], shelf)
    | some index =>
      if map[key + 1]? = some index then image.regions group map keys shelf
      else
        let (found, shelf) := image.groupInstrument group index.toNat shelf
        let (rest, shelf) := image.regions group map keys shelf
        match found with
        | some (_, instrument) => (⟨key, instrument⟩ :: rest, shelf)
        | none => (rest, shelf)

/-- The keys that a program covers. -/
def keyCount : Nat := 128

/-- A program that chooses by regions of keys, if any of them can be played. -/
def keySplit (image : Image) (e : VoiceEntry) (shelf : SampleShelf) :
    Option Program × SampleShelf :=
  match image.offset? e.data,
    (image.offset? e.keyMap).bind (Bytes.slice? image.bytes · keyCount) with
  | some group, some map =>
    match image.regions group map (List.range keyCount) shelf with
    | ([], shelf) => (none, shelf)
    | (regions, shelf) => (some (.keySplit regions), shelf)
  | _, _ => (none, shelf)

/-- The drums of a group, one for each of some keys. Each sounds at its own base key. -/
def drums (image : Image) (group : Nat) :
    (keys : List Nat) → SampleShelf → List (Option Instrument) × SampleShelf
  | [], shelf => ([], shelf)
  | key :: keys, shelf =>
    let (found, shelf) := image.groupInstrument group key shelf
    let (rest, shelf) := image.drums group keys shelf
    (found.map (fun (baseKey, i) => i.fixedAt baseKey) :: rest, shelf)

/-- A program with an instrument of its own for each key, if any of them can be played. -/
def drumkit (image : Image) (e : VoiceEntry) (shelf : SampleShelf) :
    Option Program × SampleShelf :=
  match image.offset? e.data with
  | some group =>
    let (kit, shelf) := image.drums group (List.range keyCount) shelf
    (if kit.all (·.isNone) then none else some (.drumkit kit.toArray), shelf)
  | none => (none, shelf)

def program (image : Image) (e : VoiceEntry) (shelf : SampleShelf) :
    Option Program × SampleShelf :=
  if e.kind = keySplitKind then image.keySplit e shelf
  else if e.kind = drumkitKind then image.drumkit e shelf
  else
    let (i, shelf) := image.instrument e shelf
    (i.map .single, shelf)

/-- The programs of some entries of the group at `group`, up to the first one that the image does
not hold. -/
def programs (image : Image) (group : Nat) :
    (ids : List Nat) → SampleShelf → List (Option Program) × SampleShelf
  | [], shelf => ([], shelf)
  | id :: ids, shelf =>
    match image.voiceEntryAt? group id with
    | some e =>
      let (p, shelf) := image.program e shelf
      let (rest, shelf) := image.programs group ids shelf
      (p :: rest, shelf)
    | none => ([], shelf)

/-- The bank of the voice group at an offset. -/
def voiceGroup (image : Image) (group : Nat) : Bank :=
  let (programs, shelf) := image.programs group (List.range voiceGroupSize) {}
  { samples := shelf.samples, programs := programs.toArray }

end Image
end Chiptune
