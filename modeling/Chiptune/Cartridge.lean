import Chiptune.Cartridge.SongTable
import Chiptune.Cartridge.VoiceGroup
import Chiptune.Song

/-!
# Cartridges

A cartridge is an image together with the songs that its song table lists. `Cartridge.insert` finds
the table and `Cartridge.song` reads one song, with its voice group. The tracks of a song share the
image as their byte string and differ in where they start.
-/

namespace Chiptune

structure Cartridge where
  image : Image
  tableOffset : Nat
  entries : Array SongEntry
  deriving Inhabited

namespace Cartridge

/-- Take an image whose song table is at `table`, a bus address or an offset. A table without any
song is refused. -/
def insert (image : Image) (table : Nat) : Except CartridgeError Cartridge := do
  let tableOffset ← image.userOffset table
  match image.songEntries Image.maxSongs tableOffset with
  | [] => .error .emptySongTable
  | entries => .ok { image, tableOffset, entries := entries.toArray }

def songCount (c : Cartridge) : Nat := c.entries.size

def header (c : Cartridge) (index : Nat) : Except CartridgeError SongHeader := do
  match c.entries[index]? with
  | none => .error (.songIndexOutOfRange index c.songCount)
  | some entry =>
    let offset ← c.image.offset entry.header
    match c.image.songHeader? offset with
    | some h => .ok h
    | none => .error .truncatedHeader

def trackCount (c : Cartridge) (index : Nat) : Except CartridgeError Nat := do
  return (← c.header index).tracks.length

/-- The track that starts at a bus address. -/
def trackSource (c : Cartridge) (pointer : Nat) : Except CartridgeError TrackSource := do
  return {
    stream := { bytes := c.image.bytes, base := UInt32.ofNat Image.busAddress }
    start := ← c.image.offset pointer }

/-- A song with its voice group. -/
def song (c : Cartridge) (index : Nat) : Except CartridgeError Song := do
  let header ← c.header index
  let bank := c.image.voiceGroup (← c.image.offset header.voiceGroup)
  let sources ← header.tracks.mapM c.trackSource
  return { index, driver := .m4a, sources, bank }

end Cartridge
end Chiptune
