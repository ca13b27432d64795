import Chiptune.Cartridge.Image

/-!
# Song tables and song headers

The song table is a row of entries of eight bytes. Nothing says how long it is: it goes on as long
as its entries point into the image, up to a limit. Each entry points to a song header, which
names the song's voice group and the start of each track.
-/

namespace Chiptune

structure SongEntry where
  /-- Bus address of the song header. -/
  header : Nat
  /-- The group of channels that the song plays on. -/
  player : Nat
  unknown : Nat
  deriving DecidableEq, Repr, Inhabited

/-- What a song header names, as bus addresses. -/
structure SongHeader where
  voiceGroup : Nat
  tracks : List Nat
  deriving DecidableEq, Repr, Inhabited

namespace Image

/-- The bytes of one entry. -/
def entrySize : Nat := 8

/-- The most songs of a table. -/
def maxSongs : Nat := 2048

/-- The entry at an offset, if the image holds all of it. -/
def songEntryAt? (image : Image) (i : Nat) : Option SongEntry := do
  let header ← Bytes.little? image.bytes 4 i
  let player ← Bytes.little? image.bytes 2 (i + 4)
  let unknown ← Bytes.little? image.bytes 2 (i + 6)
  return { header, player, unknown }

/-- The entry at an offset, if it points to a header inside the image. -/
def validEntryAt? (image : Image) (i : Nat) : Option SongEntry :=
  (image.songEntryAt? i).filter fun e => (image.offset? e.header).isSome

/-- The valid entries that follow one another from `i` on, at most `limit` of them. -/
def songEntries (image : Image) : (limit i : Nat) → List SongEntry
  | 0, _ => []
  | limit + 1, i =>
    match image.validEntryAt? i with
    | some e => e :: image.songEntries limit (i + entrySize)
    | none => []

/-- A row of `count` numbers of four bytes. -/
def pointers? (image : Image) : (count i : Nat) → Option (List Nat)
  | 0, _ => some []
  | count + 1, i => do
    let first ← Bytes.little? image.bytes 4 i
    let rest ← image.pointers? count (i + 4)
    return first :: rest

/-- The song header at an offset: the number of tracks, three bytes for the driver alone, the voice
group, and the tracks. -/
def songHeader? (image : Image) (i : Nat) : Option SongHeader := do
  let count ← image.bytes[i]?
  let voiceGroup ← Bytes.little? image.bytes 4 (i + 4)
  let tracks ← image.pointers? count.toNat (i + 8)
  return { voiceGroup, tracks }

end Image
end Chiptune
