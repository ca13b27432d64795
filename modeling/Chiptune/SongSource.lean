import Chiptune.Cartridge
import Chiptune.Sequencer.Basic

/-!
# Collections of songs

A session plays songs from a numbered collection: the songs of a cartridge, or a list of songs. A
collection answers every number, if only with an error.
-/

namespace Chiptune

/-- Why a song could not be loaded. -/
inductive LoadError
  | indexOutOfRange (index count : Nat)
  | song (error : SongError)
  | cartridge (error : CartridgeError)
  deriving DecidableEq, Repr, Inhabited

def LoadError.message : LoadError → String
  | indexOutOfRange index count => s!"song {index} out of range ({count} songs)"
  | song error => error.message
  | cartridge error => error.message

structure SongSource where
  count : Nat
  song : Nat → Except LoadError Song

namespace SongSource

/-- The songs of a list, each with its place in the list. -/
def ofArray (songs : Array Song) : SongSource where
  count := songs.size
  song index :=
    match songs[index]? with
    | some song => .ok { song with index }
    | none => .error (.indexOutOfRange index songs.size)

def ofCartridge (c : Cartridge) : SongSource where
  count := c.songCount
  song index := (c.song index).mapError .cartridge

instance : Inhabited SongSource := ⟨ofArray #[]⟩

/-- The song of a number that has to be in range. -/
def find (source : SongSource) (index : Nat) : Except LoadError Song :=
  if index < source.count then source.song index
  else .error (.indexOutOfRange index source.count)

def loadInto (source : SongSource) (index : Nat) (s : Sequencer) : Except LoadError Sequencer := do
  (s.load (← source.find index)).mapError .song

end SongSource
end Chiptune
