import Chiptune.Bank
import Chiptune.EventStream.Basic
import Chiptune.SoundDriver

/-!
# Songs

A song is a set of event streams for one driver, with the bank that they play. Streams may share
one byte string, such as a whole cartridge image, and start at different places in it.
-/

namespace Chiptune

/-- An event stream and the offset of its first command. -/
structure TrackSource where
  stream : EventStream
  start : Nat := 0
  deriving Inhabited

/-- A stream of its own, starting at its first byte. -/
def TrackSource.ofBytes (bytes : ByteArray) : TrackSource := { stream := { bytes } }

structure Song where
  /-- The song's place in the collection that it came from. -/
  index : Nat := 0
  driver : SoundDriver
  /-- Quarter notes in a minute. -/
  initialTempo : Nat := driver.profile.defaultTempo
  sources : List TrackSource := []
  bank : Bank := {}
  deriving Inhabited

end Chiptune
