import Chiptune.EventStream.M4a
import Chiptune.EventStream.Mlss
import Chiptune.EventStream.Dse
import Chiptune.EventStream.Sdat
import Chiptune.SoundDriver

/-!
# Decoding by driver

`EventStream.decode` decodes the command at a cursor by the opcode table of a driver. Numbers are as
large as they need to be, also the last pause, for which a driver has four bytes.
-/

namespace Chiptune

/-- The opcode table of a driver. -/
def SoundDriver.decoder : SoundDriver → Decoder
  | m4a => EventStream.M4a.decoder
  | mlss => EventStream.Mlss.decoder
  | dse => EventStream.Dse.decoder
  | sdat => EventStream.Sdat.decoder

namespace EventStream

/-- Decode the command at `cursor`. The status afterwards is that of a driver which went as far as
it could, also where the command is defective. -/
def decode (driver : SoundDriver) (s : EventStream) (cursor : Nat) (status : Status) :
    Status × Except DecodeError Decoded :=
  s.decodeWith driver.decoder cursor status

end EventStream
end Chiptune
