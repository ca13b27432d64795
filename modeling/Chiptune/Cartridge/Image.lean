import Chiptune.Bytes
import Chiptune.Text

/-!
# Cartridge images

A cartridge image is the content of a cartridge's memory. The console maps it at a fixed place on
its bus, and pointers inside the image are bus addresses. `Image.offset?` turns one into an offset,
if it points into the image at all.
-/

namespace Chiptune

/-- Why a song could not be found in an image. -/
inductive CartridgeError
  /-- A pointer leaves the image. -/
  | invalidPointer (pointer : Nat)
  | songIndexOutOfRange (index count : Nat)
  | emptySongTable
  /-- A song header runs past the end of the image. -/
  | truncatedHeader
  deriving DecidableEq, Repr, Inhabited

def CartridgeError.message : CartridgeError → String
  | invalidPointer pointer => "pointer " ++ Text.hexPadded 8 pointer ++ " is outside the image"
  | songIndexOutOfRange index count => s!"song {index} out of range ({count} songs)"
  | emptySongTable => "no songs found in the song table"
  | truncatedHeader => "parse error: failed to fill whole buffer"

/-- The bytes of a cartridge. -/
structure Image where
  bytes : ByteArray
  deriving Inhabited

namespace Image

/-- The bus address of the first byte. -/
def busAddress : Nat := 0x08000000

/-- The most bytes that the bus maps. -/
def busCapacity : Nat := 0x02000000

/-- An offset that the bus maps and that lies inside the image. -/
def Reaches (image : Image) (offset : Nat) : Prop :=
  offset < busCapacity ∧ offset < image.bytes.size

instance (image : Image) (offset : Nat) : Decidable (image.Reaches offset) :=
  inferInstanceAs (Decidable (_ ∧ _))

def offset? (image : Image) (pointer : Nat) : Option Nat :=
  if busAddress ≤ pointer ∧ image.Reaches (pointer - busAddress) then some (pointer - busAddress)
  else none

/-- The offset of a bus address that has to lie inside the image. -/
def offset (image : Image) (pointer : Nat) : Except CartridgeError Nat :=
  match image.offset? pointer with
  | some offset => .ok offset
  | none => .error (.invalidPointer pointer)

/-- The offset of an address that a user gave: an offset as it is, or a bus address. -/
def userOffset (image : Image) (address : Nat) : Except CartridgeError Nat :=
  if image.Reaches address then .ok address else image.offset address

theorem offset?_eq_some_iff {image : Image} {pointer offset : Nat} :
    image.offset? pointer = some offset ↔
      pointer = busAddress + offset ∧ image.Reaches offset := by
  unfold offset?
  generalize busAddress = base
  constructor
  · intro h
    split at h
    · next inside =>
      injection h with h
      exact ⟨by omega, h ▸ inside.2⟩
    · cases h
  · rintro ⟨rfl, reached⟩
    have back : base + offset - base = offset := by omega
    rw [back, if_pos ⟨by omega, reached⟩]

/-! ### The cartridge header -/

/-- The text of some bytes, if it is valid UTF-8. -/
def text? (bytes : ByteArray) : Option String := String.fromUTF8? bytes

/-- The title of the game, which ends at the first zero byte. -/
def title? (image : Image) : Option String := do
  let field ← Bytes.slice? image.bytes 0xA0 12
  text? ⟨field.data.takeWhile (· ≠ 0)⟩

/-- The four letters of the game code. -/
def gameCode? (image : Image) : Option String := do
  text? (← Bytes.slice? image.bytes 0xAC 4)

end Image
end Chiptune
