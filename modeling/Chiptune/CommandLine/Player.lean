import Chiptune.CommandLine.Options
import Chiptune.Decimal.Fixed
import Chiptune.Offline
import Chiptune.Text

/-!
# The player

The player lists the songs of a cartridge or renders one of them to a WAV file. It reaches the
world through a `Console` alone, so it runs in any monad that has one.
-/

namespace Chiptune.CommandLine

/-- What the player needs of the world. A failure is told in the words of the world. -/
structure Console (m : Type → Type) where
  read : (path : String) → m (Except String ByteArray)
  write : (path : String) → ByteArray → m (Except String Unit)
  /-- Show a line, or more than one if there are line ends in it. -/
  print : (line : String) → m Unit
  /-- Report why the player failed. -/
  report : (reason : String) → m Unit

def listLine (c : Cartridge) (index : Nat) : String :=
  let number := Text.rightAligned 4 index
  match c.trackCount index with
  | .ok count =>
    let tracks := Text.rightAligned 2 count
    s!"{number}  {tracks} tracks"
  | .error e => number ++ "  unreadable (" ++ e.message ++ ")"

def headLines (c : Cartridge) : List String := [
  "Title:  " ++ c.image.title?.getD "?",
  "Code:   " ++ c.image.gameCode?.getD "?",
  "Table:  " ++ Text.hex c.tableOffset,
  s!"Songs:  {c.songCount}"]

/-- How many seconds a file of `size` bytes lasts, with one place. -/
def lengthText (size rate : Nat) : String :=
  Decimal.fixed 1 (Float.ofNat (size - Wav.headerSize) / (Float.ofNat rate * 4))

section Player

variable {m : Type → Type} [Monad m]

/-- Show some lines. -/
def printAll (console : Console m) : List String → m Unit
  | [] => pure ()
  | line :: rest => do
    console.print line
    printAll console rest

/-- Render a song to a file. -/
def renderTo (console : Console m) (c : Cartridge) (o : Options) (path : String) :
    m (Except String Unit) := do
  console.print s!"Rendering song {o.song} to {path} at {o.rate} Hz..."
  match Offline.renderWav? (.ofCartridge c) o.song o.rate (some o.loops) o.seconds with
  | .error e => return .error ("render failed: " ++ e.message)
  | .ok none => return .error "render failed: the song does not fit a WAV file"
  | .ok (some file) =>
    match ← console.write path file with
    | .error reason => return .error s!"failed to write {path}: {reason}"
    | .ok () =>
      let length := lengthText file.size o.rate
      console.print s!"Wrote {file.size} bytes ({length}s)"
      return .ok ()

/-- Do what was asked for. -/
def play (console : Console m) (o : Options) : m (Except String Unit) := do
  match ← console.read o.image with
  | .error reason =>
    let path := o.image
    return .error s!"failed to read {path}: {reason}"
  | .ok bytes =>
    match Cartridge.insert ⟨bytes⟩ o.table with
    | .error e => return .error ("no song table: " ++ e.message)
    | .ok c =>
      printAll console (headLines c)
      if o.list then
        printAll console ("" :: (List.range c.songCount).map (listLine c))
        return .ok ()
      else
        match o.wav with
        | some path => renderTo console c o path
        | none => return .error "nothing to do: pass --list or --wav <file>"

/-- Run the player. The result is its exit code: 0, or 1 after a failure, or 2 if the arguments
make no sense. -/
def run (console : Console m) (arguments : List String) : m Nat := do
  match parse arguments with
  | .error .usage => return 2
  | .error .help => return 0
  | .error .version => return 0
  | .ok o =>
    match ← play console o with
    | .ok () => return 0
    | .error reason =>
      console.report (Text.visible reason)
      return 1

end Player
end Chiptune.CommandLine
