import Chiptune.CommandLine.Disk
import Chiptune.CommandLine.Player
import Chiptune.Text

/-!
# The player in a sandbox

The player needs no operating system: here its world is a disk in memory and a screen that keeps
what it shows. A run is then a plain function from a disk and arguments to an exit code and the
world that is left.
-/

namespace Chiptune.CommandLine

structure Sandbox where
  disk : Disk
  lines : Array String := #[]
  /-- The first line of each report. -/
  failures : Array String := #[]
  deriving Inhabited

namespace Sandbox

/-- Show a text that may be of several lines. -/
def display (s : Sandbox) (text : String) : Sandbox :=
  { s with lines := s.lines ++ (Text.lines (text.push '\n')).toArray }

/-- Show a report. Its first line is marked as a failure; further ones are lines like any other. -/
def reportFailure (s : Sandbox) (reason : String) : Sandbox :=
  match Text.lines (reason.push '\n') with
  | [] => s
  | first :: rest => { s with failures := s.failures.push first, lines := s.lines ++ rest.toArray }

/-- The sandbox as the world of the player. -/
def console : Console (StateM Sandbox) where
  read path := do return ((← get).disk.read path).mapError DiskError.message
  write path content := do
    let s ← get
    match s.disk.write path content with
    | .error e => return .error e.message
    | .ok disk =>
      set { s with disk }
      return .ok ()
  print text := modify (display · text)
  report reason := modify (reportFailure · reason)

/-- Run the player: its exit code and the world it leaves. -/
def run (disk : Disk) (arguments : List String) : Nat × Sandbox :=
  (CommandLine.run console arguments).run { disk }

end Sandbox
end Chiptune.CommandLine
