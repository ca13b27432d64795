import Chiptune.CommandLine.Player

/-!
# The program

The player with the files and streams of the operating system.
-/

namespace Chiptune.CommandLine

/-- How the operating system words a failure. -/
def failureText : IO.Error → String
  | .noFileOrDirectory _ code details => s!"{details} (os error {code})"
  | .permissionDenied _ code details => s!"{details} (os error {code})"
  | .invalidArgument _ code details => s!"{details} (os error {code})"
  | .resourceExhausted _ code details => s!"{details} (os error {code})"
  | .inappropriateType _ code details => s!"{details} (os error {code})"
  | e => toString e

/-- The world of the operating system. -/
def systemConsole : Console IO where
  read path := do
    try
      return .ok (← IO.FS.readBinFile path)
    catch e => return .error (failureText e)
  write path bytes := do
    try
      IO.FS.writeBinFile path bytes
      return .ok ()
    catch e => return .error (failureText e)
  print := IO.println
  report := IO.eprintln

end Chiptune.CommandLine

def main (arguments : List String) : IO UInt32 := do
  let code ← Chiptune.CommandLine.run Chiptune.CommandLine.systemConsole arguments
  return UInt32.ofNat code
