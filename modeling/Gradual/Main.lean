import Gradual.Command.Run

/-!
# The program

Runs a command line with the files of the system.
-/

namespace Gradual

/-- A text as it is printed: a surrogate that stands alone is replaced. -/
def Text.shown (t : Text) : String :=
  t.toStringWith fun _ => String.singleton (Char.ofNat Text.Utf8.replacement)

/-- The files of the system. -/
def systemFiles : FileAccess IO where
  workingPlace := return Path.enter [] (Text.ofString (toString (← IO.currentDir)))
  isPresent path := do
    if path.isEmpty then return false
    ((← IO.currentDir) / path.shown).pathExists
  read path := do
    try
      let bytes ← IO.FS.readBinFile path.shown
      return .ok bytes.toList
    catch e => return .error (Text.ofString (toString e))
  milliseconds := IO.monoMsNow

end Gradual

open Gradual in
/-- Runs a command line, prints what it leads to, and gives the exit code. -/
def main (args : List String) : IO UInt32 := do
  let outcome ← run systemFiles (args.map Text.ofString)
  for p in outcome.printed do
    IO.println p.format.shown
  for line in outcome.failure.toList.flatMap Failure.lines do
    IO.eprintln line.shown
  return outcome.exitCode.toUInt32
