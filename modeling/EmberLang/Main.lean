import EmberLang.CommandLine

/-!
# The program

Carries out a call: reads the one file it needs and what is typed, and
prints and writes what the report says.
-/

namespace EmberLang

/-- What a path leads to on the disk. What cannot be read counts as
missing. -/
def readEntry (path : Path) : IO Entry := do
  try
    return .file (← IO.FS.readFile path.text)
  catch _ => return .missing

/-- All lines of a stream. -/
partial def readLines (stream : IO.FS.Stream) (done : String) : IO String := do
  let line ← stream.getLine
  if line.isEmpty then return done else readLines stream (done ++ line)

/-- What is typed; nothing is waited for at a terminal. -/
def readTyped : IO String := do
  let stdin ← IO.getStdin
  if ← stdin.isTty then return "" else readLines stdin ""

/-- **Carries out a call** and gives its exit status. -/
def carryOutCall (args : List String) : IO UInt32 := do
  let found ← (CommandLine.needed? args).mapM fun path => do return (path, ← readEntry path)
  let look (path : Path) : Entry :=
    match found with
    | some (known, entry) => if path = known then entry else .missing
    | none => .missing
  let report := CommandLine.run args look (← readTyped)
  IO.print report.stdout
  IO.eprint report.stderr
  for (path, text) in report.writes do
    IO.FS.writeFile path.text text
  match report.ending with
  | .ok status => return status.toUInt32
  | .error f => throw (IO.userError (f.message?.getD "the call failed"))

end EmberLang

/-- The program. -/
def main (args : List String) : IO UInt32 := EmberLang.carryOutCall args
