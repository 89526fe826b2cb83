import EmberLang.CommandLine.Arguments
import EmberLang.CommandLine.Workspace
import EmberLang.Host.Console
import EmberLang.Interpreter
import EmberLang.Json.Parser
import EmberLang.Json.Printer
import EmberLang.Text.Newline
import EmberLang.Tree.Printer
import EmberLang.Tree.Resolve
import EmberLang.Tree.Saved

/-!
# The command line

The program as it is called from a shell: it runs a program, prints it
in its normal layout, saves it as a tree, or runs a saved tree. What a
call reads is a command line, the files that paths lead to, and the text
that is typed; what it does is a `Report` of what it prints and writes
and how it ends. A fault of the program is reported in a line and ends
the call with status one, and a command line at fault ends it with
status two. Any other failure is not caught.
-/

namespace EmberLang

/-- **What a call does.** -/
structure Report where
  /-- What it prints. -/
  stdout : String := ""
  /-- What it prints as a complaint. -/
  stderr : String := ""
  /-- The files it writes. -/
  writes : List (Path × String) := []
  /-- Its exit status, or the failure it ends with. -/
  ending : Except Failure Nat := .ok 0

namespace Report

/-- Writes a file. -/
def write (r : Report) (path : Path) (text : String) : Report :=
  { r with writes := r.writes ++ [(path, text)] }

/-- A complaint, which ends the call with status one. -/
def complain (r : Report) (text : String) : Report :=
  { r with stderr := r.stderr ++ "Error: " ++ text ++ "\n", ending := .ok 1 }

/-- **How a failure ends a call.** Faults of the program and calls nested
too deeply are reported. -/
def fail (r : Report) (maxDepth : Int) : Failure → Report
  | .error e => r.complain e.message
  | .callsTooDeep =>
    r.complain ("evaluation exceeded the maximum call depth of " ++ toString maxDepth)
  | f => { r with ending := .error f }

/-- Prints the value of a run, unless it is unit. -/
def result (r : Report) (maxDepth : Int) : Value → Report
  | .unit => r
  | v =>
    match v.text with
    | .ok text => { r with stdout := r.stdout ++ text ++ "\n" }
    | .error f => r.fail maxDepth f

end Report

namespace CommandLine

/-- How the program is called. -/
def usage : String :=
  "usage: ember [-h] [-v] [--max-depth N]\n" ++
  "             [--emit-ast EMBER_FILE | --ast AST_JSON_FILE | --pretty EMBER_FILE]\n" ++
  "             [program]\n"

/-- What help says. -/
def help : String :=
  usage ++ "\n" ++
  "Ember language interpreter\n\n" ++
  "positional arguments:\n" ++
  "  program               Ember program file (.ember) to execute\n\n" ++
  "options:\n" ++
  "  -h, --help            show this help message and exit\n" ++
  "  -v                    increase debug verbosity (can be repeated)\n" ++
  "  --max-depth N         maximum depth of nested Ember calls (default 50000)\n" ++
  "  --emit-ast EMBER_FILE\n" ++
  "                        emit AST JSON for the given .ember file\n" ++
  "  --ast AST_JSON_FILE   execute AST from a JSON file\n" ++
  "  --pretty EMBER_FILE   print the given .ember file formatted\n"

/-- The file that the trace goes to. -/
def traceFile : Path := ⟨"", ["debug.txt"]⟩

/-- What a call is to do. -/
inductive Task where
  /-- Save a program as a tree. -/
  | emitTree (path : Path)
  /-- Print a program. -/
  | pretty (path : Path)
  /-- Run a saved tree. -/
  | runTree (path : Path)
  /-- Run a program. -/
  | runSource (path : Path)
  deriving DecidableEq, Repr

/-- **The task of a command line.** An empty path counts as none. -/
def task? (a : Arguments) : Option Task :=
  let given (path? : Option String) := (path?.filter (· ≠ "")).map Path.ofText
  match given a.emitTree?, given a.pretty?, given a.runTree?, given a.program? with
  | some path, _, _, _ => some (.emitTree path)
  | none, some path, _, _ => some (.pretty path)
  | none, none, some path, _ => some (.runTree path)
  | none, none, none, some path => some (.runSource path)
  | none, none, none, none => none

/-- The file that a task is about. -/
def Task.path : Task → Path
  | emitTree path => path
  | pretty path => path
  | runTree path => path
  | runSource path => path

/-- A command line at fault. -/
def refusal (text : String) : Report :=
  { stderr := usage ++ "ember: error: " ++ text ++ "\n", ending := .ok 2 }

/-- The lines of a trace. -/
def traceText (trace : Array TraceLine) : String :=
  String.join (trace.toList.map fun line => line.text ++ "\n")

/-- **Runs a program** with the functions of the console. -/
def execute (a : Arguments) (look : Path → Entry) (typed : String) (root : Node) : Report :=
  let I : Interpreter Console :=
    { natives := Console.natives
      detail := a.verbosity
      maxDepth := a.maxDepth
      journal := { host := { input := typed.toList } } }
  if a.verbosity ≠ 0 && look traceFile = .directory then { ending := .error .isDirectory }
  else
    let (outcome, I) := I.perform (Session.run root)
    let r : Report := { stdout := I.journal.host.output }
    let r := if a.verbosity = 0 then r else r.write traceFile (traceText I.journal.trace)
    match outcome with
    | .ok v => r.result a.maxDepth v
    | .error f => r.fail a.maxDepth f

/-- The text of the file at a path, with its line ends unified. -/
def readText (look : Path → Entry) (path : Path) : Except Report String :=
  match look path with
  | .file text => .ok (Text.unifyNewlines text)
  | .directory => .error { ending := .error .isDirectory }
  | .missing => .error (Report.complain {} ("file " ++ path.text ++ " not found"))

/-- Carries out a task on the text of its file. -/
def carryOut (a : Arguments) (look : Path → Entry) (typed : String) (task : Task)
    (text : String) : Except Failure Report := do
  match task with
  | .emitTree path =>
    let tree ← Node.ofSource text
    let out := path.withSuffix ".ast.json"
    let r : Report := { stdout := out.text ++ "\n" }
    match look out with
    | .directory => .error .isDirectory
    | _ => return r.write out (tree.toJson.render (.indented 2))
  | .pretty _ => return { stdout := ← (← Node.ofSource text).programText }
  | .runTree _ => return execute a look typed (← Node.ofJson (← Json.parse text))
  | .runSource _ => return execute a look typed (← Node.ofSource text)

/-- **What a call does**: `args` is its command line, `look` the files,
and `typed` what is typed. -/
def run (args : List String) (look : Path → Entry) (typed : String) : Report :=
  match Arguments.ofTexts args with
  | .error .help => { stdout := help }
  | .error (.refused text) => refusal text
  | .ok a =>
    match task? a with
    | none => refusal "missing program file; or use --emit-ast/--ast/--pretty"
    | some task =>
      match readText look task.path with
      | .error report => report
      | .ok text =>
        match carryOut a look typed task text with
        | .ok report => report
        | .error f => Report.fail {} a.maxDepth f

/-- The path of the file that a call needs. -/
def needed? (args : List String) : Option Path :=
  match Arguments.ofTexts args with
  | .ok a => (task? a).map Task.path
  | .error _ => none

end CommandLine

end EmberLang
