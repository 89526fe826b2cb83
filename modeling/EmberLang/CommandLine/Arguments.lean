import EmberLang.Decimal.Numeral
import EmberLang.Text.Quoted

/-!
# Arguments

How the words of a command line are understood. A word that begins with
a dash is a switch, if it is one of the seven names, the beginning of
exactly one long name, or a row of letters behind one dash. The value of
a setting is the next word, or stands behind an equals sign. Any other
word is the program, and there is at most one. A word of two dashes ends
the switches; negative numbers, and words with blanks that name no
switch, are no switches either.

All words are looked at before any is acted upon. Then the first word at
fault decides, except that words nobody asked for are only reported at
the end.
-/

namespace EmberLang

/-- A switch without a value. -/
inductive Flag where
  /-- Asks for help. -/
  | help
  /-- Asks for more detail in the trace. -/
  | verbose
  deriving DecidableEq, Repr

/-- A switch with a value. -/
inductive Setting where
  /-- How many calls may be nested. -/
  | maxDepth
  /-- A program to be saved as a tree. -/
  | emitTree
  /-- A saved tree to be run. -/
  | runTree
  /-- A program to be printed. -/
  | pretty
  deriving DecidableEq, Repr

/-- **A switch.** -/
inductive Switch where
  | flag (f : Flag)
  | setting (s : Setting)
  deriving DecidableEq, Repr

/-- A text attached to a switch, behind an equals sign or directly. -/
structure Attached where
  /-- Whether there is an equals sign. -/
  marked : Bool
  /-- The text. -/
  text : String
  deriving DecidableEq, Repr

/-- **A word of a command line.** -/
inductive Word where
  /-- A word that is no switch. -/
  | plain (text : String)
  /-- The end of the switches. -/
  | separator
  /-- A switch by its full name, with what is attached to it. -/
  | switch (name : String) (s : Switch) (attached? : Option Attached)
  /-- A word that looks like a switch and is none. -/
  | unknown (text : String)
  deriving DecidableEq, Repr

/-- Why a command line is not carried out. -/
inductive Stop where
  /-- Help was asked for. -/
  | help
  /-- It is at fault, in these words. -/
  | refused (text : String)
  deriving DecidableEq, Repr

/-- **What a command line asks for.** -/
structure Arguments where
  /-- How detailed the trace is. -/
  verbosity : Nat := 0
  /-- How many calls may be nested. -/
  maxDepth : Int := 50000
  /-- The program to be saved as a tree. -/
  emitTree? : Option String := none
  /-- The saved tree to be run. -/
  runTree? : Option String := none
  /-- The program to be printed. -/
  pretty? : Option String := none
  /-- The program to be run. -/
  program? : Option String := none
  /-- Words that nobody asked for. -/
  extras : List String := []
  deriving DecidableEq, Repr

namespace Flag

/-- How a flag is named in a complaint. -/
def title : Flag → String
  | help => "-h/--help"
  | verbose => "-v"

/-- The flag of a letter. -/
def ofLetter? : Char → Option Flag
  | 'h' => some help
  | 'v' => some verbose
  | _ => none

end Flag

namespace Setting

/-- How a setting is named. -/
def title : Setting → String
  | maxDepth => "--max-depth"
  | emitTree => "--emit-ast"
  | runTree => "--ast"
  | pretty => "--pretty"

end Setting

namespace Switch

/-- The names of the switches. -/
def names : List (String × Switch) :=
  [("-h", .flag .help), ("--help", .flag .help), ("-v", .flag .verbose),
    ("--max-depth", .setting .maxDepth), ("--emit-ast", .setting .emitTree),
    ("--ast", .setting .runTree), ("--pretty", .setting .pretty)]

/-- The switch with the given name. -/
def ofName? (name : String) : Option Switch := (names.find? (·.1 == name)).map (·.2)

end Switch

namespace Stop

/-- A complaint about a switch. -/
def about (title text : String) : Stop := .refused ("argument " ++ title ++ ": " ++ text)

/-- A flag was given a value. -/
def ignored (f : Flag) (text : String) : Stop :=
  about f.title ("ignored explicit argument " ++ Text.quoted text)

end Stop

namespace Word

/-- Parts of a word at its first equals sign. -/
def splitMark (cs : List Char) : String × Option Attached :=
  let name := cs.takeWhile (· ≠ '=')
  match cs.dropWhile (· ≠ '=') with
  | [] => (String.ofList name, none)
  | _ :: value => (String.ofList name, some ⟨true, String.ofList value⟩)

/-- Whether characters are digits, and at least one. -/
def isDigits (cs : List Char) : Bool :=
  !cs.isEmpty && cs.all fun c => (Text.digitValue? c).isSome

/-- Whether a word is a negative number. -/
def isNegativeNumber : List Char → Bool
  | '-' :: cs =>
    isDigits cs ||
      match cs.dropWhile fun c => (Text.digitValue? c).isSome with
      | '.' :: fraction => isDigits fraction
      | _ => false
  | _ => false

/-- A word with a dash that names no switch. -/
def nameless (text : String) : Word :=
  if isNegativeNumber text.toList || text.toList.contains ' ' then .plain text else .unknown text

/-- A word with two dashes, by the beginning of a long name. -/
def ofLong (text : String) : Except Stop Word :=
  let (start, attached?) := splitMark text.toList
  match Switch.names.filter fun n => start.toList.isPrefixOf n.1.toList with
  | [] => .ok (nameless text)
  | [(name, s)] => .ok (.switch name s attached?)
  | found =>
    let names := ", ".intercalate (found.map (·.1))
    .error (.refused ("ambiguous option: " ++ text ++ " could match " ++ names))

/-- A word with one dash, by its first letter. -/
def ofShort (text : String) (letter : Char) (rest : List Char) : Word :=
  match Flag.ofLetter? letter with
  | some f =>
    .switch (String.ofList ['-', letter]) (.flag f) (some ⟨false, String.ofList rest⟩)
  | none => nameless text

/-- **Reads a word.** -/
def ofText (text : String) : Except Stop Word :=
  match text.toList with
  | '-' :: second :: rest =>
    match Switch.ofName? text with
    | some s => .ok (.switch text s none)
    | none =>
      let (name, attached?) := splitMark text.toList
      match Switch.ofName? name with
      | some s => .ok (.switch name s attached?)
      | none => if second = '-' then ofLong text else .ok (ofShort text second rest)
  | _ => .ok (.plain text)

/-- **Reads the words of a command line.** -/
def ofTexts : List String → Except Stop (List Word)
  | [] => .ok []
  | "--" :: rest => .ok (.separator :: rest.map .plain)
  | text :: rest => do
    let word ← ofText text
    return word :: (← ofTexts rest)

end Word

namespace Arguments

/-- The values of the settings that exclude each other. -/
def modes (a : Arguments) : List (Setting × Option String) :=
  [(.emitTree, a.emitTree?), (.runTree, a.runTree?), (.pretty, a.pretty?)]

/-- Whether another setting was given that excludes this one. -/
def rival? (a : Arguments) (s : Setting) : Option Setting :=
  (a.modes.find? fun (mode, value) => mode ≠ s && value.isSome).map (·.1)

/-- Puts a value in the place of a setting. -/
def put (a : Arguments) (s : Setting) (value : String) : Except Stop Arguments :=
  match s with
  | .maxDepth =>
    match Decimal.readTyped value.toList with
    | some n => .ok { a with maxDepth := n }
    | none => .error (.about s.title ("invalid int value: " ++ Text.quoted value))
  | .emitTree => .ok { a with emitTree? := some value }
  | .runTree => .ok { a with runTree? := some value }
  | .pretty => .ok { a with pretty? := some value }

/-- **Sets a setting**, unless another one excludes it. -/
def set (a : Arguments) (s : Setting) (value : String) : Except Stop Arguments := do
  let a' ← a.put s value
  match s, a.rival? s with
  | .maxDepth, _ => return a'
  | _, none => return a'
  | _, some rival => .error (.about s.title ("not allowed with argument " ++ rival.title))

/-- Acts upon a flag. -/
def raise (a : Arguments) : Flag → Except Stop Arguments
  | .help => .error .help
  | .verbose => .ok { a with verbosity := a.verbosity + 1 }

/-- The flags in a row of letters that starts with `f`, and what is left
when a letter is no flag. -/
def flagRow (f : Flag) (marked : Bool) : List Char → Except Stop (List Flag × List String)
  | [] => .error (.ignored f "")
  | c :: cs =>
    if marked || c = '-' then .error (.ignored f (String.ofList (c :: cs)))
    else
      match Flag.ofLetter? c, cs with
      | none, _ => .ok ([f], [String.ofList ('-' :: c :: cs)])
      | some g, [] => .ok ([f, g], [])
      | some g, '=' :: value =>
        -- a value is never taken, and an empty one no more than others
        .error (.ignored g (String.ofList value))
      | some g, cs => do
        let (flags, extras) ← flagRow g false cs
        return (f :: flags, extras)

/-- Acts upon a flag with what is attached to its name. -/
def raiseAll (a : Arguments) (name : String) (f : Flag) (attached? : Option Attached) :
    Except Stop Arguments :=
  match attached? with
  | none => a.raise f
  | some attached =>
    if name.toList.take 2 = ['-', '-'] then .error (.ignored f attached.text)
    else do
      let (flags, extras) ← flagRow f attached.marked attached.text.toList
      flags.foldlM raise { a with extras := a.extras ++ extras }

/-- Takes a word as the program, unless there is one. -/
def place (a : Arguments) (text : String) : Arguments :=
  match a.program? with
  | none => { a with program? := some text }
  | some _ => { a with extras := a.extras ++ [text] }

/-- Acts upon words, one after the other. A separator belongs to the
program beside it, and is a word nobody asked for if that was there
before. -/
def consume (a : Arguments) : List Word → Except Stop Arguments
  | [] => .ok a
  | .unknown text :: rest => consume { a with extras := a.extras ++ [text] } rest
  | .switch name (.flag f) attached? :: rest => do
    consume (← a.raiseAll name f attached?) rest
  | .switch _ (.setting s) (some attached) :: rest => do
    consume (← a.set s attached.text) rest
  | .switch _ (.setting s) none :: .plain value :: rest => do
    consume (← a.set s value) rest
  | .switch _ (.setting s) none :: _ => .error (.about s.title "expected one argument")
  | .plain text :: .separator :: rest =>
    match a.program? with
    | none => consume { a with program? := some text } rest
    | some _ => consume { a with extras := a.extras ++ [text, "--"] } rest
  | .plain text :: rest => consume (a.place text) rest
  | .separator :: rest =>
    match a.program? with
    | none => consume a rest
    | some _ => consume { a with extras := a.extras ++ ["--"] } rest

/-- **Reads a command line.** -/
def ofTexts (texts : List String) : Except Stop Arguments := do
  let a ← consume {} (← Word.ofTexts texts)
  if a.extras.isEmpty then return a
  else .error (.refused ("unrecognized arguments: " ++ " ".intercalate a.extras))

end Arguments

end EmberLang
