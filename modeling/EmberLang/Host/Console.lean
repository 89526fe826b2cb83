import EmberLang.Host

/-!
# The console

The functions by which a program talks to a console: three that write a
line and one that reads an integer. What a person types is read
leniently, with blanks around it, either sign, digits of any script and
underscores between digits. At the end of the input there is nothing to
read, and asking for a line is an error.
-/

namespace EmberLang

/-- **A console**: what is still to be read, and what has been
written. -/
structure Console where
  /-- The rest of the input. -/
  input : List Char
  /-- The output so far. -/
  output : String := ""

namespace Console

/-- Writes a line. -/
def writeLine (c : Console) (line : String) : Console :=
  { c with output := c.output ++ line ++ "\n" }

/-- **Reads a line**, without its end; `none` if there is no input
left. -/
def readLine (c : Console) : Option (List Char × Console) :=
  if c.input.isEmpty then none
  else
    let line := c.input.takeWhile (· ≠ '\n')
    some (line, { c with input := c.input.drop (line.length + 1) })

/-- Ends with a mismatch. -/
def mismatch (c : Console) (m : Mismatch) : Action Console := .fail c (.of (.typeMismatch m))

/-- Writes an integer. -/
def printInt (c : Console) : List Value → Action Console
  | .int n :: _ =>
    match intText n with
    | .ok text => .done (c.writeLine text) (.value .unit)
    | .error f => .fail c f
  | v :: _ => c.mismatch (.argument "print_int" "Int" v.typeName.text)
  | [] => .fail c (.host .noArgument)

/-- Writes any value. -/
def print (c : Console) : List Value → Action Console
  | v :: _ =>
    match v.text with
    | .ok text => .done (c.writeLine text) (.value .unit)
    | .error f => .fail c f
  | [] => .fail c (.host .noArgument)

/-- Writes the unit value. -/
def printUnit (c : Console) : List Value → Action Console
  | .unit :: _ => .done (c.writeLine "()") (.value .unit)
  | v :: _ => c.mismatch (.argument "print_unit" "()" v.typeName.text)
  | [] => .fail c (.host .noArgument)

/-- Reads an integer. -/
def readInt (c : Console) (_ : List Value) : Action Console :=
  match c.readLine with
  | none => .fail c (.of .closedInput)
  | some (line, c) =>
    let typed := Text.trimBlanks line
    match Decimal.readTyped typed with
    | some n => .done c (.value (.int n))
    | none => c.mismatch (.numeral "read_int" (Text.quoted (String.ofList typed)))

/-- **The functions of the console.** -/
def natives : List (Native Console) :=
  [⟨"print_int", some 1, printInt⟩, ⟨"print", some 1, print⟩,
    ⟨"print_unit", some 1, printUnit⟩, ⟨"read_int", some 0, readInt⟩]

end Console

end EmberLang
