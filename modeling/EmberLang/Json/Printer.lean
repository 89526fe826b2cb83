import EmberLang.Decimal.Real
import EmberLang.Json
import EmberLang.Text.Quoted

/-!
# JSON text

A value is written in one of two layouts: on one line, or with every
item and member on a line of its own. Characters are written as
themselves except the quote, the backslash and the control characters;
reals that are no numbers of JSON get the names `NaN`, `Infinity` and
`-Infinity`.

The text is built by appending to what has been written so far.
-/

namespace EmberLang.Json

/-- **How JSON text is laid out.** -/
inductive Layout where
  /-- Everything on one line, a blank after each comma and colon. -/
  | line
  /-- Items and members on lines of their own, indented by the given
  number of blanks for each level. -/
  | indented (step : Nat)

/-- How a character stands in a string. -/
def escape (c : Char) : List Char :=
  if c = '"' then ['\\', '"']
  else if c = '\\' then ['\\', '\\']
  else if c = '\n' then ['\\', 'n']
  else if c = '\r' then ['\\', 'r']
  else if c = '\t' then ['\\', 't']
  else if c = '\x08' then ['\\', 'b']
  else if c = '\x0c' then ['\\', 'f']
  else if c.toNat < 0x20 then '\\' :: 'u' :: Text.hexPadded 4 c.toNat
  else [c]

/-- A string between its quotes. -/
def stringText (s : String) : String :=
  String.ofList ('"' :: s.toList.flatMap escape ++ ['"'])

/-- The text of a real number. -/
def realText (x : Float) : String :=
  match Decimal.magnitude x with
  | .nan => "NaN"
  | .infinite => if Decimal.isNegative x then "-Infinity" else "Infinity"
  | .finite _ _ => Decimal.realText x

namespace Layout

/-- What stands before an item at the given level. -/
def lead (l : Layout) (level : Nat) : String :=
  match l with
  | line => ""
  | indented step => String.ofList ('\n' :: List.replicate (step * level) ' ')

/-- What stands after an item that is followed by another. -/
def comma : Layout → String
  | line => ", "
  | indented _ => ","

end Layout

mutual

/-- Appends the text of a value at the given level. -/
def write (l : Layout) (level : Nat) : Json → String → String
  | null, out => out ++ "null"
  | bool b, out => out ++ if b then "true" else "false"
  | int n, out => out ++ toString n
  | real x, out => out ++ realText x
  | str s, out => out ++ stringText s
  | arr [], out => out ++ "[]"
  | arr (item :: rest), out =>
    writeItems l (level + 1) rest (write l (level + 1) item (out ++ "[" ++ l.lead (level + 1)))
      ++ l.lead level ++ "]"
  | obj [], out => out ++ "\x7b\x7d"
  | obj ((key, value) :: rest), out =>
    writeMembers l (level + 1) rest
        (write l (level + 1) value (out ++ "\x7b" ++ l.lead (level + 1) ++ stringText key ++ ": "))
      ++ l.lead level ++ "\x7d"

/-- Appends the items of an array after the first. -/
def writeItems (l : Layout) (level : Nat) : List Json → String → String
  | [], out => out
  | item :: rest, out =>
    writeItems l level rest (write l level item (out ++ l.comma ++ l.lead level))

/-- Appends the members of an object after the first. -/
def writeMembers (l : Layout) (level : Nat) : List (String × Json) → String → String
  | [], out => out
  | (key, value) :: rest, out =>
    writeMembers l level rest
      (write l level value (out ++ l.comma ++ l.lead level ++ stringText key ++ ": "))

end

/-- **The text of a JSON value.** -/
def render (l : Layout) (j : Json) : String := write l 0 j ""

end EmberLang.Json
