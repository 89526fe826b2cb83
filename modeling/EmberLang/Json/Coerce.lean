import EmberLang.Decimal.Real
import EmberLang.Error
import EmberLang.Json
import EmberLang.Text.Quoted

/-!
# JSON values as literals

The literals of a saved tree need not be saved as values of their own
kind. An integer may be given as any number, as a truth value or as a
numeral; a real likewise; anything counts as true or false; anything has
a text. These are the conversions, and the ways in which they fail.
-/

namespace EmberLang.Json

/-- **A value as an integer**: a real loses its fraction, a string is
read as a numeral. -/
def toInt : Json → Except Failure Int
  | bool b => .ok (if b then 1 else 0)
  | int n => .ok n
  | real x =>
    match Decimal.truncate x with
    | .int n => .ok n
    | .infinite => .error (.decode .outOfRange)
    | .nan => .error (.decode .badNumeral)
  | str s =>
    match Decimal.readTyped s.toList with
    | some n => .ok n
    | none => .error (.decode .badNumeral)
  | _ => .error (.decode .wrongType)

/-- **A value as a real.** -/
def toReal : Json → Except Failure Float
  | bool b => .ok (if b then 1 else 0)
  | int n =>
    match Decimal.realOfInt n with
    | some x => .ok x
    | none => .error (.decode .outOfRange)
  | real x => .ok x
  | str s =>
    match Decimal.readReal s.toList with
    | some x => .ok x
    | none => .error (.decode .badNumeral)
  | _ => .error (.decode .wrongType)

/-- **A value as a truth value**: nothing, zeros and what is empty are
false. -/
def toBool : Json → Bool
  | null => false
  | bool b => b
  | int n => n ≠ 0
  | real x => !Decimal.isZero x
  | str s => !s.isEmpty
  | arr items => !items.isEmpty
  | obj members => !members.isEmpty

mutual

/-- A value shown as data, with strings between quotes. -/
def shown : Json → String
  | null => "None"
  | bool b => if b then "True" else "False"
  | int n => toString n
  | real x => Decimal.realText x
  | str s => Text.quoted s
  | arr items => "[" ++ ", ".intercalate (shownItems items) ++ "]"
  | obj members => "\x7b" ++ ", ".intercalate (shownMembers members) ++ "\x7d"

/-- The items of an array shown as data. -/
def shownItems : List Json → List String
  | [] => []
  | j :: js => shown j :: shownItems js

/-- The members of an object shown as data. -/
def shownMembers : List (String × Json) → List String
  | [] => []
  | (key, j) :: rest => (Text.quoted key ++ ": " ++ shown j) :: shownMembers rest

end

/-- **A value as a text**: a string is its own text, and any other value
is shown as data. -/
def toText : Json → String
  | str s => s
  | j => shown j

end EmberLang.Json
