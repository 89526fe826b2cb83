import EmberLang.Decimal.Real
import EmberLang.Text.Quoted

/-!
# Literals

The four kinds of constants that a program can write down. A literal
knows its kind by its constructor, so that a kind and a value never
disagree. A character literal written in a program has one character; in
a tree from elsewhere it can be any text.
-/

namespace EmberLang

/-- The kinds of literals. -/
inductive LiteralKind where
  | int | real | bool | char
  deriving DecidableEq, Repr

/-- **A constant of a program.** -/
inductive Literal where
  /-- An integer. -/
  | int (n : Int)
  /-- A real number. -/
  | real (x : Float)
  /-- A truth value. -/
  | bool (b : Bool)
  /-- A character. -/
  | char (s : String)
  deriving DecidableEq

namespace LiteralKind

/-- The name of a kind. -/
def name : LiteralKind → String
  | int => "Int"
  | real => "Real"
  | bool => "Bool"
  | char => "Char"

/-- The kind with the given name. -/
def ofName? : String → Option LiteralKind
  | "Int" => some int
  | "Real" => some real
  | "Bool" => some bool
  | "Char" => some char
  | _ => none

@[simp]
theorem ofName?_name (k : LiteralKind) : ofName? k.name = some k := by cases k <;> rfl

end LiteralKind

namespace Literal

/-- The kind of a literal. -/
def kind : Literal → LiteralKind
  | int _ => .int
  | real _ => .real
  | bool _ => .bool
  | char _ => .char

/-- The escape that a character literal is written with, for the six
texts that have one. -/
def escapeOf? (s : String) : Option Char :=
  if s = "\n" then some 'n'
  else if s = "\r" then some 'r'
  else if s = "\t" then some 't'
  else if s = "\x00" then some '0'
  else if s = "\\" then some '\\'
  else if s = "'" then some '\''
  else none

/-- The text that a backslash and a character stand for between
quotes. -/
def ofEscape? : Char → Option String
  | 'n' => some "\n"
  | 'r' => some "\r"
  | 't' => some "\t"
  | '0' => some "\x00"
  | '\\' => some "\\"
  | '\'' => some "'"
  | _ => none

/-- A character literal between its quotes. -/
def charText (s : String) : String :=
  match escapeOf? s with
  | some e => String.ofList ['\'', '\\', e, '\'']
  | none => "'" ++ s ++ "'"

/-- **A literal as a program writes it**, `none` for an integer that is
too long. -/
def text? : Literal → Option String
  | int n => Decimal.intText? n
  | real x => some (Decimal.realText x)
  | bool b => some (if b then "true" else "false")
  | char s => some (charText s)

/-- The text a character literal stands for, from what stands between
its quotes. -/
def ofCharInner (inner : String) : Literal :=
  match inner.toList with
  | ['\\', e] => .char ((ofEscape? e).getD inner)
  | _ => .char inner

end Literal

end EmberLang
