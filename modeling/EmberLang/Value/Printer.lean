import EmberLang.Value

/-!
# The text of a value

A data value is written as a program would build it, `Cons(1, Nil)`;
a constructor without fields stands alone. A truth value is `true` or
`false`, a character is itself, and a closure shows its name and its
parameters. An integer that is too long to be written has no text, nor
has a constructor or a parameter that is no word, and neither has a value
that contains one.

As with walking a tree there are two definitions. `textOf` follows the
value by recursion. `text` keeps a list of pieces still to be written,
where a piece is a value or a bit of text between values; its need for
room does not grow with the depth of the value, and long lists are deep.
Programs use the second.

Beside its text a value can be shown as data, which tells values of
different kinds apart.
-/

namespace EmberLang.Value

/-- A closure as it is shown: its name and its parameters. -/
def closureText (f : Function) : Except Failure String := do
  return "<closure " ++ f.name.text ++ "(" ++ (← Name.commas f.params) ++ ")>"

/-- The text of a constructor, which must be a word. -/
def constructorText (c : Name) : Except Failure String := do
  c.needWord
  return c.text

/-- The text of a value without fields. -/
def plainText : Value → Except Failure String
  | int n => intText n
  | real x => .ok (Decimal.realText x)
  | bool b => .ok (if b then "true" else "false")
  | char s => .ok s
  | unit => .ok "()"
  | data c _ => constructorText c
  | closure f _ => closureText f

mutual

/-- The text of a value, by recursion on the value. -/
def textOf : Value → Except Failure String
  | data c [] => constructorText c
  | data c (f :: fs) => do
    let c ← constructorText c
    return c ++ "(" ++ ", ".intercalate ((← textOf f) :: (← textsOf fs)) ++ ")"
  | v => v.plainText

/-- The texts of several values. -/
def textsOf : List Value → Except Failure (List String)
  | [] => .ok []
  | v :: vs => do return (← textOf v) :: (← textsOf vs)

end

/-- A piece of a text that is still to be written. -/
inductive Piece where
  /-- A bit of text. -/
  | text (s : String)
  /-- A value. -/
  | value (v : Value)

mutual

/-- How many pieces the writing of a value takes at most. -/
def weight : Value → Nat
  | data _ fs => 1 + weightAll fs
  | _ => 1

/-- How many pieces the writing of several fields takes, with what
stands after each of them. -/
def weightAll : List Value → Nat
  | [] => 0
  | v :: vs => weight v + 1 + weightAll vs

end

namespace Piece

/-- How many steps a piece takes at most. -/
def weight : Piece → Nat
  | text _ => 1
  | value v => v.weight

/-- How many steps some pieces take at most. -/
def weightAll : List Piece → Nat
  | [] => 0
  | p :: ps => p.weight + weightAll ps

/-- The pieces of the fields of a data value after the first, up to the
closing parenthesis. -/
def ofFields : List Value → List Piece
  | [] => [text ")"]
  | v :: vs => text ", " :: value v :: ofFields vs

theorem weightAll_append (ps qs : List Piece) :
    weightAll (ps ++ qs) = weightAll ps + weightAll qs := by
  induction ps with
  | nil => simp [weightAll]
  | cons p ps ih => simp [weightAll, ih]; omega

theorem weightAll_ofFields (vs : List Value) :
    weightAll (ofFields vs) = 1 + Value.weightAll vs := by
  induction vs with
  | nil => simp [ofFields, weightAll, weight, Value.weightAll]
  | cons v vs ih => simp [ofFields, weightAll, weight, Value.weightAll, ih]; omega

end Piece

theorem weight_pos (v : Value) : 0 < v.weight := by
  cases v <;> simp only [weight] <;> omega

/-- Writes the pieces one after the other behind what is `done`. A data
value with fields is replaced by its fields and the marks around
them. -/
def writePieces (done : String) (pieces : List Piece) : Except Failure String :=
  match pieces with
  | [] => .ok done
  | .text s :: rest => writePieces (done ++ s) rest
  | .value (data c (f :: fs)) :: rest =>
    match constructorText c with
    | .ok s => writePieces (done ++ s ++ "(") (.value f :: (Piece.ofFields fs ++ rest))
    | .error e => .error e
  | .value v :: rest =>
    match v.plainText with
    | .ok s => writePieces (done ++ s) rest
    | .error e => .error e
termination_by Piece.weightAll pieces
decreasing_by
  · simp only [Piece.weightAll, Piece.weight]; omega
  · simp only [Piece.weightAll, Piece.weight, Piece.weightAll_append, Piece.weightAll_ofFields,
      weight, weightAll]
    omega
  · have := weight_pos v
    simp only [Piece.weightAll, Piece.weight]
    omega

/-- **The text of a value**, or the failure that it has none. -/
def text (v : Value) : Except Failure String := writePieces "" [.value v]

/-- The texts of several values, separated by commas. -/
def texts (vs : List Value) : Except Failure String := do
  return ", ".intercalate (← vs.mapM text)

/-- **How a value is named where a case fails or is traced**: a data
value by its constructor, any other by its text. -/
def caseLabel : Value → Except Failure String
  | data c _ => .ok c.text
  | v => v.text

/-! ## Values as data -/

/-- The fields of a data value as data; a single one is followed by a
comma. -/
def fieldsShown : List String → String
  | [s] => "(" ++ s ++ ",)"
  | ss => "(" ++ ", ".intercalate ss ++ ")"

mutual

/-- **A value as data.** -/
def shown : Value → Except Failure String
  | int n => do return "IntValue(" ++ (← intText n) ++ ")"
  | real x => .ok ("RealValue(" ++ Decimal.realText x ++ ")")
  | bool b => .ok ("BoolValue(" ++ boolShown b ++ ")")
  | char s => .ok ("CharValue(" ++ Text.quoted s ++ ")")
  | unit => .ok "UnitValue"
  | data c fs => do
    return "DataValue(" ++ c.shown ++ ", " ++ fieldsShown (← shownAll fs) ++ ")"
  | closure f _ => closureText f

/-- Several values as data. -/
def shownAll : List Value → Except Failure (List String)
  | [] => .ok []
  | v :: vs => do return (← shown v) :: (← shownAll vs)

end

end EmberLang.Value
