/-!
# Positions in a program text

A position is a line and a column, both counted from one; a column
counts characters. Positions read from a saved tree are whatever numbers
were saved, so the two fields are integers.
-/

namespace EmberLang

/-- **A place in a program text.** -/
structure Position where
  /-- The line, one for the first. -/
  line : Int
  /-- The column, one for the first. -/
  column : Int
  deriving DecidableEq, Repr, Inhabited

namespace Position

/-- Where a text begins. -/
def start : Position := ⟨1, 1⟩

/-- The position after one more character. Only the newline begins a new
line. -/
def next (p : Position) (c : Char) : Position :=
  if c = '\n' then ⟨p.line + 1, 1⟩ else ⟨p.line, p.column + 1⟩

/-- **The position after a piece of text.** -/
def after (p : Position) (cs : List Char) : Position := cs.foldl next p

/-- How a position is named in a message. -/
def text (p : Position) : String := s!"line {p.line}, column {p.column}"

@[simp]
theorem after_nil (p : Position) : p.after [] = p := rfl

@[simp]
theorem after_cons (p : Position) (c : Char) (cs : List Char) :
    p.after (c :: cs) = (p.next c).after cs := rfl

@[simp]
theorem after_append (p : Position) (cs ds : List Char) :
    p.after (cs ++ ds) = (p.after cs).after ds := List.foldl_append

end Position

end EmberLang
