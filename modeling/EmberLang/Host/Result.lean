import EmberLang.Value.Printer

/-!
# What the host gives back

A function of the host need not give back a value of the language. It
may give back nothing, a truth value, a number, a text or a list as its
own side knows them. What has a counterpart among the values becomes
that value: nothing becomes unit, and a text of one character becomes a
character. Any other text, and every list, is refused.
-/

namespace EmberLang

/-- **What a function of the host gives back.** -/
inductive HostResult where
  /-- Nothing. -/
  | nothing
  /-- A truth value. -/
  | bool (b : Bool)
  /-- An integer. -/
  | int (n : Int)
  /-- A real number. -/
  | real (x : Float)
  /-- A text, of any length. -/
  | text (s : String)
  /-- A list. -/
  | list (items : List HostResult)
  /-- A value. -/
  | value (v : Value)

instance : Inhabited HostResult := ⟨.nothing⟩

namespace HostResult

mutual

/-- A result as data. -/
def shown : HostResult → Except Failure String
  | nothing => .ok "None"
  | bool b => .ok (boolShown b)
  | int n => intText n
  | real x => .ok (Decimal.realText x)
  | text s => .ok (Text.quoted s)
  | list items => do return Node.listShown (← shownAll items)
  | value v => v.shown

/-- Several results as data. -/
def shownAll : List HostResult → Except Failure (List String)
  | [] => .ok []
  | r :: rs => do return (← shown r) :: (← shownAll rs)

end

/-- The refusal of a result of the named function. -/
def refuse (r : HostResult) (native : String) (position : Option Position) :
    Except Failure Value := do
  .error (.of (.typeMismatch (.result native (← r.shown))) position)

/-- **The value of a result** of the named function. -/
def toValue (r : HostResult) (native : String) (position : Option Position) :
    Except Failure Value :=
  match r with
  | nothing => .ok .unit
  | bool b => .ok (.bool b)
  | int n => .ok (.int n)
  | real x => .ok (.real x)
  | text s => if s.length = 1 then .ok (.char s) else r.refuse native position
  | list _ => r.refuse native position
  | value v => .ok v

/-- The contents of a constant. -/
def ofLiteral : Literal → HostResult
  | .int n => int n
  | .real x => real x
  | .bool b => bool b
  | .char s => text s

end HostResult

end EmberLang
