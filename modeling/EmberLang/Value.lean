import EmberLang.Constructor
import EmberLang.Tree.Shown

/-!
# Values and scopes

What an expression evaluates to, and where its variables get their
values. The two need each other: a closure is a function together with
the scope it was made in, and a scope holds values.

A scope is a chain, the innermost binding first. Functions that are
declared together see each other, so each of them would have to be a
closure over a scope that contains the closure. The chain avoids the
circle: a layer of functions keeps the functions as they are written,
and a function becomes a closure only when its name is looked up, over
the chain from its own layer on. Every value is thus a finite tree.

Nothing says that the fields of a data value are as many as its
constructor takes; `ConstructorTable.construct` builds only values for
which this holds, and a host may build others.
-/

namespace EmberLang

/-- **A function as written**: its name, its parameters and its body. -/
structure Function where
  /-- Its name. -/
  name : Name
  /-- The names of its parameters. -/
  params : List Name
  /-- The expression that a call evaluates. -/
  body : Node

mutual

/-- **A value.** -/
inductive Value where
  /-- An integer, of any size. -/
  | int (n : Int)
  /-- A real number. -/
  | real (x : Float)
  /-- A truth value. -/
  | bool (b : Bool)
  /-- A character. -/
  | char (s : String)
  /-- The unit value. -/
  | unit
  /-- A constructor with its fields. -/
  | data (constructor : Name) (fields : List Value)
  /-- A function in the scope it was made in. -/
  | closure (function : Function) (scope : Scope)

/-- **A scope**, the innermost binding first. -/
inductive Scope where
  /-- No bindings. -/
  | empty
  /-- A name with its value, before the bindings further out. -/
  | bind (name : Name) (value : Value) (outer : Scope)
  /-- Functions declared together, before the bindings further out. -/
  | functions (declared : List Function) (outer : Scope)

end

instance : Inhabited Value := ⟨.unit⟩

instance : Inhabited Scope := ⟨.empty⟩

/-! ## Scopes -/

namespace Scope

/-- **The value of a name**, from its innermost binding. -/
def lookup? (name : Name) : Scope → Option Value
  | empty => none
  | bind n v outer => if n.same name then some v else lookup? name outer
  | functions fs outer =>
    match fs.find? (·.name.same name) with
    | some f => some (.closure f (functions fs outer))
    | none => lookup? name outer

@[simp]
theorem lookup?_empty (name : Name) : empty.lookup? name = none := rfl

@[simp]
theorem lookup?_bind_self (name : Name) (v : Value) (s : Scope) :
    (bind name v s).lookup? name = some v := by
  simp [lookup?]

theorem lookup?_bind_of_not_same {n name : Name} (h : n.same name = false) (v : Value)
    (s : Scope) : (bind n v s).lookup? name = s.lookup? name := by
  simp [lookup?, h]

/-- Whether a name has a value. -/
def isBound (name : Name) (s : Scope) : Bool := (s.lookup? name).isSome

/-- The value of a name, or the error that it has none. -/
def get (s : Scope) (name : Name) (position : Option Position) : Except Failure Value := do
  name.check
  match s.lookup? name with
  | some v => return v
  | none => .error (.of (.unboundVariable name.text) position)

/-- Adds bindings, the last one innermost. -/
def bindAll (bindings : List (Name × Value)) (s : Scope) : Scope :=
  bindings.foldl (fun s b => bind b.1 b.2 s) s

end Scope

/-! ## Values -/

namespace Literal

/-- The value of a literal. -/
def value : Literal → Value
  | int n => .int n
  | real x => .real x
  | bool b => .bool b
  | char s => .char s

end Literal

namespace Value

/-- **What kind of value it is**; for a data value, its constructor. -/
def typeName : Value → Name
  | int _ => "Int"
  | real _ => "Real"
  | bool _ => "Bool"
  | char _ => "Char"
  | unit => "()"
  | data c _ => c
  | closure .. => "closure"

/-- The constant that a value is, if it is one. -/
def literal? : Value → Option Literal
  | int n => some (.int n)
  | real x => some (.real x)
  | bool b => some (.bool b)
  | char s => some (.char s)
  | _ => none

mutual

/-- **Whether two values are equal.** Values of different kinds never
are. Reals are compared as numbers, so the two zeros are equal and what
is not a number differs from itself. No two closures are equal. -/
def equal : Value → Value → Bool
  | int m, int n => m == n
  | real x, real y => x == y
  | bool a, bool b => a == b
  | char s, char t => s == t
  | unit, unit => true
  | data c fs, data d gs => c.same d && equalAll fs gs
  | _, _ => false

/-- Whether two lists of values are equal. -/
def equalAll : List Value → List Value → Bool
  | [], [] => true
  | v :: vs, w :: ws => equal v w && equalAll vs ws
  | _, _ => false

end

end Value

namespace ConstructorTable

/-- **Builds a data value**: the constructor must be known, and the
fields as many as it takes. A value without fields has the name that was
declared, any other the name that was given; the two are the same. -/
def construct (t : ConstructorTable) (name : Name) (fields : List Value)
    (position : Option Position) : Except Failure Value := do
  let c ← t.lookup name position
  if fields.length = c.arity then return .data (if fields.isEmpty then c.name else name) fields
  else .error (.of (.arity name.text c.arity fields.length) position)

end ConstructorTable

end EmberLang
