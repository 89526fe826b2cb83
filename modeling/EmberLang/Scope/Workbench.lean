import EmberLang.Value

/-!
# Scopes under construction

A host that builds scopes piece by piece refers to them by number. Scope
zero has no parent; every other scope has one that was made before it.
Definitions go into the scope they name and are seen at once by all
scopes below it.

A definition replaces an earlier one of the same name in its scope and
keeps its place.
-/

namespace EmberLang

/-- One scope of a workbench. -/
structure Layer where
  /-- The number of the scope around it. -/
  parent? : Option Nat
  /-- Its own definitions, in the order in which their names first
  came. -/
  bindings : List (Name × Value)

/-- **A family of scopes**, known by their numbers. -/
structure Workbench where
  /-- The scopes in the order in which they were made. -/
  layers : List Layer

namespace Layer

/-- Puts a definition in the place of one with the same name, and else
at the end. -/
def insert (name : Name) (value : Value) : List (Name × Value) → List (Name × Value)
  | [] => [(name, value)]
  | (n, v) :: rest => if n.same name then (n, value) :: rest else (n, v) :: insert name value rest

/-- The definition that was made is the one found by its name. -/
theorem find?_insert_self (name : Name) (value : Value) (bs : List (Name × Value)) :
    ((insert name value bs).find? (·.1.same name)).map (·.2) = some value := by
  induction bs with
  | nil => simp [insert]
  | cons b rest ih =>
    unfold insert
    by_cases h : b.1.same name
    · simp [h]
    · simp [h, ih]

/-- The definitions that a list of bindings comes to. -/
def ofBindings (bindings : List (Name × Value)) : List (Name × Value) :=
  bindings.foldl (fun bs b => insert b.1 b.2 bs) []

end Layer

namespace Workbench

/-- The family with nothing but an empty scope. -/
def start : Workbench := ⟨[⟨none, []⟩]⟩

/-- The definitions of one scope. -/
def bindings (w : Workbench) (scope : Nat) : List (Name × Value) :=
  (w.layers[scope]?.map (·.bindings)).getD []

/-- **Makes a scope below another one** and gives its number. -/
def child (w : Workbench) (parent : Nat) (bindings : List (Name × Value)) : Workbench × Nat :=
  (⟨w.layers ++ [⟨some parent, Layer.ofBindings bindings⟩]⟩, w.layers.length)

/-- **Defines a name in a scope.** -/
def define (w : Workbench) (scope : Nat) (name : Name) (value : Value) : Workbench :=
  ⟨w.layers.modify scope fun l => ⟨l.parent?, Layer.insert name value l.bindings⟩⟩

/-- **The value of a name in a scope**, from the nearest scope that
defines it. Parents have smaller numbers. -/
def lookup? (w : Workbench) (scope : Nat) (name : Name) : Option Value :=
  match w.layers[scope]? with
  | none => none
  | some l =>
    match l.bindings.find? (·.1.same name) with
    | some b => some b.2
    | none =>
      match l.parent? with
      | none => none
      | some parent => if parent < scope then lookup? w parent name else none
termination_by scope

/-- The value of a name in a scope, or the error that it has none. -/
def get (w : Workbench) (scope : Nat) (name : Name) (position : Option Position) :
    Except Failure Value := do
  name.check
  match w.lookup? scope name with
  | some v => return v
  | none => .error (.of (.unboundVariable name.text) position)

end Workbench

end EmberLang
