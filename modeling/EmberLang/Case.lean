import EmberLang.Case.Pattern
import EmberLang.Tree.Declarations

/-!
# Cases

A case chooses the first arm whose pattern matches. So as not to try
every arm, a case is compiled into a dispatch: for each tag that some
pattern asks for, the arms that may match values of this tag, in order,
and a fallback of the arms that take any value for all other tags. An arm
that takes any value is in every list, at its place.

Compiling also resolves the patterns and so finds the faults in them. A
program's cases are all compiled before it runs.
-/

namespace EmberLang

/-- **An arm of a compiled case.** -/
structure CaseArm where
  /-- Its place among the arms. -/
  index : Nat
  /-- Its pattern, resolved. -/
  pattern : Node
  /-- The expression it leads to. -/
  body : Node
  /-- The variables of its pattern, from the left. -/
  bindings : List Name

/-- **Which arms to try for a value**, by its tag. -/
structure Dispatch where
  /-- For each tag that a pattern asks for, the arms that may match. -/
  table : List (Tag × List Nat)
  /-- The arms that may match values of any other tag. -/
  fallback : List Nat

/-- **A compiled case.** -/
structure Case where
  /-- All its arms, in order. -/
  arms : List CaseArm
  /-- Which of them to try. -/
  dispatch : Dispatch

namespace Dispatch

/-- The dispatch of a case without arms. -/
def empty : Dispatch := ⟨[], []⟩

/-- The arms to try for values of a tag. -/
def candidates (d : Dispatch) (tag : Tag) : List Nat :=
  match d.table.find? fun entry => entry.1.same tag with
  | some entry => entry.2
  | none => d.fallback

@[simp]
theorem candidates_empty (tag : Tag) : empty.candidates tag = [] := rfl

/-- Adds an arm to the list of its tag. A tag that is new starts with
the arms that take any value. -/
def insert (tag : Tag) (fallback : List Nat) (index : Nat) :
    List (Tag × List Nat) → List (Tag × List Nat)
  | [] => [(tag, fallback ++ [index])]
  | (key, indices) :: rest =>
    if key.same tag then (key, indices ++ [index]) :: rest
    else (key, indices) :: insert tag fallback index rest

/-- **Adds an arm** that asks for the tag, or takes any value. -/
def add (d : Dispatch) (tag? : Option Tag) (index : Nat) : Dispatch :=
  match tag? with
  | none => ⟨d.table.map fun entry => (entry.1, entry.2 ++ [index]), d.fallback ++ [index]⟩
  | some tag => ⟨insert tag d.fallback index d.table, d.fallback⟩

end Dispatch

namespace Case

/-- The case without arms. -/
def empty : Case := ⟨[], .empty⟩

/-- Adds an arm with a resolved pattern behind the others. -/
def add (c : Case) (pattern body : Node) (bindings : List Name) : Case :=
  ⟨c.arms ++ [⟨c.arms.length, pattern, body, bindings⟩],
    c.dispatch.add pattern.patternTag? c.arms.length⟩

/-- Compiles arms behind those that are done. -/
def compileFrom (t : ConstructorTable) (done : Case) : List Node → Except Failure Case
  | [] => .ok done
  | .arm _ pattern body :: rest => do
    let (pattern, bindings) ← pattern.resolvePattern t []
    compileFrom t (done.add pattern body bindings) rest
  | _ :: _ => .error (.shape .missingPart)

/-- **Compiles the arms of a case.** -/
def compile (t : ConstructorTable) (arms : List Node) : Except Failure Case :=
  compileFrom t .empty arms

/-- The arms to try for a value. -/
def candidates (c : Case) (v : Value) : List Nat := c.dispatch.candidates v.tag

/-- What an arm makes of a value: its place and the bindings, if it
matches. -/
def attempt? (c : Case) (v : Value) (index : Nat) : Option (Nat × List (Name × Value)) := do
  let arm ← c.arms[index]?
  let bindings ← arm.pattern.matchPattern [] v
  return (index, bindings)

/-- **The arm chosen for a value**, by the dispatch. -/
def select? (c : Case) (v : Value) : Option (Nat × List (Name × Value)) :=
  (c.candidates v).findSome? (c.attempt? v)

/-- The arm chosen for a value, by trying every arm in order. -/
def firstMatch? (c : Case) (v : Value) : Option (Nat × List (Name × Value)) :=
  (List.range c.arms.length).findSome? (c.attempt? v)

/-- All candidates that match a value, with their bindings. -/
def hits (c : Case) (v : Value) : List (Nat × List (Name × Value)) :=
  (c.candidates v).filterMap (c.attempt? v)

/-- Compiles the cases among some nodes, in order. -/
def compileNodes (t : ConstructorTable) : List Node → Except Failure (List Case)
  | [] => .ok []
  | .caseOf _ _ arms :: rest => do
    let c ← compile t arms
    return c :: (← compileNodes t rest)
  | _ :: rest => compileNodes t rest

end Case

namespace Node

/-- The functions among some declarations. -/
def functionsOf (declarations : List Node) : List Node :=
  declarations.filter fun
    | funDecl .. => true
    | _ => false

/-- **Compiles every case of a program**: those of its functions in
order, then those of its body. -/
def compileCases (root : Node) (t : ConstructorTable) : Except Failure (List Case) :=
  match root.scope? with
  | none => .error (.shape .missingPart)
  | some (declarations, body) => do
    let inFunctions ← Case.compileNodes t ((functionsOf declarations).flatMap walk)
    return inFunctions ++ (← Case.compileNodes t (← body.walk?))

end Node

end EmberLang
