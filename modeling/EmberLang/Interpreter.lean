import EmberLang.Eval
import EmberLang.Intrinsic.Standard

/-!
# The interpreter

An interpreter keeps what the last program left behind: its constructors
and foreign functions, its global scope, and the journal. Loading a
program replaces them one after the other, and a program that fails to
load leaves the rest as it was. A run loads a program and evaluates its
body; functions of a loaded program can also be called one by one.

The steps of loading come in a fixed order, which decides the fault that
is reported: the declarations are checked, then the names of all
intrinsics, then all cases are compiled. Only a whole program can be
loaded; with anything else nothing changes at all.
-/

namespace EmberLang

/-- **An interpreter** for a host with states of type `σ`. -/
structure Interpreter (σ : Type) where
  /-- The functions of the host. -/
  natives : List (Native σ)
  /-- The intrinsics. -/
  intrinsics : IntrinsicTable := .standard
  /-- How detailed the trace is. -/
  detail : Nat := 0
  /-- How many calls a run may nest, beside those that are always
  allowed. -/
  maxDepth : Int := 50000
  /-- The foreign functions declared by the last program, with their
  numbers of parameters. -/
  externs : List (Name × Nat) := []
  /-- The constructors of the last program whose declarations were
  sound. -/
  table : ConstructorTable := .empty
  /-- The constructors of the last program whose cases were compiled. -/
  caseTable : ConstructorTable := .empty
  /-- The compiled cases. -/
  cases : List Case := []
  /-- The functions of the last program. -/
  globals : Scope := .empty
  /-- The journal. -/
  journal : Journal σ

/-- **A step of an interpreter**, which may fail. -/
abbrev Session (σ : Type) := ExceptT Failure (StateM (Interpreter σ))

namespace Node

/-- The foreign functions among some declarations with their numbers of
parameters. Of two with one name the last counts. -/
def externsOf (declarations : List Node) : Except Failure (List (Name × Nat)) :=
  declarations.foldlM (fun found n =>
    match n with
    | externDecl _ name _ paramTypes _ => do
      name.check
      return put name paramTypes.length found
    | _ => .ok found) []
where
  put (name : Name) (arity : Nat) : List (Name × Nat) → List (Name × Nat)
    | [] => [(name, arity)]
    | (n, a) :: rest =>
      if n.same name then (n, arity) :: rest else (n, a) :: put name arity rest

/-- Checks that the intrinsics among some nodes are known. -/
def checkIntrinsics (t : IntrinsicTable) : List Node → Except Failure Unit
  | [] => .ok ()
  | intrinsicCall p op _ :: rest => do
    op.check
    if t.knows op then checkIntrinsics t rest
    else .error (.of (.unknownIntrinsic op.text t.names) p)
  | _ :: rest => checkIntrinsics t rest

end Node

namespace Scope

/-- The names that a scope adds to the scope around it. -/
def names : Scope → List Name
  | empty => []
  | bind name _ _ => [name]
  | functions fs _ => fs.map (·.name)

end Scope

namespace Interpreter

variable {σ α : Type}

/-- What the functions of the loaded program run on. -/
def engine (I : Interpreter σ) : Engine σ where
  natives := I.natives
  externs := I.externs
  intrinsics := I.intrinsics
  table := I.table
  caseTable := I.caseTable
  detail := I.detail

/-- How many calls can be nested where no run asks for more. -/
def baseDepth : Nat := 250

/-- How many calls can be nested in a run. -/
def runDepth (I : Interpreter σ) : Nat := I.maxDepth.toNat + baseDepth

/-- **Takes a step on a new page**: the trace and what the observer is
told begin anew. -/
def perform (I : Interpreter σ) (step : Session σ α) : Except Failure α × Interpreter σ :=
  step.run { I with journal := { I.journal with observed := #[], trace := #[] } }

end Interpreter

namespace Session

variable {σ α : Type}

/-- Carries out a computation on the journal of the interpreter. -/
def keep (m : Run σ α) : Session σ α := fun I =>
  let (outcome, journal) := m.run I.journal
  (outcome, { I with journal := journal })

/-- A step that changes nothing. -/
def lift (outcome : Except Failure α) : Session σ α :=
  match outcome with
  | .ok a => return a
  | .error f => throw f

/-- Carries out a computation on what the loaded program runs on. -/
def keepEngine (m : Engine σ → Run σ α) : Session σ α := do
  keep (m (← get).engine)

/-- The messages about a program that has been loaded. -/
def summary (I : Interpreter σ) : List Message :=
  I.table.typeNames.map (fun t => .data t (I.table.constructorsOf t))
    ++ I.externs.map (fun e => .foreign e.1 (Native.find? I.natives e.1).isSome)
    ++ [.compiled I.cases.length]

/-- **Loads a program.** -/
def load (root : Node) : Session σ Unit :=
  match root with
  | .program _ declarations _ => do
    let externs ← lift (Node.externsOf declarations)
    modify fun I =>
      { I with
        externs := externs
        journal := { I.journal with effects := #[] } }
    let table ← lift root.checkDeclarations
    modify fun I => { I with table := table }
    lift (Node.checkIntrinsics (← get).intrinsics root.walk)
    let cases ← lift (root.compileCases table)
    let (functions, outcome) := Node.declaredFunctions declarations
    modify fun I =>
      { I with caseTable := table, cases := cases, globals := .functions functions .empty }
    keepEngine fun E => functions.forM fun f => E.trace (.function f)
    lift outcome
    let messages := summary (← get)
    keepEngine fun E => messages.forM E.trace
  | _ => throw (.shape .missingPart)

/-- **Runs a program**: loads it and evaluates its body. -/
def run (root : Node) : Session σ Value := do
  load root
  match root.scope? with
  | none => throw (.shape .missingPart)
  | some (_, body) =>
    let I ← get
    let v ← keepEngine fun E => E.eval (E.callAt I.runDepth 0) I.globals body
    keepEngine fun E => E.trace (.result v)
    return v

/-- **Calls a value** outside a run. -/
def call (f : Value) (args : List Value) : Session σ Value :=
  keepEngine fun E => E.callAt Interpreter.baseDepth 0 f args none

/-- **Calls a function of the loaded program by its name.** -/
def callNamed (name : Name) (args : List Value) : Session σ Value := do
  let f ← lift ((← get).globals.get name none)
  call f args

/-- Calls a foreign function by its name, outside a run. -/
def callForeign (name : Name) (args : List Value) (directive : Bool)
    (position : Option Position) : Session σ Value :=
  keepEngine fun E => E.callForeign (E.callAt Interpreter.baseDepth 0) name args directive position

end Session

end EmberLang
