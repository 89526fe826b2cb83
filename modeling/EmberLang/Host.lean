import EmberLang.Host.Result
import EmberLang.Journal

/-!
# The host

A program declares foreign functions and the host provides them. A
function of the host sees the host's own state and its arguments, and
what it does is an `Action`: it ends with a result or a failure, or it
calls a value back and goes on with what came of the call. The state is
handed over at every step, so that the calls in between can change it.

Being data, an action says everything about a function of the host that
a run can depend on.
-/

namespace EmberLang

/-- **What a function of the host does next**, over a state of type
`σ`. -/
inductive Action (σ : Type) where
  /-- It ends with a result. -/
  | done (state : σ) (result : HostResult)
  /-- It ends with a failure. -/
  | fail (state : σ) (failure : Failure)
  /-- It calls a value, and goes on with the outcome. -/
  | call (state : σ) (callee : Value) (args : List Value)
      (next : σ → Except Failure Value → Action σ)

/-- **A function of the host.** -/
structure Native (σ : Type) where
  /-- The name it is provided under. -/
  name : String
  /-- The number of its arguments, if it is fixed. -/
  arity? : Option Nat
  /-- What it does. -/
  run : σ → List Value → Action σ

namespace Native

variable {σ : Type}

/-- The function with the given name, which is always a word. -/
def find? (natives : List (Native σ)) (name : Name) : Option (Native σ) :=
  natives.find? fun native => name.same native.name

/-- Puts a function in the place of one with the same name, and else at
the end. -/
def put (native : Native σ) : List (Native σ) → List (Native σ)
  | [] => [native]
  | n :: rest => if n.name = native.name then native :: rest else n :: put native rest

/-- Functions from two sources; of two with one name the second
counts. -/
def merge (natives more : List (Native σ)) : List (Native σ) :=
  more.foldl (fun ns n => put n ns) natives

/-- **Finds the function behind a foreign call.** It must be declared and
provided, with as many parameters here as there, and be given as many
arguments. `externs` are the declared names with their numbers of
parameters. -/
def resolve (natives : List (Native σ)) (externs : List (Name × Nat)) (name : Name)
    (args : List Value) (position : Option Position) : Except Failure (Native σ) := do
  name.check
  let unresolved fault := Failure.of (.unresolvedExtern name.text fault) position
  match externs.find? (·.1.same name) with
  | none => .error (unresolved .undeclared)
  | some (_, declared) =>
    match find? natives name with
    | none => .error (unresolved .unprovided)
    | some native =>
      let clash := native.arity?.filter (· ≠ declared)
      match clash with
      | some arity => .error (unresolved (.arity arity declared))
      | none =>
        if args.length = declared then .ok native
        else .error (.of (.arity name.text declared args.length) position)

end Native

namespace Action

variable {σ : Type}

/-- **Performs an action**, where `call` calls a value. The outcome of a
call is handed to the action, failures included. -/
def perform (call : Value → List Value → Run σ Value) : Action σ → Run σ HostResult
  | done state result => do
    Run.setHost state
    return result
  | fail state failure => do
    Run.setHost state
    throw failure
  | .call state callee args next => do
    Run.setHost state
    let outcome ← Run.attempt (call callee args)
    perform call (next (← Run.host) outcome)

end Action

end EmberLang
