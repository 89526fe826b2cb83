import EmberLang.Case
import EmberLang.Host
import EmberLang.Intrinsic
import EmberLang.Message

/-!
# Evaluation

An expression is evaluated in a scope, its parts from the left, with
arguments before the function they are given to. A call binds the
parameters over the scope of the closure, never over that of the caller.

Evaluation follows the expression; what leads out of the expression is a
call, whose body lies in a closure. So `eval` is by recursion on the
expression and is given the way to call a value, and `callAt` is by
recursion on the number of calls that may still be nested and gives
`eval` the way to call with one less. A call that would nest too deeply
fails.

The name of a foreign function is no variable. It counts only where it is
called directly, and only if no variable has the same name.
-/

namespace EmberLang

/-- **What a program runs on**: the declarations it was loaded with and
the functions of the host, over states of type `σ`. -/
structure Engine (σ : Type) where
  /-- The functions of the host. -/
  natives : List (Native σ)
  /-- The declared foreign functions with their numbers of
  parameters. -/
  externs : List (Name × Nat)
  /-- The intrinsics. -/
  intrinsics : IntrinsicTable
  /-- The constructors that values are built with. -/
  table : ConstructorTable
  /-- The constructors that cases were compiled with. -/
  caseTable : ConstructorTable
  /-- How detailed the trace is. -/
  detail : Nat

namespace Node

/-- The names of the parameters of a declared function. -/
def paramNames : List Node → Except Failure (List Name)
  | [] => .ok []
  | n :: ns =>
    match n.name? with
    | some name => do return name :: (← paramNames ns)
    | none => .error (.shape .missingPart)

/-- The functions among some declarations, as far as they are well
formed, and the failure that ends them. -/
def declaredFunctions : List Node → List Function × Except Failure Unit
  | [] => ([], .ok ())
  | funDecl _ name _ params body _ :: rest =>
    match paramNames params with
    | .ok names =>
      let (fs, outcome) := declaredFunctions rest
      (⟨name, names, body⟩ :: fs, outcome)
    | .error f => ([], .error f)
  | _ :: rest => declaredFunctions rest

end Node

namespace Engine

variable {σ : Type}

/-- Writes a message of the trace. -/
def trace (E : Engine σ) (m : Message) : Run σ Unit := Run.trace E.detail m

/-- A way to call a value, at the position of the call. -/
abbrev Caller (σ : Type) := Value → List Value → Option Position → Run σ Value

/-- **Calls a foreign function.** The call is recorded before the host
does anything. -/
def callForeign (E : Engine σ) (call : Caller σ) (name : Name) (args : List Value)
    (directive : Bool) (position : Option Position) : Run σ Value := do
  let native ← Run.lift (Native.resolve E.natives E.externs name args position)
  Run.record ⟨native.name, args, directive⟩
  let action := native.run (← Run.host) args
  let result ← action.perform fun f args => call f args none
  Run.lift (result.toValue native.name position)

/-- Whether a callee is the name of a foreign function: declared, and not
hidden by a variable. -/
def foreignName? (E : Engine σ) (scope : Scope) : Node → Except Failure (Option Name)
  | .var _ name => do
    name.check
    return if !scope.isBound name && E.externs.any (·.1.same name) then some name else none
  | _ => .ok none

/-- The functions of a scope, each announced in the trace. A declaration
that is not well formed ends them with a failure. -/
def announce (E : Engine σ) (declarations : List Node) : Run σ (List Function) := do
  let (functions, outcome) := Node.declaredFunctions declarations
  functions.forM fun f => E.trace (.function f)
  Run.lift outcome
  return functions

mutual

/-- **The value of an expression in a scope**, where `call` calls a
value. -/
def eval (E : Engine σ) (call : Caller σ) (scope : Scope) : Node → Run σ Value
  | .literal p v => do
    E.trace (.eval (.literal p v))
    return v.value
  | .unit p => do
    E.trace (.eval (.unit p))
    return .unit
  | .var p name => do
    E.trace (.eval (.var p name))
    Run.lift (scope.get name p)
  | .call p callee args => do
    E.trace (.eval (.call p callee args))
    let values ← evalAll E call scope args
    match ← Run.lift (E.foreignName? scope callee) with
    | some name =>
      E.trace (.foreignCall name values)
      E.callForeign call name values false p
    | none =>
      let f ← eval E call scope callee
      call f values p
  | .intrinsicCall p op args => do
    E.trace (.eval (.intrinsicCall p op args))
    let values ← evalAll E call scope args
    Run.lift (E.intrinsics.applyNamed op values p)
  | .directiveCall p name args => do
    E.trace (.eval (.directiveCall p name args))
    let values ← evalAll E call scope args
    E.trace (.directive name values)
    let _ ← E.callForeign call name values true p
    return .unit
  | .construct p c args => do
    E.trace (.eval (.construct p c args))
    let values ← evalAll E call scope args
    Run.lift (E.table.construct c values p)
  | .caseOf p scrutinee arms => do
    E.trace (.eval (.caseOf p scrutinee arms))
    let v ← eval E call scope scrutinee
    match Case.compile E.caseTable arms with
    | .error _ => throw .uncompiledCase
    | .ok c =>
      match c.select? v with
      | some (index, bindings) =>
        E.trace (.chosen v index)
        evalArm E call (scope.bindAll bindings) index arms
      | none =>
        let label ← Run.lift v.caseLabel
        throw (.of (.nonExhaustiveMatch label) p)
  | .letIn p name value body valueType => do
    E.trace (.eval (.letIn p name value body valueType))
    let v ← eval E call scope value
    Run.lift name.check
    eval E call (.bind name v scope) body
  | .seq p first rest => do
    E.trace (.eval (.seq p first rest))
    let _ ← eval E call scope first
    eval E call scope rest
  | .lambda p params body => do
    E.trace (.eval (.lambda p params body))
    return .closure ⟨"<fn>", params, body⟩ scope
  | .block p declarations body => do
    E.trace (.eval (.block p declarations body))
    let functions ← E.announce declarations
    eval E call (.functions functions scope) body
  | n => do
    E.trace (.eval n)
    throw (.misplaced .evaluation n.className)

/-- The values of several expressions, from the left. -/
def evalAll (E : Engine σ) (call : Caller σ) (scope : Scope) : List Node → Run σ (List Value)
  | [] => return []
  | n :: ns => do
    let v ← eval E call scope n
    let vs ← evalAll E call scope ns
    return v :: vs

/-- The value of the body of one of some arms. -/
def evalArm (E : Engine σ) (call : Caller σ) (scope : Scope) : Nat → List Node → Run σ Value
  | _, [] => throw (.shape .missingItem)
  | 0, .arm _ _ body :: _ => eval E call scope body
  | 0, _ :: _ => throw (.shape .missingPart)
  | index + 1, _ :: rest => evalArm E call scope index rest

end

/-- **Calls a value**, where `limit` more calls may be nested below
`depth` others. -/
def callAt (E : Engine σ) : (limit depth : Nat) → Caller σ
  | 0, _ => fun _ _ _ => throw .callsTooDeep
  | limit + 1, depth => fun f args position =>
    match f with
    | .closure function scope =>
      if args.length = function.params.length then do
        Run.lift (function.params.forM Name.check)
        E.trace (.call depth function.name args)
        eval E (callAt E limit (depth + 1)) (scope.bindAll (function.params.zip args)) function.body
      else throw (.of (.arity function.name.text function.params.length args.length) position)
    | v => throw (.of (.typeMismatch (.notCallable v.typeName.text)) position)

end Engine

end EmberLang
