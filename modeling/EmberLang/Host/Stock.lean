import EmberLang.Host.Console

/-!
# Simple functions of a host

A host for trying out programs: functions that return something fixed,
count their calls, look at their arguments, call them back, or fail. Its
state is a console and the number of calls of each function that
counts.
-/

namespace EmberLang

namespace Action

variable {σ τ : Type}

/-- An action on a part of a larger state. -/
def embed (view : τ → σ) (update : σ → τ → τ) (state : τ) : Action σ → Action τ
  | done s r => .done (update s state) r
  | fail s f => .fail (update s state) f
  | call s f args next =>
    .call (update s state) f args fun t outcome => embed view update t (next (view t) outcome)

end Action

namespace Native

variable {σ τ : Type}

/-- A function that only needs a part of a larger state. -/
def embed (view : τ → σ) (update : σ → τ → τ) (native : Native σ) : Native τ where
  name := native.name
  arity? := native.arity?
  run state args := (native.run (view state) args).embed view update state

end Native

/-- **The state of the host.** -/
structure Desk where
  /-- Its console. -/
  console : Console
  /-- How often each counting function has been called. -/
  calls : List (String × Nat) := []

namespace Desk

/-- How often a function has been called. -/
def callsOf (d : Desk) (name : String) : Nat := ((d.calls.find? (·.1 == name)).map (·.2)).getD 0

/-- Counts a call of a function. -/
def countCall (d : Desk) (name : String) : Desk :=
  { d with calls := (name, d.callsOf name + 1) :: d.calls.filter (·.1 != name) }

/-- The functions of its console. -/
def consoleNatives : List (Native Desk) :=
  Console.natives.map (Native.embed Desk.console fun c d => { d with console := c })

end Desk

/-- **What a simple function does.** -/
inductive Stock where
  /-- It returns nothing. -/
  | unit
  /-- It always returns the same. -/
  | const (result : HostResult)
  /-- It returns its first argument, nothing if there is none. -/
  | first
  /-- It returns how often it has been called before. -/
  | count
  /-- It returns the number of its arguments. -/
  | nargs
  /-- It returns twice its first argument. -/
  | double
  /-- It returns the list of the numbers below its first argument, the
  largest first. -/
  | range
  /-- It calls its first argument with the others. -/
  | apply
  /-- It fails. -/
  | fail
  /-- It finds fault with its arguments. -/
  | reject

namespace Stock

/-- The list of the numbers below the given one. -/
def countdown : Nat → Value
  | 0 => .data "Nil" []
  | n + 1 => .data "Cons" [.int n, countdown n]

/-- Twice a value. -/
def doubled : Value → Except HostFault HostResult
  | .int n => .ok (.int (2 * n))
  | .real x => .ok (.real (x * 2))
  | .bool b => .ok (.int (if b then 2 else 0))
  | .char s => .ok (.text (s ++ s))
  | _ => .error .noContents

/-- The numbers below a value. -/
def below : Value → Except HostFault HostResult
  | .int n => .ok (.value (countdown n.toNat))
  | .bool b => .ok (.value (countdown (if b then 1 else 0)))
  | .real _ => .error .wrongKind
  | .char _ => .error .wrongKind
  | _ => .error .noContents

/-- Ends with what a function makes of its first argument. -/
def onFirst (d : Desk) (f : Value → Except HostFault HostResult) : List Value → Action Desk
  | [] => .fail d (.host .noArgument)
  | v :: _ =>
    match f v with
    | .ok r => .done d r
    | .error fault => .fail d (.host fault)

/-- Passes on the outcome of a call. -/
def passOn (d : Desk) : Except Failure Value → Action Desk
  | .ok v => .done d (.value v)
  | .error f => .fail d f

/-- **What the function with the given name does.** -/
def run (name : String) (kind : Stock) (d : Desk) (args : List Value) : Action Desk :=
  match kind with
  | unit => .done d .nothing
  | const r => .done d r
  | first =>
    match args with
    | [] => .done d .nothing
    | v :: _ => .done d (.value v)
  | count => .done (d.countCall name) (.int (d.callsOf name))
  | nargs => .done d (.int args.length)
  | double => onFirst d doubled args
  | range => onFirst d below args
  | apply =>
    match args with
    | [] => .fail d (.host .noArgument)
    | f :: rest => .call d f rest passOn
  | fail => .fail d (.host (.stated "host failure"))
  | reject => .fail d (.of (.typeMismatch (.stated "rejected by host")))

/-- The function as the host provides it. -/
def native (kind : Stock) (name : String) (arity? : Option Nat) : Native Desk where
  name := name
  arity? := arity?
  run := kind.run name

/-- The kind of function with the given name; `result` is what a fixed
one returns. -/
def ofName? (result : HostResult) : String → Option Stock
  | "unit" => some unit
  | "const" => some (const result)
  | "first" => some first
  | "count" => some count
  | "nargs" => some nargs
  | "double" => some double
  | "range" => some range
  | "apply" => some apply
  | "fail" => some fail
  | "reject" => some reject
  | _ => none

end Stock

end EmberLang
