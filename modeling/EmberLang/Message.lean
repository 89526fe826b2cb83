import EmberLang.Journal
import EmberLang.Value.Printer

/-!
# The trace

A run can be followed at four levels of detail. The first tells what a
program declares and what it results in, the second adds the calls, the
third the choices of cases, and the fourth every node that is evaluated.
A message is worded only if the level asks for it – wording can fail,
when an integer is too long to be written or a parameter is no word.
-/

namespace EmberLang

/-- **A message of the trace.** -/
inductive Message where
  /-- A function was declared. -/
  | function (f : Function)
  /-- A data type was declared, with these constructors. -/
  | data (typeName : Name) (constructors : List Constructor)
  /-- A foreign function was declared, which the host provides or
  not. -/
  | foreign (name : Name) (bound : Bool)
  /-- So many cases were compiled. -/
  | compiled (cases : Nat)
  /-- The program came to a value. -/
  | result (v : Value)
  /-- A directive is about to be carried out. -/
  | directive (name : Name) (args : List Value)
  /-- A foreign function is about to be called. -/
  | foreignCall (name : Name) (args : List Value)
  /-- A function is about to be called, below so many other calls. -/
  | call (depth : Nat) (name : Name) (args : List Value)
  /-- A case has chosen an arm. -/
  | chosen (v : Value) (index : Nat)
  /-- A node is about to be evaluated. -/
  | eval (n : Node)

namespace Message

/-- The level from which on a message is written. -/
def level : Message → Nat
  | function .. => 1
  | data .. => 1
  | foreign .. => 1
  | compiled .. => 1
  | result .. => 1
  | directive .. => 2
  | foreignCall .. => 2
  | call .. => 2
  | chosen .. => 3
  | eval .. => 4

/-- The blanks before a call that is nested in others. They stop growing
at some depth. -/
def callPad (depth : Nat) : String := String.ofList (List.replicate (2 * min depth 40) ' ')

/-- A constructor with the number of its fields. -/
def constructorText (c : Constructor) : String := c.name.text ++ "/" ++ toString c.arity

/-- **The wording of a message.** -/
def text : Message → Except Failure String
  | function f => do
    return "define function " ++ f.name.text ++ "(" ++ (← Name.commas f.params) ++ ")"
  | data typeName cs =>
    .ok ("define data " ++ typeName.text ++ " = " ++ ", ".intercalate (cs.map constructorText))
  | foreign name bound =>
    .ok ("declare extern " ++ name.text ++ (if bound then " (bound)" else " (unbound)"))
  | compiled n => .ok ("compiled " ++ toString n ++ " case expression(s)")
  | result v => do return "result " ++ (← v.text)
  | directive name args => do
    return "directive #" ++ name.text ++ "(" ++ (← Value.texts args) ++ ")"
  | foreignCall name args => do
    return "extern " ++ name.text ++ "(" ++ (← Value.texts args) ++ ")"
  | call depth name args => do
    return callPad depth ++ "call " ++ name.text ++ "(" ++ (← Value.texts args) ++ ")"
  | chosen v index => do return "case " ++ (← v.caseLabel) ++ " -> arm " ++ toString index
  | eval n => .ok ("eval " ++ n.className)

end Message

namespace Run

/-- **Writes a message** if the level of detail asks for it. -/
def trace {σ : Type} (detail : Nat) (m : Message) : Run σ Unit :=
  if m.level ≤ detail then do
    let text ← Run.lift m.text
    Run.write ⟨m.level, text⟩
  else return ()

end Run

end EmberLang
