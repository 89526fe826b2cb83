import EmberLang.Tree.Declarations
import EmberLang.Tree.Parser

/-!
# Names of constructors

A program text does not tell a constructor from a variable: `Nil` and
`Cons(x, xs)` are read as a variable and a call. Once all declarations
are known, such names are turned into applications of constructors. A
name that is a constructor always denotes the constructor, even under a
local binding of the same name. Patterns are left as they are; a case is
resolved when it is compiled.

`Node.ofSource` is the whole way from a program text to a tree: scan,
read, check, resolve.
-/

namespace EmberLang.Node

mutual

/-- **Turns the names of constructors in an expression into applications
of constructors.** What is no expression stays as it is. -/
def resolve (t : ConstructorTable) : Node → Except Failure Node
  | var p name => do
    name.check
    return if t.contains name then construct p name [] else var p name
  | call p callee args => do
    let args ← resolveAll t args
    match callee with
    | var q name =>
      name.check
      if t.contains name then return construct p name args
      else return call p (var q name) args
    | _ => return call p (← resolve t callee) args
  | construct p c args => do return construct p c (← resolveAll t args)
  | intrinsicCall p op args => do return intrinsicCall p op (← resolveAll t args)
  | directiveCall p name args => do return directiveCall p name (← resolveAll t args)
  | caseOf p scrutinee arms => do
    let arms ← resolveArms t arms
    return caseOf p (← resolve t scrutinee) arms
  | letIn p name value body valueType => do
    return letIn p name (← resolve t value) (← resolve t body) valueType
  | seq p first rest => do return seq p (← resolve t first) (← resolve t rest)
  | lambda p params body => do return lambda p params (← resolve t body)
  | block p declarations body => do
    let declarations ← resolveDeclarations t declarations
    return block p declarations (← resolve t body)
  | n => .ok n

/-- Resolves several expressions. -/
def resolveAll (t : ConstructorTable) : List Node → Except Failure (List Node)
  | [] => .ok []
  | n :: ns => do return (← resolve t n) :: (← resolveAll t ns)

/-- Resolves the bodies of arms. -/
def resolveArms (t : ConstructorTable) : List Node → Except Failure (List Node)
  | [] => .ok []
  | n :: ns => do return (← resolveArm t n) :: (← resolveArms t ns)

/-- Resolves the body of an arm; nothing else can stand among arms. -/
def resolveArm (t : ConstructorTable) : Node → Except Failure Node
  | arm p pattern body => do return arm p pattern (← resolve t body)
  | _ => .error (.shape .missingPart)

/-- Resolves the bodies of the functions among some declarations. -/
def resolveDeclarations (t : ConstructorTable) : List Node → Except Failure (List Node)
  | [] => .ok []
  | n :: ns => do return (← resolveDeclaration t n) :: (← resolveDeclarations t ns)

/-- Resolves the body of a declared function; other declarations have
none. -/
def resolveDeclaration (t : ConstructorTable) : Node → Except Failure Node
  | funDecl p name tps params body returnType => do
    return funDecl p name tps params (← resolve t body) returnType
  | n => .ok n

end

/-- **Checks a program and resolves its names.** -/
def resolveProgram (root : Node) : Except Failure Node := do
  let table ← root.checkDeclarations
  match root.scope? with
  | none => .error (.shape .missingPart)
  | some (declarations, body) =>
    let declarations ← resolveDeclarations table declarations
    return program root.position? declarations (← resolve table body)

/-- How deeply programs may be nested unless something else is asked
for. -/
def defaultFrames : Int := 200000

/-- The levels of nesting that a frame limit leaves room for: a level
takes about three frames, and a thousand frames are always there. -/
def levelsOf (frames : Int) : Nat := (max 1000 frames / 3).toNat

/-- **Reads a program text** as a tree with its names resolved. -/
def ofSource (text : String) (frames : Int := defaultFrames) : Except Failure Node :=
  match scan text with
  | .error e => .error (.error e)
  | .ok tokens => do (← ofTokens (levelsOf frames) tokens).resolveProgram

end EmberLang.Node
