import EmberLang.Name

/-!
# Types as written

A type is a name applied to types. Two names are special by convention:
`()` is the unit type, and `fun` is the type of functions, whose last
argument is the result. Types document a program; nothing checks them.

A type that was not written by hand may break the convention and be a
function type without a result, or be named by what is no word and have
no arguments. Such a type has no text.
-/

namespace EmberLang

/-- **A type as written**: its name and its arguments. -/
inductive TypeSpec where
  | mk (kind : Name) (args : List TypeSpec)
  deriving Inhabited

namespace TypeSpec

/-- The name of a type. -/
def kind : TypeSpec → Name
  | mk kind _ => kind

/-- The arguments of a type. -/
def args : TypeSpec → List TypeSpec
  | mk _ args => args

/-- The type of integers. -/
def integer : TypeSpec := mk "Int" []

/-- The type of reals. -/
def real : TypeSpec := mk "Real" []

/-- The type of truth values. -/
def boolean : TypeSpec := mk "Bool" []

/-- The type of characters. -/
def char : TypeSpec := mk "Char" []

/-- The unit type. -/
def unit : TypeSpec := mk "()" []

/-- The type of functions from the parameters to the result. -/
def function (params : List TypeSpec) (result : TypeSpec) : TypeSpec :=
  mk "fun" (params ++ [result])

/-- Whether a type is a function type. -/
def isFunction (t : TypeSpec) : Bool := t.kind.isWord "fun"

/-- The parameters of a function type; other types have none. -/
def params (t : TypeSpec) : List TypeSpec := if t.isFunction then t.args.dropLast else []

/-- The result of a function type, `none` if it has none; any other type
is its own result. -/
def result? (t : TypeSpec) : Option TypeSpec := if t.isFunction then t.args.getLast? else some t

/-- The text of a type from its name and the texts of its arguments. -/
def assemble (kind : Name) (args : List String) : Except Failure String :=
  if kind.isWord "fun" then
    match args.getLast? with
    | some result =>
      let params := ", ".intercalate args.dropLast
      .ok s!"fun({params}) -> {result}"
    | none => .error (.shape .missingItem)
  else if args.isEmpty then do
    kind.needWord
    return kind.text
  else
    let inner := ", ".intercalate args
    .ok s!"{kind.text}[{inner}]"

mutual

/-- **The text of a type.** A function type in it must have a result, and
a type without arguments must be a word. -/
def text : TypeSpec → Except Failure String
  | mk kind args => do assemble kind (← texts args)

/-- The texts of several types. -/
def texts : List TypeSpec → Except Failure (List String)
  | [] => .ok []
  | t :: ts => do return (← text t) :: (← texts ts)

end

end TypeSpec

end EmberLang
