import EmberLang.Position
import EmberLang.Text.Quoted

/-!
# What can go wrong

There are two layers. An `Error` is a fault of the *program*: it has a
cause and, where one is known, a position, and its message is part of
what the language promises. A `Failure` is any way for an operation to
end without a result. Besides errors these are the limits of the
machine (calls nested too deeply, an integer too long to write), trees
that were put together by hand and lack a part the operation needs, and
the host's own failures.

Causes are kept as data; their wording is in `Cause.kind` and
`Cause.detail` and nowhere else.
-/

namespace EmberLang

/-- Why a foreign function cannot be called. -/
inductive ExternFault where
  /-- The program does not declare it. -/
  | undeclared
  /-- The host does not provide it. -/
  | unprovided
  /-- The host's function takes another number of arguments than the
  declaration says. -/
  | arity (native declared : Nat)
  deriving DecidableEq, Repr

/-- How a value fails to be of the kind that is needed. -/
inductive Mismatch where
  /-- A value of the given kind was called. -/
  | notCallable (kind : String)
  /-- An operand of an intrinsic, counted from one. -/
  | operand (op : String) (index : Nat) (wanted got : String)
  /-- A host function returned what is no value, shown as given. -/
  | result (native shown : String)
  /-- The argument of a console function. -/
  | argument (native wanted got : String)
  /-- A line typed at the console that is no numeral, shown as given. -/
  | numeral (native shown : String)
  /-- The host's own words. -/
  | stated (text : String)
  deriving DecidableEq, Repr

/-- **What is wrong with a program.** -/
inductive Cause where
  /-- No token begins with this character. -/
  | strayCharacter (c : Char)
  /-- Another token was needed; `found` describes the one that stood
  there. -/
  | unexpectedToken (expected : List String) (found : String)
  /-- The program is nested more deeply than the reader allows. -/
  | nestingTooDeep
  /-- Two constructors have one name. -/
  | duplicateConstructor (name : String)
  /-- Two declarations of a scope have one name, or a declaration has the
  name of a constructor. -/
  | duplicateDeclaration (name : String)
  /-- A variable without a value. -/
  | unboundVariable (name : String)
  /-- A foreign function that cannot be called. -/
  | unresolvedExtern (name : String) (fault : ExternFault)
  /-- A wrong number of arguments, fields or sub-patterns. -/
  | arity (callee : String) (expected got : Nat)
  /-- A wrong number of operands. -/
  | intrinsicArity (op : String) (expected got : Nat)
  /-- A value of the wrong kind. -/
  | typeMismatch (mismatch : Mismatch)
  /-- No arm of a case matches. -/
  | nonExhaustiveMatch (tag : String)
  /-- A constructor that is not declared. -/
  | unknownConstructor (name : String)
  /-- An intrinsic that is not in the table. -/
  | unknownIntrinsic (op : String) (known : List String)
  /-- A variable that occurs twice in one pattern. -/
  | duplicateBinding (name : String)
  /-- A division by zero. -/
  | divisionByZero (op : String)
  /-- A line was asked of a console that has no more. -/
  | closedInput
  deriving DecidableEq, Repr

namespace ExternFault

/-- The reason, as it stands in the message. -/
def text : ExternFault → String
  | undeclared => "no extern declaration"
  | unprovided => "no native implementation provided"
  | arity native declared => s!"native takes {native} argument(s), declared with {declared}"

end ExternFault

namespace Mismatch

/-- The wording of a mismatch. -/
def text : Mismatch → String
  | notCallable kind => s!"{kind} is not callable"
  | operand op index wanted got => s!"@{op} operand {index} must be {wanted}, got {got}"
  | result native shown => s!"native {native} returned unsupported value {shown}"
  | argument native wanted got => s!"{native} argument must be {wanted}, got {got}"
  | numeral native shown => s!"{native} expected an integer, got {shown}"
  | stated text => text

end Mismatch

/-- Names in alphabetical order, separated by commas. -/
def sortedNames (names : List String) : String :=
  ", ".intercalate (names.mergeSort fun a b => !(b < a))

namespace Cause

/-- **The kind of an error**, the first word of its message. -/
def kind : Cause → String
  | strayCharacter _ => "LexError"
  | unexpectedToken .. => "ParseError"
  | nestingTooDeep => "NestingDepthError"
  | duplicateConstructor _ => "DuplicateConstructorError"
  | duplicateDeclaration _ => "DuplicateDeclarationError"
  | unboundVariable _ => "UnboundVariableError"
  | unresolvedExtern .. => "UnresolvedExternError"
  | arity .. => "ArityError"
  | intrinsicArity .. => "IntrinsicArityError"
  | typeMismatch _ => "TypeMismatchError"
  | nonExhaustiveMatch _ => "NonExhaustiveMatchError"
  | unknownConstructor _ => "UnknownConstructorError"
  | unknownIntrinsic .. => "UnknownIntrinsicError"
  | duplicateBinding _ => "DuplicateBindingError"
  | divisionByZero _ => "DivisionByZeroError"
  | closedInput => "EmberError"

/-- **The wording of an error**, without its kind and position. -/
def detail : Cause → String
  | strayCharacter c => s!"unexpected character {Text.quoted c.toString}"
  | unexpectedToken expected found =>
    let wanted := " or ".intercalate expected
    s!"expected {wanted}, found {found}"
  | nestingTooDeep => "program nesting is too deep to parse"
  | duplicateConstructor name => s!"constructor {name} is already declared"
  | duplicateDeclaration name => s!"{name} is already declared"
  | unboundVariable name => s!"unbound variable {name}"
  | unresolvedExtern name fault => s!"unresolved extern {name} ({fault.text})"
  | arity callee expected got => s!"{callee} expects {expected} argument(s), got {got}"
  | intrinsicArity op expected got => s!"@{op} expects {expected} argument(s), got {got}"
  | typeMismatch mismatch => mismatch.text
  | nonExhaustiveMatch tag => s!"no case arm matches {tag}"
  | unknownConstructor name => s!"unknown constructor {name}"
  | unknownIntrinsic op known =>
    if known.isEmpty then s!"unknown intrinsic @{op}"
    else s!"unknown intrinsic @{op} (known: {sortedNames known})"
  | duplicateBinding name => s!"{name} is bound twice in one pattern"
  | divisionByZero op => s!"@{op} by zero"
  | closedInput => "read from closed input"

end Cause

/-- **A fault of a program**: its cause and where it lies. -/
structure Error where
  /-- What is wrong. -/
  cause : Cause
  /-- The position of the token or node at fault, if there is one. -/
  position : Option Position := none
  deriving DecidableEq, Repr

namespace Error

/-- **The message of an error.** -/
def message (e : Error) : String :=
  match e.position with
  | some p => s!"{e.cause.kind} at {p.text}: {e.cause.detail}"
  | none => s!"{e.cause.kind}: {e.cause.detail}"

end Error

/-- The operations that may meet a node they have no rule for. -/
inductive Pass where
  /-- Evaluation of an expression. -/
  | evaluation
  /-- Writing an expression. -/
  | expression
  /-- Writing a declaration. -/
  | declaration
  /-- Writing a pattern. -/
  | pattern
  deriving DecidableEq, Repr

/-- How a tree put together by hand fails an operation. -/
inductive ShapeFault where
  /-- A node stands where one with another part is needed, such as a
  declaration without a name. -/
  | missingPart
  /-- Something that is no node stands where a node is needed. -/
  | notANode
  /-- A list is too short, such as the parts of a function type without a
  result. -/
  | missingItem
  /-- What stands for a name is an array or an object where a name is
  looked up, or no word where words are listed. -/
  | unfitName
  deriving DecidableEq, Repr

/-- How a JSON value fails to be a saved tree. -/
inductive DecodeFault where
  /-- An object without the member. -/
  | missingField (key : String)
  /-- A list where a node is needed. -/
  | invalidObject
  /-- A node of an unknown type, as written. -/
  | unknownNodeType (written : String)
  /-- A literal of an unknown kind, as written. -/
  | unknownLiteralKind (written : String)
  /-- A value of another JSON type than is needed. -/
  | wrongType
  /-- A position of fewer than two numbers. -/
  | shortPosition
  /-- An object in the place of a position. -/
  | keyedPosition
  /-- A text or number that is no numeral of the kind. -/
  | badNumeral
  /-- A number beyond the range of its kind. -/
  | outOfRange
  deriving DecidableEq, Repr

/-- How a function of the host fails on its own. -/
inductive HostFault where
  /-- In its own words. -/
  | stated (text : String)
  /-- It was given a value that holds nothing it could use. -/
  | noContents
  /-- It was given too few arguments. -/
  | noArgument
  /-- It was given arguments of a kind it cannot use. -/
  | wrongKind
  /-- It was given a number or a text that stands for nothing. -/
  | badValue
  /-- It was given a number beyond the range of its result. -/
  | outOfRange
  deriving DecidableEq, Repr

/-- **Any way to end without a result.** -/
inductive Failure where
  /-- A fault of the program. -/
  | error (e : Error)
  /-- More calls are nested than the limit allows. -/
  | callsTooDeep
  /-- An integer is too long to be read or written. -/
  | numeralTooLong
  /-- A node of the named class has no rule in this pass. -/
  | misplaced (pass : Pass) (className : String)
  /-- A tree lacks a part. -/
  | shape (fault : ShapeFault)
  /-- A case was evaluated that had not been compiled. -/
  | uncompiledCase
  /-- A JSON value is no saved tree. -/
  | decode (fault : DecodeFault)
  /-- A text is no JSON. -/
  | badJson
  /-- An intrinsic was to be registered for operands of an unknown
  kind. -/
  | operandKind
  /-- The host failed. -/
  | host (fault : HostFault)
  /-- A path names a directory where a file is needed. -/
  | isDirectory
  deriving DecidableEq, Repr

namespace Pass

/-- How the message of a pass begins. -/
def complaint : Pass → String
  | evaluation => "evaluate: unexpected node type"
  | expression => "format_expr: unexpected node type"
  | declaration => "format_declaration: unexpected node type"
  | pattern => "format_pattern: unexpected pattern type"

end Pass

namespace Failure

/-- A failure by a fault of the program. -/
def of (cause : Cause) (position : Option Position := none) : Failure := .error ⟨cause, position⟩

/-- **The words of a failure**, for those that have any. -/
def message? : Failure → Option String
  | error e => some e.message
  | misplaced pass className => some s!"{pass.complaint} {className}"
  | decode (.missingField key) => some key
  | decode .invalidObject => some "Invalid AST object"
  | decode (.unknownNodeType written) => some s!"Unknown AST node type: {written}"
  | decode (.unknownLiteralKind written) => some s!"Unknown literal kind: {written}"
  | operandKind => some "intrinsic operands must be one of Int, Real, Bool, Char"
  | host (.stated text) => some text
  | _ => none

end Failure

end EmberLang
