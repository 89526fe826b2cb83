import EmberLang.Literal
import EmberLang.Position
import EmberLang.TypeSpec

/-!
# Program trees

A program is a tree of nodes. There is one type of nodes for everything
a tree can hold – declarations, expressions, patterns, and the arms and
parameters that only occur inside them – because a tree need not come
from a program text: it may have been saved, edited and loaded again.
Nothing then keeps a pattern out of the place of an expression, or a
plain number out of the place of any node. Such a tree is still a tree:
it can be walked, saved and in part even run, and every operation says
for itself what it does at a node out of place.

So each place holds a `Node`, and two constructors stand for what is no
node of a program at all: `atom` for a plain value, and `typeSpec` for a
type as written. A missing type is the atom `null`. For the same reason
the names in a tree are values of `Name`, most of which are words.
-/

namespace EmberLang

/-- A plain value in the place of a node. -/
inductive Atom where
  | null
  | bool (b : Bool)
  | int (n : Int)
  | real (x : Float)
  | text (s : String)
  deriving DecidableEq

/-- **A node of a program tree.** Nodes carry the position of the text
they were read from, if they were read from one. -/
inductive Node where
  /-- A plain value, which is no node. -/
  | atom (a : Atom)
  /-- A type as written, which is no node either. -/
  | typeSpec (t : TypeSpec)
  /-- A whole program. -/
  | program (pos : Option Position) (declarations : List Node) (body : Node)
  /-- The declaration of a foreign function. -/
  | externDecl (pos : Option Position) (name : Name) (typeParams : List Name)
      (paramTypes : List Node) (returnType : Node)
  /-- The declaration of a data type. -/
  | dataDecl (pos : Option Position) (name : Name) (typeParams : List Name)
      (constructors : List Node)
  /-- A constructor of a data type. -/
  | constructorDecl (pos : Option Position) (name : Name) (fieldTypes : List Node)
  /-- A name for a type. -/
  | typeDecl (pos : Option Position) (name : Name) (typeParams : List Name) (aliased : Node)
  /-- A parameter of a declared function. -/
  | param (pos : Option Position) (name : Name) (paramType : Node)
  /-- The declaration of a function. -/
  | funDecl (pos : Option Position) (name : Name) (typeParams : List Name)
      (params : List Node) (body : Node) (returnType : Node)
  /-- A constant. -/
  | literal (pos : Option Position) (value : Literal)
  /-- The unit value. -/
  | unit (pos : Option Position)
  /-- A variable. -/
  | var (pos : Option Position) (name : Name)
  /-- A call of a function. -/
  | call (pos : Option Position) (callee : Node) (args : List Node)
  /-- An application of an intrinsic. -/
  | intrinsicCall (pos : Option Position) (op : Name) (args : List Node)
  /-- A foreign call for its effect alone. -/
  | directiveCall (pos : Option Position) (name : Name) (args : List Node)
  /-- An application of a constructor. -/
  | construct (pos : Option Position) (constructor : Name) (args : List Node)
  /-- An arm of a case. -/
  | arm (pos : Option Position) (pattern : Node) (body : Node)
  /-- A choice by patterns. -/
  | caseOf (pos : Option Position) (scrutinee : Node) (arms : List Node)
  /-- A local definition. -/
  | letIn (pos : Option Position) (name : Name) (value : Node) (body : Node) (valueType : Node)
  /-- Two expressions in order, the first for its effect. -/
  | seq (pos : Option Position) (first : Node) (rest : Node)
  /-- A function without a name. -/
  | lambda (pos : Option Position) (params : List Name) (body : Node)
  /-- Local declarations over an expression. -/
  | block (pos : Option Position) (declarations : List Node) (body : Node)
  /-- The pattern that binds a name, or names a constructor without
  fields. -/
  | patternVar (pos : Option Position) (name : Name)
  /-- The pattern that matches everything. -/
  | patternWild (pos : Option Position)
  /-- The pattern that matches one constant. -/
  | patternLit (pos : Option Position) (value : Literal)
  /-- The pattern that matches a constructor. -/
  | patternCtor (pos : Option Position) (constructor : Name) (args : List Node)

namespace Node

/-- Nothing at all, in the place of a node. -/
abbrev absent : Node := .atom .null

/-- The position of a node. -/
def position? : Node → Option Position
  | atom _ => none
  | typeSpec _ => none
  | program p .. => p
  | externDecl p .. => p
  | dataDecl p .. => p
  | constructorDecl p .. => p
  | typeDecl p .. => p
  | param p .. => p
  | funDecl p .. => p
  | literal p .. => p
  | unit p => p
  | var p .. => p
  | call p .. => p
  | intrinsicCall p .. => p
  | directiveCall p .. => p
  | construct p .. => p
  | arm p .. => p
  | caseOf p .. => p
  | letIn p .. => p
  | seq p .. => p
  | lambda p .. => p
  | block p .. => p
  | patternVar p .. => p
  | patternWild p => p
  | patternLit p .. => p
  | patternCtor p .. => p

/-- **The class of a node**, as saved trees and messages name it. -/
def className : Node → String
  | atom .null => "NoneType"
  | atom (.bool _) => "bool"
  | atom (.int _) => "int"
  | atom (.real _) => "float"
  | atom (.text _) => "str"
  | typeSpec _ => "TypeSpec"
  | program .. => "Program"
  | externDecl .. => "ExternDecl"
  | dataDecl .. => "DataDecl"
  | constructorDecl .. => "ConstructorDecl"
  | typeDecl .. => "TypeDecl"
  | param .. => "Param"
  | funDecl .. => "FunDecl"
  | literal .. => "Literal"
  | unit _ => "UnitLiteral"
  | var .. => "Var"
  | call .. => "Call"
  | intrinsicCall .. => "IntrinsicCall"
  | directiveCall .. => "DirectiveCall"
  | construct .. => "Construct"
  | arm .. => "Arm"
  | caseOf .. => "Case"
  | letIn .. => "Let"
  | seq .. => "Seq"
  | lambda .. => "Lambda"
  | block .. => "Block"
  | patternVar .. => "PatternVar"
  | patternWild _ => "PatternWild"
  | patternLit .. => "PatternLit"
  | patternCtor .. => "PatternCtor"

/-- Whether this is a node of a program, and not a plain value or a type
in the place of one. -/
def isNode : Node → Bool
  | atom _ => false
  | typeSpec _ => false
  | _ => true

/-- **The name a node declares, binds or refers to**, for the nodes that
have one. -/
def name? : Node → Option Name
  | externDecl _ name .. => some name
  | dataDecl _ name .. => some name
  | constructorDecl _ name .. => some name
  | typeDecl _ name .. => some name
  | param _ name .. => some name
  | funDecl _ name .. => some name
  | var _ name => some name
  | directiveCall _ name _ => some name
  | letIn _ name .. => some name
  | patternVar _ name => some name
  | _ => none

/-- What identifies a node in a listing: its name, its constructor or its
operation, if that does not count as missing. -/
def label? (n : Node) : Option Name :=
  let label := match n with
    | intrinsicCall _ op _ => some op
    | construct _ constructor _ => some constructor
    | patternCtor _ constructor _ => some constructor
    | _ => n.name?
  label.filter fun name => !name.isBlank

/-- The number of arguments a declaration takes: the fields of a
constructor, the parameters of a foreign function. -/
def arity? : Node → Option Nat
  | constructorDecl _ _ fieldTypes => some fieldTypes.length
  | externDecl _ _ _ paramTypes _ => some paramTypes.length
  | _ => none

end Node

end EmberLang
