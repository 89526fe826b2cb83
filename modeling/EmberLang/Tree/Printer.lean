import EmberLang.Tree.Declarations
import EmberLang.Tree.Shown

/-!
# From a tree to program text

A tree is written with two blanks of indentation for each level. Local
definitions and sequences are written line by line where a sequence may
stand; in the place of an expression they go between `begin` and `end`,
and as the body of an arm or of a function without a name between
braces. A function without a name is put in parentheses when it is
called. Otherwise the text of a node is the text of its parts with the
marks of the grammar between them, so that reading it gives the tree
back.

Nodes out of place have no text: the writer stops with the class of the
node, or with the part that it misses. Names that are no words show as
their texts within a line, and cannot be listed. A node that is nothing
but a name is written as that name, whatever it is.
-/

namespace EmberLang

namespace Literal

/-- The text of a literal, or the failure that it is too long. -/
def text (l : Literal) : Except Failure String :=
  match l.text? with
  | some s => .ok s
  | none => .error .numeralTooLong

end Literal

namespace Node

/-- The blanks that a line begins with. -/
def pad (indent : Nat) : String := String.ofList (List.replicate (2 * indent) ' ')

/-- Texts with commas between them. -/
def commas (texts : List String) : String := ", ".intercalate texts

/-- Texts on lines of their own. -/
def lines (texts : List String) : String := "\n".intercalate texts

/-- The type parameters of a declaration. -/
def typeParamsText (names : List Name) : Except Failure String :=
  if names.isEmpty then .ok "" else do return "[" ++ (← Name.commas names) ++ "]"

/-- A type after a mark, nothing if the type is absent. -/
def typeAfter (mark : String) : Node → Except Failure String
  | atom .null => .ok ""
  | t => do return mark ++ (← t.shown)

/-! ## Bare names -/

/-- **The name that a node is written as**, if it is written as a name
and nothing else. -/
def bareName? : Node → Option Name
  | var _ name => some name
  | construct _ c [] => some c
  | patternVar _ name => some name
  | _ => none

/-- Texts with commas between them, for nodes in a list. A bare name in a
list must be a word. -/
def listText (nodes : List Node) (texts : List String) : Except Failure String := do
  (nodes.filterMap bareName?).forM Name.needWord
  return commas texts

/-- What a node is written as, given its text: a bare name as it is, and
else the text. -/
def written (n : Node) (text : String) : Name := n.bareName?.getD text

/-! ## Patterns -/

mutual

/-- **The text of a pattern.** -/
def patternText : Node → Except Failure String
  | patternWild _ => .ok "_"
  | patternVar _ name => .ok name.text
  | patternLit _ value => value.text
  | patternCtor _ c args => do
    return c.text ++ "(" ++ (← listText args (← patternTexts args)) ++ ")"
  | n => .error (.misplaced .pattern n.className)

/-- The texts of several patterns. -/
def patternTexts : List Node → Except Failure (List String)
  | [] => .ok []
  | n :: ns => do return (← patternText n) :: (← patternTexts ns)

end

/-! ## Declarations without bodies -/

/-- The name and the type of a parameter. Any node that has both parts
can stand for one. -/
def paramParts? : Node → Option (Name × Node)
  | param _ name t => some (name, t)
  | typeDecl _ name _ t => some (name, t)
  | letIn _ name _ _ t => some (name, t)
  | _ => none

/-- The name and the optional type of a parameter. -/
def paramText (n : Node) : Except Failure String :=
  match n.paramParts? with
  | some (name, t) => do return name.text ++ (← typeAfter ": " t)
  | none => .error (.shape .missingPart)

/-- The name that a parameter without a type is written as. -/
def bareParam? (n : Node) : Option Name :=
  match n.paramParts? with
  | some (name, atom .null) => some name
  | _ => none

/-- The texts of several parameters. -/
def paramTexts : List Node → Except Failure (List String)
  | [] => .ok []
  | n :: ns => do return (← paramText n) :: (← paramTexts ns)

/-- The parameters of a function with commas between them. -/
def paramList (params : List Node) : Except Failure String := do
  let texts ← paramTexts params
  (params.filterMap bareParam?).forM Name.needWord
  return commas texts

/-- A constructor in the declaration of its type. -/
def constructorText : Node → Except Failure String
  | constructorDecl _ name fieldTypes => do
    let fields ← shownAll fieldTypes
    return if fields.isEmpty then name.text else name.text ++ "(" ++ commas fields ++ ")"
  | _ => .error (.shape .missingPart)

/-- The lines of the constructors of a type. -/
def constructorLines (indent : Nat) : List Node → Except Failure (List String)
  | [] => .ok []
  | n :: ns => do
    return (pad (indent + 1) ++ "| " ++ (← constructorText n)) :: (← constructorLines indent ns)

/-- The declaration of a foreign function. -/
def externText (name : Name) (tps : List Name) (paramTypes : List Node) (returnType : Node) :
    Except Failure String := do
  let tps ← typeParamsText tps
  let params ← shownAll paramTypes
  return "extern " ++ name.text ++ tps ++ " : fun(" ++ commas params ++ ") -> "
    ++ (← returnType.shown) ++ ";"

/-- The first line of the declaration of a function, up to its body. -/
def funHeader (name : Name) (tps : List Name) (params : List Node) (returnType : Node) :
    Except Failure String := do
  let params ← paramList params
  let result ← typeAfter " -> " returnType
  return "fun " ++ name.text ++ (← typeParamsText tps) ++ "(" ++ params ++ ")" ++ result ++ " =>"

/-- What has a body but no pattern is no arm. -/
def patternless (_ : String) : Except Failure String := .error (.shape .missingPart)

/-- A lambda in the place of a callee is put in parentheses. -/
def calleeText (callee : Node) (text : String) : String :=
  match callee with
  | lambda .. => "(" ++ text ++ ")"
  | _ => text

/-! ## Expressions, sequences and declarations -/

/-- **The places of an expression**, which differ in how they hold local
definitions and sequences. -/
inductive Place where
  /-- Among the parts of another expression. -/
  | operand
  /-- The body of an arm or of a function without a name. -/
  | body
  /-- Where a sequence stands, line by line. -/
  | items

namespace Place

/-- The indentation of the items of a sequence in this place. -/
def itemIndent (indent : Nat) : Place → Nat
  | items => indent
  | _ => indent + 1

/-- The text of a sequence in this place, from that of its items. -/
def enclose (indent : Nat) (text : String) : Place → String
  | operand => "begin\n" ++ text ++ "\n" ++ pad indent ++ "end"
  | body => "\x7b\n" ++ text ++ "\n" ++ pad indent ++ "\x7d"
  | items => text

/-- The text of any other expression in this place. -/
def put (indent : Nat) (text : String) : Place → String
  | items => pad indent ++ text
  | _ => text

end Place

mutual

/-- **The text of an expression** in a place; its further lines are
indented by the given number of levels. -/
def phrase (place : Place) (indent : Nat) : Node → Except Failure String
  | letIn _ name value body valueType => do
    let inner := place.itemIndent indent
    let valueType ← typeAfter ": " valueType
    let text ← phrase .operand inner value
    let rest ← phrase .items inner body
    return place.enclose indent
      (pad inner ++ "let " ++ name.text ++ valueType ++ " = " ++ text ++ ";\n" ++ rest)
  | seq _ first rest => do
    let inner := place.itemIndent indent
    let text ← phrase .operand inner first
    let rest ← phrase .items inner rest
    return place.enclose indent (pad inner ++ text ++ ";\n" ++ rest)
  | literal _ value => do return place.put indent (← value.text)
  | unit _ => .ok (place.put indent "()")
  | var _ name => .ok (place.put indent name.text)
  | construct _ c args => do
    let text ← listText args (← phrases indent args)
    return place.put indent (if args.isEmpty then c.text else c.text ++ "(" ++ text ++ ")")
  | call _ callee args => do
    let text ← phrase .operand indent callee
    let args ← listText args (← phrases indent args)
    return place.put indent (calleeText callee text ++ "(" ++ args ++ ")")
  | intrinsicCall _ op args => do
    let args ← listText args (← phrases indent args)
    return place.put indent ("@" ++ op.text ++ "(" ++ args ++ ")")
  | directiveCall _ name args => do
    let args ← listText args (← phrases indent args)
    return place.put indent ("#" ++ name.text ++ "(" ++ args ++ ")")
  | caseOf _ scrutinee arms => do
    let head ← phrase .operand indent scrutinee
    let arms ← armLines indent arms
    return place.put indent (lines (("case " ++ head ++ " of") :: arms ++ [pad indent ++ "end"]))
  | lambda _ params body => do
    let params ← Name.commas params
    return place.put indent ("fn(" ++ params ++ ") => " ++ (← phrase .body indent body))
  | block _ declarations body => do
    let ds ← declarationTexts (indent + 1) declarations
    let items ← phrase .items (indent + 1) body
    return place.put indent
      (lines ("begin" :: ds ++ [pad indent ++ "in", items, pad indent ++ "end"]))
  | n => .error (.misplaced .expression n.className)

/-- The texts of several expressions among the parts of another. -/
def phrases (indent : Nat) : List Node → Except Failure (List String)
  | [] => .ok []
  | n :: ns => do return (← phrase .operand indent n) :: (← phrases indent ns)

/-- The lines of the arms of a case. -/
def armLines (indent : Nat) : List Node → Except Failure (List String)
  | [] => .ok []
  | n :: ns => do return (← armLine indent n) :: (← armLines indent ns)

/-- The line of an arm. Its body is written before its pattern is looked
at, and so is the body of a node that has one but is no arm. -/
def armLine (indent : Nat) : Node → Except Failure String
  | arm _ pattern body => do
    let text ← phrase .body (indent + 1) body
    return pad (indent + 1) ++ "| " ++ (← patternText pattern) ++ " => " ++ text
  | program _ _ body => do patternless (← phrase .body (indent + 1) body)
  | funDecl _ _ _ _ body _ => do patternless (← phrase .body (indent + 1) body)
  | letIn _ _ _ body _ => do patternless (← phrase .body (indent + 1) body)
  | lambda _ _ body => do patternless (← phrase .body (indent + 1) body)
  | block _ _ body => do patternless (← phrase .body (indent + 1) body)
  | _ => .error (.shape .missingPart)

/-- **The text of a declaration.** -/
def declarationText (indent : Nat) : Node → Except Failure String
  | externDecl _ name tps paramTypes returnType => do
    return pad indent ++ (← externText name tps paramTypes returnType)
  | dataDecl _ name tps constructors => do
    let tps ← typeParamsText tps
    let cs ← constructorLines indent constructors
    return lines ((pad indent ++ "data " ++ name.text ++ tps ++ " =")
      :: cs ++ [pad indent ++ "end;"])
  | typeDecl _ name tps t => do
    let tps ← typeParamsText tps
    return pad indent ++ "type " ++ name.text ++ tps ++ " = " ++ (← t.shown) ++ ";"
  | funDecl _ name tps params body returnType => do
    let header ← funHeader name tps params returnType
    let items ← phrase .items (indent + 1) body
    return lines [pad indent ++ header ++ " \x7b", items, pad indent ++ "\x7d"]
  | n => .error (.misplaced .declaration n.className)

/-- The texts of several declarations. -/
def declarationTexts (indent : Nat) : List Node → Except Failure (List String)
  | [] => .ok []
  | n :: ns => do return (← declarationText indent n) :: (← declarationTexts indent ns)

end

/-- **What an expression is written as** in a place of its own. -/
def writtenExpression (indent : Nat) (n : Node) : Except Failure Name := do
  return n.written (← n.phrase .operand indent)

/-- **What a pattern is written as** in a place of its own. -/
def writtenPattern (n : Node) : Except Failure Name := do
  return n.written (← n.patternText)

/-- **The text of a program**, or of any node with declarations and a
body. -/
def programText (root : Node) : Except Failure String :=
  match root.scope? with
  | none => .error (.shape .missingPart)
  | some (declarations, body) => do
    let ds ← declarationTexts 1 declarations
    let items ← phrase .items 1 body
    return lines ("begin" :: ds ++ ["in", items, "end"]) ++ "\n"

end Node

end EmberLang
