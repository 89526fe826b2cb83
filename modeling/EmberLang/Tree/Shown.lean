import EmberLang.Error
import EmberLang.Tree

/-!
# Nodes shown as data

Where a program text has room for a type, a tree may hold any node. Such
a node is shown as data: its class and its parts by name, without
positions. A type is shown as it is written, and a plain value by its
name or between quotes.
-/

namespace EmberLang

/-- The text of an integer, or the failure that it is too long. -/
def intText (n : Int) : Except Failure String :=
  match Decimal.intText? n with
  | some s => .ok s
  | none => .error .numeralTooLong

/-- A truth value as data. -/
def boolShown (b : Bool) : String := if b then "True" else "False"

namespace Atom

/-- **A plain value as data.** -/
def shown : Atom → Except Failure String
  | null => .ok "None"
  | bool b => .ok (boolShown b)
  | int n => intText n
  | real x => .ok (Decimal.realText x)
  | text s => .ok (Text.quoted s)

end Atom

namespace Literal

/-- The value of a literal as data. -/
def shown : Literal → Except Failure String
  | int n => intText n
  | real x => .ok (Decimal.realText x)
  | bool b => .ok (boolShown b)
  | char s => .ok (Text.quoted s)

end Literal

namespace Node

/-- Items between brackets. -/
def listShown (items : List String) : String :=
  let inner := ", ".intercalate items
  s!"[{inner}]"

/-- Names as data, in a list. -/
def namesShown (names : List Name) : String := listShown (names.map Name.shown)

/-- A class with its parts. -/
def recordShown (className : String) (parts : List (String × String)) : String :=
  let inner := ", ".intercalate (parts.map fun part => part.1 ++ "=" ++ part.2)
  s!"{className}({inner})"

mutual

/-- **A node as data.** -/
def shown : Node → Except Failure String
  | atom a => a.shown
  | typeSpec t => t.text
  | program _ ds b => do
    return recordShown "Program" [("declarations", ← listed ds), ("body", ← shown b)]
  | externDecl _ name tps pts r => do
    return recordShown "ExternDecl" [("name", name.shown), ("param_types", ← listed pts),
      ("return_type", ← shown r), ("type_params", namesShown tps)]
  | dataDecl _ name tps cs => do
    return recordShown "DataDecl" [("name", name.shown), ("type_params", namesShown tps),
      ("constructors", ← listed cs)]
  | constructorDecl _ name fts => do
    return recordShown "ConstructorDecl" [("name", name.shown), ("field_types", ← listed fts)]
  | typeDecl _ name tps t => do
    return recordShown "TypeDecl" [("name", name.shown), ("type_params", namesShown tps),
      ("type_spec", ← shown t)]
  | param _ name t => do
    return recordShown "Param" [("name", name.shown), ("type_spec", ← shown t)]
  | funDecl _ name tps ps b r => do
    return recordShown "FunDecl" [("name", name.shown), ("params", ← listed ps),
      ("body", ← shown b), ("return_type", ← shown r), ("type_params", namesShown tps)]
  | literal _ v => do
    return recordShown "Literal" [("value", ← v.shown), ("kind", Text.quoted v.kind.name)]
  | unit _ => .ok (recordShown "UnitLiteral" [])
  | var _ name => .ok (recordShown "Var" [("name", name.shown)])
  | call _ c as => do
    return recordShown "Call" [("callee", ← shown c), ("args", ← listed as)]
  | intrinsicCall _ op as => do
    return recordShown "IntrinsicCall" [("op", op.shown), ("args", ← listed as)]
  | directiveCall _ name as => do
    return recordShown "DirectiveCall" [("name", name.shown), ("args", ← listed as)]
  | construct _ c as => do
    return recordShown "Construct" [("constructor", c.shown), ("args", ← listed as)]
  | arm _ t b => do
    return recordShown "Arm" [("pattern", ← shown t), ("body", ← shown b)]
  | caseOf _ s as => do
    return recordShown "Case" [("scrutinee", ← shown s), ("arms", ← listed as)]
  | letIn _ name v b t => do
    return recordShown "Let" [("name", name.shown), ("value", ← shown v),
      ("body", ← shown b), ("type_spec", ← shown t)]
  | seq _ f r => do
    return recordShown "Seq" [("first", ← shown f), ("rest", ← shown r)]
  | lambda _ ps b => do
    return recordShown "Lambda" [("params", namesShown ps), ("body", ← shown b)]
  | block _ ds b => do
    return recordShown "Block" [("declarations", ← listed ds), ("body", ← shown b)]
  | patternVar _ name => .ok (recordShown "PatternVar" [("name", name.shown)])
  | patternWild _ => .ok (recordShown "PatternWild" [])
  | patternLit _ v => do
    return recordShown "PatternLit" [("value", ← v.shown), ("kind", Text.quoted v.kind.name)]
  | patternCtor _ c as => do
    return recordShown "PatternCtor" [("constructor", c.shown), ("args", ← listed as)]

/-- The texts of several nodes. -/
def shownAll : List Node → Except Failure (List String)
  | [] => .ok []
  | n :: ns => do return (← shown n) :: (← shownAll ns)

/-- Several nodes as data, in a list. -/
def listed : List Node → Except Failure String
  | [] => .ok (listShown [])
  | n :: ns => do return listShown ((← shown n) :: (← shownAll ns))

end

end Node

end EmberLang
