import EmberLang.Json.Coerce
import EmberLang.Tree

/-!
# Saved trees

A tree is saved as JSON: a node is an object with its class under
`type`, its parts under their names, and its position, if it has one,
under `pos`. A type is wrapped in an object of its own, marked by
`__type__`; a plain value is saved as itself.

Loading is lenient about what it finds and strict about what it misses.
Any plain value may stand for a node. A list may be given as anything
that has items: a string has its characters, an object its keys. A name
may be any value. Parts may be missing where a tree has a default for
them – types and type parameters – and literals are converted to the
kind they claim to have. Members are looked at in a fixed order, so that
the first fault decides.
-/

namespace EmberLang

/-! ## Saving -/

namespace TypeSpec

mutual

/-- **A type as JSON.** -/
def toJson : TypeSpec → Json
  | mk kind args => .obj [("kind", kind.toJson), ("args", .arr (toJsonAll args))]

/-- Several types as JSON. -/
def toJsonAll : List TypeSpec → List Json
  | [] => []
  | t :: ts => toJson t :: toJsonAll ts

end

end TypeSpec

namespace Atom

/-- A plain value as JSON. -/
def toJson : Atom → Json
  | null => .null
  | bool b => .bool b
  | int n => .int n
  | real x => .real x
  | text s => .str s

end Atom

namespace Literal

/-- The value of a literal as JSON. -/
def toJson : Literal → Json
  | int n => .int n
  | real x => .real x
  | bool b => .bool b
  | char s => .str s

end Literal

namespace Node

/-- Names as JSON. -/
def namesToJson (names : List Name) : Json := .arr (names.map Name.toJson)

/-- The member that keeps a position. -/
def positionMember : Option Position → List (String × Json)
  | none => []
  | some p => [("pos", .arr [.int p.line, .int p.column])]

/-- The object of a node: its class first, its position last. -/
def savedObject (className : String) (p : Option Position) (parts : List (String × Json)) : Json :=
  .obj (("type", .str className) :: parts ++ positionMember p)

mutual

/-- **A tree as JSON.** -/
def toJson : Node → Json
  | atom a => a.toJson
  | typeSpec t => .obj [("__type__", .str "TypeSpec"), ("value", t.toJson)]
  | program p ds b =>
    savedObject "Program" p [("declarations", .arr (toJsonAll ds)), ("body", toJson b)]
  | externDecl p name tps pts r =>
    savedObject "ExternDecl" p [("name", name.toJson), ("type_params", namesToJson tps),
      ("param_types", .arr (toJsonAll pts)), ("return_type", toJson r)]
  | dataDecl p name tps cs =>
    savedObject "DataDecl" p [("name", name.toJson), ("type_params", namesToJson tps),
      ("constructors", .arr (toJsonAll cs))]
  | constructorDecl p name fts =>
    savedObject "ConstructorDecl" p [("name", name.toJson), ("field_types", .arr (toJsonAll fts))]
  | typeDecl p name tps t =>
    savedObject "TypeDecl" p [("name", name.toJson), ("type_params", namesToJson tps),
      ("type_spec", toJson t)]
  | param p name t => savedObject "Param" p [("name", name.toJson), ("type_spec", toJson t)]
  | funDecl p name tps ps b r =>
    savedObject "FunDecl" p [("name", name.toJson), ("type_params", namesToJson tps),
      ("params", .arr (toJsonAll ps)), ("return_type", toJson r), ("body", toJson b)]
  | literal p v => savedObject "Literal" p [("value", v.toJson), ("kind", .str v.kind.name)]
  | unit p => savedObject "UnitLiteral" p []
  | var p name => savedObject "Var" p [("name", name.toJson)]
  | call p c as => savedObject "Call" p [("callee", toJson c), ("args", .arr (toJsonAll as))]
  | intrinsicCall p op as =>
    savedObject "IntrinsicCall" p [("op", op.toJson), ("args", .arr (toJsonAll as))]
  | directiveCall p name as =>
    savedObject "DirectiveCall" p [("name", name.toJson), ("args", .arr (toJsonAll as))]
  | construct p c as =>
    savedObject "Construct" p [("constructor", c.toJson), ("args", .arr (toJsonAll as))]
  | arm p t b => savedObject "Arm" p [("pattern", toJson t), ("body", toJson b)]
  | caseOf p s as =>
    savedObject "Case" p [("scrutinee", toJson s), ("arms", .arr (toJsonAll as))]
  | letIn p name v b t =>
    savedObject "Let" p [("name", name.toJson), ("type_spec", toJson t), ("value", toJson v),
      ("body", toJson b)]
  | seq p f r => savedObject "Seq" p [("first", toJson f), ("rest", toJson r)]
  | lambda p ps b => savedObject "Lambda" p [("params", namesToJson ps), ("body", toJson b)]
  | block p ds b =>
    savedObject "Block" p [("declarations", .arr (toJsonAll ds)), ("body", toJson b)]
  | patternVar p name => savedObject "PatternVar" p [("name", name.toJson)]
  | patternWild p => savedObject "PatternWild" p []
  | patternLit p v => savedObject "PatternLit" p [("value", v.toJson), ("kind", .str v.kind.name)]
  | patternCtor p c as =>
    savedObject "PatternCtor" p [("constructor", c.toJson), ("args", .arr (toJsonAll as))]

/-- Several trees as JSON. -/
def toJsonAll : List Node → List Json
  | [] => []
  | n :: ns => toJson n :: toJsonAll ns

end

end Node

/-! ## Loading -/

namespace Saved

/-- The value of a member that must be there. -/
def required (key : String) (members : List (String × Json)) : Except Failure Json :=
  match Json.member? key members with
  | some j => .ok j
  | none => .error (.decode (.missingField key))

/-- A name, which may be any value. -/
def name (key : String) (members : List (String × Json)) : Except Failure Name := do
  return .ofJson (← required key members)

/-- The items of a value that has items. -/
def itemsOf : Json → Except Failure (List Json)
  | .arr items => .ok items
  | .str s => .ok (s.toList.map fun c => .str c.toString)
  | .obj members => .ok (members.map fun m => .str m.1)
  | _ => .error (.decode .wrongType)

/-- A list of names. -/
def namesOf (j : Json) : Except Failure (List Name) := do
  return (← itemsOf j).map Name.ofJson

/-- A list of names that may be missing. -/
def optionalNames (key : String) (members : List (String × Json)) :
    Except Failure (List Name) :=
  match Json.member? key members with
  | some j => namesOf j
  | none => .ok []

/-- The item of a position at the given place. -/
def positionItem (j : Json) (index : Nat) : Except Failure Int :=
  match j with
  | .arr items =>
    match items[index]? with
    | some item => item.toInt
    | none => .error (.decode .shortPosition)
  | .str s =>
    match s.toList[index]? with
    | some c => (Json.str c.toString).toInt
    | none => .error (.decode .shortPosition)
  | .obj _ => .error (.decode .keyedPosition)
  | _ => .error (.decode .wrongType)

/-- **The position of a saved node**: two numbers, of which anything
after is ignored. -/
def position (members : List (String × Json)) : Except Failure (Option Position) :=
  match Json.member? "pos" members with
  | none => .ok none
  | some .null => .ok none
  | some j => do
    let line ← positionItem j 0
    let column ← positionItem j 1
    return some ⟨line, column⟩

/-- **The literal of a saved node.** Its kind is that of an integer
unless another is given, and it is looked at after the value. -/
def literal (members : List (String × Json)) : Except Failure Literal := do
  let kind := (Json.member? "kind" members).getD (.str "Int")
  let value ← required "value" members
  let known := match kind with
    | .str s => LiteralKind.ofName? s
    | _ => none
  match known with
  | some .int => return .int (← value.toInt)
  | some .real => return .real (← value.toReal)
  | some .bool => return .bool value.toBool
  | some .char => return .char value.toText
  | none => .error (.decode (.unknownLiteralKind kind.toText))

end Saved

namespace TypeSpec

mutual

/-- **A saved type.** -/
def ofJson : Json → Except Failure TypeSpec
  | .obj members => do
    let kind ← Saved.name "kind" members
    return mk kind (← argsIn members)
  | _ => .error (.decode .wrongType)

/-- The arguments among the members of a saved type, none if they are
missing. -/
def argsIn : List (String × Json) → Except Failure (List TypeSpec)
  | [] => .ok []
  | (key, j) :: rest => if key = "args" then listOfJson j else argsIn rest

/-- A list of saved types. Of the values that have items, only an empty
one can do in place of an array. -/
def listOfJson : Json → Except Failure (List TypeSpec)
  | .arr items => ofJsonAll items
  | .str s => if s.isEmpty then .ok [] else .error (.decode .wrongType)
  | .obj members => if members.isEmpty then .ok [] else .error (.decode .wrongType)
  | _ => .error (.decode .wrongType)

/-- Several saved types. -/
def ofJsonAll : List Json → Except Failure (List TypeSpec)
  | [] => .ok []
  | j :: js => do return (← ofJson j) :: (← ofJsonAll js)

end

end TypeSpec

namespace Node

/-- The class that a saved node claims. -/
def savedClass (members : List (String × Json)) : Json := (Json.member? "type" members).getD .null

/-- Whether the members are those of a type wrapped in an object. -/
def isSavedType (members : List (String × Json)) : Bool :=
  match Json.member? "__type__" members with
  | some (.str s) => s == "TypeSpec"
  | _ => false

/-- The nodes that stand for the items of what is no array. -/
def looseItems : Json → Except Failure (List Node)
  | .str s => .ok (s.toList.map fun c => .atom (.text c.toString))
  | .obj members => .ok (members.map fun m => .atom (.text m.1))
  | _ => .error (.decode .wrongType)

mutual

/-- **A saved tree.** -/
def ofJson : Json → Except Failure Node
  | .null => .ok (.atom .null)
  | .bool b => .ok (.atom (.bool b))
  | .int n => .ok (.atom (.int n))
  | .real x => .ok (.atom (.real x))
  | .str s => .ok (.atom (.text s))
  | .arr _ => .error (.decode .invalidObject)
  | .obj ms =>
    if isSavedType ms then do
      return .typeSpec (← TypeSpec.ofJson (← Saved.required "value" ms))
    else do
      let p ← Saved.position ms
      match savedClass ms with
      | .str "Program" =>
        let ds ← listAt "declarations" ms
        return program p ds (← nodeAt "body" ms)
      | .str "ExternDecl" =>
        let name ← Saved.name "name" ms
        let pts ← listAt "param_types" ms
        let r ← nodeAt "return_type" ms
        return externDecl p name (← Saved.optionalNames "type_params" ms) pts r
      | .str "DataDecl" =>
        let name ← Saved.name "name" ms
        let tps ← Saved.optionalNames "type_params" ms
        return dataDecl p name tps (← listAt "constructors" ms)
      | .str "ConstructorDecl" =>
        let name ← Saved.name "name" ms
        return constructorDecl p name (← listAt "field_types" ms)
      | .str "TypeDecl" =>
        let name ← Saved.name "name" ms
        let tps ← Saved.optionalNames "type_params" ms
        return typeDecl p name tps (← nodeAt "type_spec" ms)
      | .str "Param" =>
        let name ← Saved.name "name" ms
        return param p name (← optionalAt "type_spec" ms)
      | .str "FunDecl" =>
        let name ← Saved.name "name" ms
        let ps ← listAt "params" ms
        let b ← nodeAt "body" ms
        let r ← optionalAt "return_type" ms
        return funDecl p name (← Saved.optionalNames "type_params" ms) ps b r
      | .str "Literal" => return literal p (← Saved.literal ms)
      | .str "UnitLiteral" => return unit p
      | .str "Var" => return var p (← Saved.name "name" ms)
      | .str "Call" =>
        let c ← nodeAt "callee" ms
        return call p c (← listAt "args" ms)
      | .str "IntrinsicCall" =>
        let op ← Saved.name "op" ms
        return intrinsicCall p op (← listAt "args" ms)
      | .str "DirectiveCall" =>
        let name ← Saved.name "name" ms
        return directiveCall p name (← listAt "args" ms)
      | .str "Construct" =>
        let c ← Saved.name "constructor" ms
        return construct p c (← listAt "args" ms)
      | .str "Arm" =>
        let t ← nodeAt "pattern" ms
        return arm p t (← nodeAt "body" ms)
      | .str "Case" =>
        let s ← nodeAt "scrutinee" ms
        return caseOf p s (← listAt "arms" ms)
      | .str "Let" =>
        let name ← Saved.name "name" ms
        let v ← nodeAt "value" ms
        let b ← nodeAt "body" ms
        return letIn p name v b (← optionalAt "type_spec" ms)
      | .str "Seq" =>
        let f ← nodeAt "first" ms
        return seq p f (← nodeAt "rest" ms)
      | .str "Lambda" =>
        let ps ← Saved.namesOf (← Saved.required "params" ms)
        return lambda p ps (← nodeAt "body" ms)
      | .str "Block" =>
        let ds ← listAt "declarations" ms
        return block p ds (← nodeAt "body" ms)
      | .str "PatternVar" => return patternVar p (← Saved.name "name" ms)
      | .str "PatternWild" => return patternWild p
      | .str "PatternLit" => return patternLit p (← Saved.literal ms)
      | .str "PatternCtor" =>
        let c ← Saved.name "constructor" ms
        return patternCtor p c (← listAt "args" ms)
      | other => .error (.decode (.unknownNodeType other.toText))

/-- The node under a key that must be there. -/
def nodeAt (key : String) : List (String × Json) → Except Failure Node
  | [] => .error (.decode (.missingField key))
  | (k, j) :: rest => if k = key then ofJson j else nodeAt key rest

/-- The node under a key that may be missing. -/
def optionalAt (key : String) : List (String × Json) → Except Failure Node
  | [] => .ok absent
  | (k, j) :: rest => if k = key then ofJson j else optionalAt key rest

/-- The list of nodes under a key that must be there. -/
def listAt (key : String) : List (String × Json) → Except Failure (List Node)
  | [] => .error (.decode (.missingField key))
  | (k, j) :: rest => if k = key then listOfJson j else listAt key rest

/-- The nodes of a saved list. -/
def listOfJson : Json → Except Failure (List Node)
  | .arr items => ofJsonAll items
  | j => looseItems j

/-- Several saved trees. -/
def ofJsonAll : List Json → Except Failure (List Node)
  | [] => .ok []
  | j :: js => do return (← ofJson j) :: (← ofJsonAll js)

end

end Node

end EmberLang
