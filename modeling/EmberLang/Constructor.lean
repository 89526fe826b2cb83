import EmberLang.Error
import EmberLang.Tree

/-!
# The table of constructors

A constructor belongs to one data type and takes a fixed number of
fields. The table keeps the data types in the order of their
declaration, each with its constructors in theirs; a constructor is
found by its name alone, which no two constructors of a table share.

Declaring a type either adds it as a whole or fails and adds nothing.
-/

namespace EmberLang

/-- **A constructor**: its name, the data type that owns it, and how many
fields it takes. -/
structure Constructor where
  /-- Its name. -/
  name : Name
  /-- The type that owns it. -/
  typeName : Name
  /-- The number of its fields. -/
  arity : Nat

/-- **A table of constructors**: the data types in the order of their
declaration, with their constructors in order. -/
structure ConstructorTable where
  /-- The types and their constructors. -/
  types : List (Name × List Constructor)

namespace ConstructorTable

/-- The table without types. -/
def empty : ConstructorTable := ⟨[]⟩

/-- All constructors, type by type. -/
def all (t : ConstructorTable) : List Constructor := t.types.flatMap (·.2)

/-- The names of the types, in the order of their declaration. -/
def typeNames (t : ConstructorTable) : List Name := t.types.map (·.1)

/-- The number of constructors. -/
def size (t : ConstructorTable) : Nat := t.all.length

/-- The constructor with the given name. -/
def get? (t : ConstructorTable) (name : Name) : Option Constructor :=
  t.all.find? (·.name.same name)

/-- Whether the name is that of a constructor. -/
def contains (t : ConstructorTable) (name : Name) : Bool := (t.get? name).isSome

/-- The constructors of a type, none if there is no such type. -/
def constructorsOf (t : ConstructorTable) (typeName : Name) : List Constructor :=
  ((t.types.find? (·.1.same typeName)).map (·.2)).getD []

/-- The constructor with the given name, or the error that there is
none. -/
def lookup (t : ConstructorTable) (name : Name) (position : Option Position) :
    Except Failure Constructor := do
  name.check
  match t.get? name with
  | some c => return c
  | none => .error (.of (.unknownConstructor name.text) position)

/-- The constructors of a declaration, in order; `done` holds those
before. A name must be new to the table and to the declaration. -/
def newConstructors (t : ConstructorTable) (typeName : Name) (done : List Constructor) :
    List Node → Except Failure (List Constructor)
  | [] => .ok done
  | n :: ns =>
    match n.name? with
    | none => .error (.shape .missingPart)
    | some name => do
      name.check
      if t.contains name || done.any (·.name.same name) then
        .error (.of (.duplicateConstructor name.text) n.position?)
      else
        match n.arity? with
        | none => .error (.shape .missingPart)
        | some arity => newConstructors t typeName (done ++ [⟨name, typeName, arity⟩]) ns

/-- **Declares a data type**: its name must be new, and so must be the
names of its constructors. -/
def declare (t : ConstructorTable) (position : Option Position) (typeName : Name)
    (constructors : List Node) : Except Failure ConstructorTable := do
  typeName.check
  if t.typeNames.any (·.same typeName) then
    .error (.of (.duplicateDeclaration typeName.text) position)
  else
    let cs ← t.newConstructors typeName [] constructors
    return ⟨t.types ++ [(typeName, cs)]⟩

/-- Declares the data types among some nodes, in order. -/
def declareAll (t : ConstructorTable) : List Node → Except Failure ConstructorTable
  | [] => .ok t
  | .dataDecl position name _ constructors :: rest => do
    (← t.declare position name constructors).declareAll rest
  | _ :: rest => t.declareAll rest

end ConstructorTable

end EmberLang
