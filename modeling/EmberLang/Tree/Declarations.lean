import EmberLang.Constructor
import EmberLang.Tree.Walk

/-!
# Declarations and their clashes

A program and every block in it is a scope with declarations of its own.
Within a scope no two declarations share a name. Data types and their
constructors are known to the whole program, wherever they are
declared, so their names must differ everywhere; and a declaration that
is no data type must not take the name of a constructor.

All data types are entered into the table first, the program's before
those of its blocks in the order of the walk. The scopes are checked
after that, in the same order.
-/

namespace EmberLang.Node

/-- The declarations and the body of a node that has both. -/
def scope? : Node → Option (List Node × Node)
  | program _ declarations body => some (declarations, body)
  | block _ declarations body => some (declarations, body)
  | _ => none

/-- **The declaration scopes of a program**: its own, and those of the
blocks in the order of the walk. -/
def scopes (root : Node) (declarations : List Node) : List (List Node) :=
  declarations :: root.walk.filterMap fun
    | block _ ds _ => some ds
    | _ => none

/-- Whether a node declares a data type. -/
def isDataDecl : Node → Bool
  | dataDecl .. => true
  | _ => false

/-- Checks the names of a scope; `seen` holds those of the declarations
before. -/
def checkScope (table : ConstructorTable) (seen : List Name) : List Node → Except Failure Unit
  | [] => .ok ()
  | d :: ds =>
    match d.name? with
    | none => .error (.shape .missingPart)
    | some name => do
      name.check
      if seen.any (·.same name) || (!d.isDataDecl && table.contains name) then
        .error (.of (.duplicateDeclaration name.text) d.position?)
      else checkScope table (name :: seen) ds

/-- **Checks the declarations of a program** and gives the table of its
constructors. -/
def checkDeclarations (root : Node) : Except Failure ConstructorTable :=
  match root.scope? with
  | none => .error (.shape .missingPart)
  | some (declarations, _) => do
    let scopes := root.scopes declarations
    let table ← ConstructorTable.empty.declareAll scopes.flatten
    scopes.forM (checkScope table [])
    return table

end EmberLang.Node
