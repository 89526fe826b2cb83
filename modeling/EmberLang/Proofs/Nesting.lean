import EmberLang.Tree.Printer

/-!
# How deeply a tree is nested

A text is read with a bounded number of levels, and a phrase within a
phrase is read one level further in. This module says how many levels
the text of a tree needs: `TypeSpec.depth` for types, `Node.patternDepth`
for patterns, `Node.depth` for expressions and `Node.programDepth` for a
whole program.

Not every step into the tree costs a level. The callee of a call is read
at the level of the call, but each list of arguments in a row of calls
takes one (`Node.spine`). A local definition and a sequence stand bare in
a body or in braces; as operands they are put between `begin` and `end`,
which costs one level more. A sequence is an item and, one level in, the
sequence of the items after it.
-/

namespace EmberLang

namespace TypeSpec

mutual

/-- The levels that a type needs. -/
def depth : TypeSpec → Nat
  | mk _ args => 1 + depthAll args

/-- The levels that several types need. -/
def depthAll : List TypeSpec → Nat
  | [] => 0
  | t :: ts => max (depth t) (depthAll ts)

end

theorem depthAll_le_iff {ts : List TypeSpec} {k : Nat} :
    depthAll ts ≤ k ↔ ∀ t ∈ ts, t.depth ≤ k := by
  induction ts with
  | nil => simp [depthAll]
  | cons t ts ih => rw [depthAll, Nat.max_le, ih, List.forall_mem_cons]

end TypeSpec

namespace Node

/-- The levels that a type needs as a part of a tree. -/
def typeDepth : Node → Nat
  | typeSpec t => t.depth
  | _ => 0

/-- The levels that the type of a parameter needs. -/
def paramDepth : Node → Nat
  | param _ _ t => t.typeDepth
  | _ => 0

/-- The most that any of several nodes needs. -/
def maxDepth (depth : Node → Nat) : List Node → Nat
  | [] => 0
  | n :: ns => max (depth n) (maxDepth depth ns)

theorem maxDepth_le_iff {depth : Node → Nat} {ns : List Node} {k : Nat} :
    maxDepth depth ns ≤ k ↔ ∀ n ∈ ns, depth n ≤ k := by
  induction ns with
  | nil => simp [maxDepth]
  | cons n ns ih => rw [maxDepth, Nat.max_le, ih, List.forall_mem_cons]

/-- The levels that the fields of a constructor need. -/
def constructorDepth : Node → Nat
  | constructorDecl _ _ fieldTypes => maxDepth typeDepth fieldTypes
  | _ => 0

mutual

/-- The levels that a pattern needs. -/
def patternDepth : Node → Nat
  | patternCtor _ _ args => 1 + patternsDepth args
  | _ => 1

/-- The levels that several patterns need. -/
def patternsDepth : List Node → Nat
  | [] => 0
  | n :: ns => max (patternDepth n) (patternsDepth ns)

end

/-- The number of lists of arguments in a row. -/
def spine : Node → Nat
  | call _ callee _ => callee.spine + 1
  | construct _ _ args => if args.isEmpty then 0 else 1
  | _ => 0

/-- The levels of a callee: a function without a name is put in
parentheses. -/
def calleeDepth (callee : Node) (d : Nat) : Nat :=
  match callee with
  | lambda .. => 1 + d
  | _ => d

/-- The levels of a sequence in a place. -/
def Place.depth (d : Nat) : Place → Nat
  | operand => 1 + d
  | body => d
  | items => d

mutual

/-- **The levels that an expression needs** in a place. -/
def depth (place : Place) : Node → Nat
  | call _ callee args =>
    max (callee.calleeDepth (depth .operand callee)) (1 + max (callee.spine + 1) (depthAll args))
  | intrinsicCall _ _ args => 1 + depthAll args
  | directiveCall _ _ args => 1 + depthAll args
  | construct _ _ args => if args.isEmpty then 1 else 1 + max 1 (depthAll args)
  | caseOf _ scrutinee arms => 1 + max (depth .operand scrutinee) (armsDepth arms)
  | letIn _ _ value body t =>
    place.depth (1 + max t.typeDepth (max (depth .operand value) (depth .items body)))
  | seq _ first rest => place.depth (max (depth .operand first) (1 + depth .items rest))
  | lambda _ _ body => 1 + depth .body body
  | block _ ds body => 1 + max (declarationsDepth ds) (depth .items body)
  | _ => 1

/-- The levels that several expressions need. -/
def depthAll : List Node → Nat
  | [] => 0
  | n :: ns => max (depth .operand n) (depthAll ns)

/-- The levels that an arm needs. -/
def armDepth : Node → Nat
  | arm _ pattern body => max pattern.patternDepth (depth .body body)
  | _ => 0

/-- The levels that several arms need. -/
def armsDepth : List Node → Nat
  | [] => 0
  | n :: ns => max (armDepth n) (armsDepth ns)

/-- The levels that a declaration needs. -/
def declarationDepth : Node → Nat
  | externDecl _ _ _ paramTypes returnType =>
    1 + max (maxDepth typeDepth paramTypes) returnType.typeDepth
  | dataDecl _ _ _ constructors => maxDepth constructorDepth constructors
  | typeDecl _ _ _ t => t.typeDepth
  | funDecl _ _ _ params body returnType =>
    max (maxDepth paramDepth params) (max returnType.typeDepth (depth .items body))
  | _ => 0

/-- The levels that several declarations need. -/
def declarationsDepth : List Node → Nat
  | [] => 0
  | n :: ns => max (declarationDepth n) (declarationsDepth ns)

end

/-- Every expression needs a level. -/
theorem depth_pos (place : Place) (n : Node) : 0 < n.depth place := by
  cases n with
  | letIn p name value body t =>
    rw [depth]
    cases place <;> (rw [Place.depth]; omega)
  | seq p first rest =>
    rw [depth]
    cases place <;> (rw [Place.depth]; omega)
  | construct p c args =>
    rw [depth]
    split <;> omega
  | _ => simp only [depth]; omega

theorem depthAll_eq_maxDepth (ns : List Node) : depthAll ns = maxDepth (depth .operand) ns := by
  induction ns with
  | nil => rfl
  | cons n ns ih => rw [depthAll, maxDepth, ih]

theorem armsDepth_eq_maxDepth (ns : List Node) : armsDepth ns = maxDepth armDepth ns := by
  induction ns with
  | nil => rfl
  | cons n ns ih => rw [armsDepth, maxDepth, ih]

theorem declarationsDepth_eq_maxDepth (ns : List Node) :
    declarationsDepth ns = maxDepth declarationDepth ns := by
  induction ns with
  | nil => rfl
  | cons n ns ih => rw [declarationsDepth, maxDepth, ih]

/-- **The levels that a program needs.** -/
def programDepth : Node → Nat
  | program _ ds body => max (declarationsDepth ds) (depth .items body)
  | _ => 0

end Node

end EmberLang
