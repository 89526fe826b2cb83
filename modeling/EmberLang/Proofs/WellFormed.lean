import EmberLang.Constructor
import EmberLang.Proofs.Scanning
import EmberLang.Tree.Printer

/-!
# Trees that have a text

Not every tree is the tree of some text: a name may be none that can be
written, a real may be infinite, a pattern may stand where an expression
belongs. The tests here say of each part of the language which nodes can
stand there, one function for each part and by recursion on the tree, so that
they can be run.

What a well-formed tree may hold beyond its shape depends on who asks. The
printer needs literals that read back, and a tree that has been resolved has
no variables named like constructors. Each such demand is a `Vocabulary`, and
the tests take it as a parameter. Two demands at once are the demand of the
conjunction – `isProgram_and`.
-/

namespace EmberLang

/-! ## Names, literals and types -/

namespace Name

/-- Whether a name is one that a text can hold: an identifier that is no
keyword. -/
def isIdent : Name → Bool
  | word s => (Lexeme.ident s).isProper
  | other _ => false

/-- Whether a name can stand after a sigil. -/
def isSigilName : Name → Bool
  | word s => (Lexeme.intrinsic s).isProper
  | other _ => false

end Name

/-- Whether a real is a number, and neither infinite nor none. -/
def Decimal.isFinite (x : Float) : Bool :=
  match magnitude x with
  | .finite _ _ => true
  | _ => false

namespace Literal

/-- **Whether a literal has a text that reads back**: a character has one
code point, an integer is not too long, a real is finite. -/
def isReadable : Literal → Bool
  | int n => Decimal.isPrintable n
  | real x => Decimal.isFinite x
  | bool _ => true
  | char s => s.length = 1

end Literal

namespace TypeSpec

mutual

/-- **Whether a type has a text that reads back**: it is the unit type, a
function type with a result, or a name applied to such types. -/
def isWritten : TypeSpec → Bool
  | mk kind args =>
    (kind.isWord "()" && args.isEmpty) || (kind.isWord "fun" && !args.isEmpty && areWritten args)
      || (kind.isIdent && areWritten args)

/-- Whether several types have texts. -/
def areWritten : List TypeSpec → Bool
  | [] => true
  | t :: ts => isWritten t && areWritten ts

end

theorem areWritten_iff {ts : List TypeSpec} :
    areWritten ts = true ↔ ∀ t ∈ ts, t.isWritten = true := by
  induction ts with
  | nil => simp [areWritten]
  | cons t ts ih => rw [areWritten, Bool.and_eq_true, ih, List.forall_mem_cons]

end TypeSpec

namespace Node

/-- Whether a node is a type that has a text. -/
def isType : Node → Bool
  | typeSpec t => t.isWritten
  | _ => false

/-- Whether a node is a type or nothing. -/
def isOptionalType : Node → Bool
  | atom .null => true
  | n => n.isType

/-! ## Trees -/

/-- **What may occur in a tree**: which literals, which variables, which
constructors, and whether a constructor without fields may be called. -/
structure Vocabulary where
  /-- The literals. -/
  literal : Literal → Bool
  /-- The variables. -/
  var : Name → Bool
  /-- The constructors. -/
  construct : Name → Bool
  /-- Whether a constructor without fields may be called. -/
  bareCalls : Bool

/-- Whether a node is a constructor without fields. -/
def isBareConstruct : Node → Bool
  | construct _ _ args => args.isEmpty
  | _ => false

/-- Whether a node can be declared in a block: foreign functions are
declared for the whole program only. -/
def isLocal : Node → Bool
  | externDecl .. => false
  | _ => true

/-- Whether a node is a parameter as written. -/
def isParam : Node → Bool
  | param _ name t => name.isIdent && t.isOptionalType
  | _ => false

/-- Whether a node is a constructor as declared. -/
def isConstructorDecl : Node → Bool
  | constructorDecl _ name fieldTypes => name.isIdent && fieldTypes.all isType
  | _ => false

mutual

/-- **Whether a node is a pattern.** -/
def isPattern (V : Vocabulary) : Node → Bool
  | patternWild _ => true
  | patternVar _ name => name.isIdent && !name.isWord "_"
  | patternLit _ v => V.literal v
  | patternCtor _ c args => c.isIdent && !c.isWord "_" && arePatterns V args
  | _ => false

/-- Whether some nodes are patterns. -/
def arePatterns (V : Vocabulary) : List Node → Bool
  | [] => true
  | n :: ns => isPattern V n && arePatterns V ns

end

theorem arePatterns_iff {V : Vocabulary} {ns : List Node} :
    arePatterns V ns = true ↔ ∀ n ∈ ns, n.isPattern V = true := by
  induction ns with
  | nil => simp [arePatterns]
  | cons n ns ih => rw [arePatterns, Bool.and_eq_true, ih, List.forall_mem_cons]

mutual

/-- **Whether a node is an expression** over a vocabulary. -/
def isExpression (V : Vocabulary) : Node → Bool
  | literal _ v => V.literal v
  | unit _ => true
  | var _ name => name.isIdent && V.var name
  | call _ callee args =>
    (V.bareCalls || !callee.isBareConstruct) && isExpression V callee && areExpressions V args
  | intrinsicCall _ op args => op.isSigilName && areExpressions V args
  | directiveCall _ name args => name.isSigilName && areExpressions V args
  | construct _ c args => c.isIdent && V.construct c && areExpressions V args
  | caseOf _ scrutinee arms => isExpression V scrutinee && !arms.isEmpty && areArms V arms
  | letIn _ name value body t =>
    name.isIdent && t.isOptionalType && isExpression V value && isExpression V body
  | seq _ first rest => isExpression V first && isExpression V rest
  | lambda _ params body => params.all Name.isIdent && isExpression V body
  | block _ ds body => ds.all isLocal && areDeclarations V ds && isExpression V body
  | _ => false

/-- Whether some nodes are expressions. -/
def areExpressions (V : Vocabulary) : List Node → Bool
  | [] => true
  | n :: ns => isExpression V n && areExpressions V ns

/-- Whether a node is an arm. -/
def isArm (V : Vocabulary) : Node → Bool
  | arm _ pattern body => isPattern V pattern && isExpression V body
  | _ => false

/-- Whether some nodes are arms. -/
def areArms (V : Vocabulary) : List Node → Bool
  | [] => true
  | n :: ns => isArm V n && areArms V ns

/-- **Whether a node is a declaration.** -/
def isDeclaration (V : Vocabulary) : Node → Bool
  | externDecl _ name tps paramTypes returnType =>
    name.isIdent && tps.all Name.isIdent && paramTypes.all isType && returnType.isType
  | dataDecl _ name tps constructors =>
    name.isIdent && tps.all Name.isIdent && !constructors.isEmpty
      && constructors.all isConstructorDecl
  | typeDecl _ name tps t => name.isIdent && tps.all Name.isIdent && t.isType
  | funDecl _ name tps params body returnType =>
    name.isIdent && tps.all Name.isIdent && params.all isParam && returnType.isOptionalType
      && isExpression V body
  | _ => false

/-- Whether some nodes are declarations. -/
def areDeclarations (V : Vocabulary) : List Node → Bool
  | [] => true
  | n :: ns => isDeclaration V n && areDeclarations V ns

end

theorem areExpressions_iff {V : Vocabulary} {ns : List Node} :
    areExpressions V ns = true ↔ ∀ n ∈ ns, n.isExpression V = true := by
  induction ns with
  | nil => simp [areExpressions]
  | cons n ns ih => rw [areExpressions, Bool.and_eq_true, ih, List.forall_mem_cons]

theorem areArms_iff {V : Vocabulary} {ns : List Node} :
    areArms V ns = true ↔ ∀ n ∈ ns, n.isArm V = true := by
  induction ns with
  | nil => simp [areArms]
  | cons n ns ih => rw [areArms, Bool.and_eq_true, ih, List.forall_mem_cons]

theorem areDeclarations_iff {V : Vocabulary} {ns : List Node} :
    areDeclarations V ns = true ↔ ∀ n ∈ ns, n.isDeclaration V = true := by
  induction ns with
  | nil => simp [areDeclarations]
  | cons n ns ih => rw [areDeclarations, Bool.and_eq_true, ih, List.forall_mem_cons]

/-- **Whether a node is a program** over a vocabulary. -/
def isProgram (V : Vocabulary) : Node → Bool
  | program _ ds body => areDeclarations V ds && isExpression V body
  | _ => false

/-! ## Two vocabularies at once -/

/-- **What two vocabularies both allow.** -/
def Vocabulary.and (V W : Vocabulary) : Vocabulary where
  literal v := V.literal v && W.literal v
  var name := V.var name && W.var name
  construct c := V.construct c && W.construct c
  bareCalls := V.bareCalls && W.bareCalls

variable {V W : Vocabulary}

theorem and_exchange (a b c d : Bool) : ((a && b) && (c && d)) = ((a && c) && (b && d)) := by
  ac_rfl

theorem and_both (a b c : Bool) : (a && (b && c)) = ((a && b) && (a && c)) := by
  rw [and_exchange, Bool.and_self]

mutual

theorem isPattern_and (n : Node) :
    n.isPattern (V.and W) = (n.isPattern V && n.isPattern W) := by
  cases n with
  | patternVar p name => exact (Bool.and_self _).symm
  | patternCtor p c args =>
    rw [isPattern, isPattern, isPattern, arePatterns_and args, and_both]
  | _ => rfl

theorem arePatterns_and (ns : List Node) :
    arePatterns (V.and W) ns = (arePatterns V ns && arePatterns W ns) := by
  cases ns with
  | nil => rfl
  | cons n ns =>
    rw [arePatterns, arePatterns, arePatterns, isPattern_and n, arePatterns_and ns,
      and_exchange]

end

mutual

/-- A node is an expression over two vocabularies at once exactly if it is
one over each of them. -/
theorem isExpression_and (n : Node) :
    n.isExpression (V.and W) = (n.isExpression V && n.isExpression W) := by
  cases n with
  | var p name =>
    have hvar : (V.and W).var name = (V.var name && W.var name) := rfl
    rw [isExpression, isExpression, isExpression, hvar, and_both]
  | call p callee args =>
    have hbare : (V.and W).bareCalls = (V.bareCalls && W.bareCalls) := rfl
    rw [isExpression, isExpression, isExpression, hbare, isExpression_and callee,
      areExpressions_and args]
    grind
  | intrinsicCall p op args =>
    rw [isExpression, isExpression, isExpression, areExpressions_and args,
      and_both]
  | directiveCall p name args =>
    rw [isExpression, isExpression, isExpression, areExpressions_and args,
      and_both]
  | construct p c args =>
    have hc : (V.and W).construct c = (V.construct c && W.construct c) := rfl
    rw [isExpression, isExpression, isExpression, hc, areExpressions_and args]
    grind
  | caseOf p scrutinee arms =>
    rw [isExpression, isExpression, isExpression, isExpression_and scrutinee, areArms_and arms]
    grind
  | letIn p name value body t =>
    rw [isExpression, isExpression, isExpression, isExpression_and value, isExpression_and body]
    grind
  | seq p first rest =>
    rw [isExpression, isExpression, isExpression, isExpression_and first, isExpression_and rest,
      and_exchange]
  | lambda p params body =>
    rw [isExpression, isExpression, isExpression, isExpression_and body,
      and_both]
  | block p ds body =>
    rw [isExpression, isExpression, isExpression, areDeclarations_and ds, isExpression_and body]
    grind
  | _ => rfl

theorem areExpressions_and (ns : List Node) :
    areExpressions (V.and W) ns = (areExpressions V ns && areExpressions W ns) := by
  cases ns with
  | nil => rfl
  | cons n ns =>
    rw [areExpressions, areExpressions, areExpressions, isExpression_and n,
      areExpressions_and ns, and_exchange]

theorem isArm_and (n : Node) : n.isArm (V.and W) = (n.isArm V && n.isArm W) := by
  cases n with
  | arm p pattern body =>
    rw [isArm, isArm, isArm, isPattern_and pattern, isExpression_and body,
      and_exchange]
  | _ => rfl

theorem areArms_and (ns : List Node) :
    areArms (V.and W) ns = (areArms V ns && areArms W ns) := by
  cases ns with
  | nil => rfl
  | cons n ns =>
    rw [areArms, areArms, areArms, isArm_and n, areArms_and ns, and_exchange]

theorem isDeclaration_and (n : Node) :
    n.isDeclaration (V.and W) = (n.isDeclaration V && n.isDeclaration W) := by
  cases n with
  | externDecl p name tps paramTypes returnType => exact (Bool.and_self _).symm
  | dataDecl p name tps constructors => exact (Bool.and_self _).symm
  | typeDecl p name tps t => exact (Bool.and_self _).symm
  | funDecl p name tps params body returnType =>
    rw [isDeclaration, isDeclaration, isDeclaration, isExpression_and body,
      and_both]
  | _ => rfl

theorem areDeclarations_and (ns : List Node) :
    areDeclarations (V.and W) ns = (areDeclarations V ns && areDeclarations W ns) := by
  cases ns with
  | nil => rfl
  | cons n ns =>
    rw [areDeclarations, areDeclarations, areDeclarations, isDeclaration_and n,
      areDeclarations_and ns, and_exchange]

end

/-- **A program over two vocabularies at once** is one over each of
them. -/
theorem isProgram_and (root : Node) :
    root.isProgram (V.and W) = (root.isProgram V && root.isProgram W) := by
  cases root with
  | program p ds body =>
    rw [isProgram, isProgram, isProgram, areDeclarations_and ds, isExpression_and body,
      and_exchange]
  | _ => rfl

end Node

end EmberLang
