import EmberLang.Proofs.Outcome
import EmberLang.Proofs.Positions
import EmberLang.Proofs.Unresolve
import EmberLang.Tree.Resolve

/-!
# Resolving names

Where every name is a word, resolving the names of a tree cannot fail, and
what it gives is a function of the tree: `Node.resolved`. That function
says the same as the checked one (`Node.resolve_eq_resolved`) and is what
the other facts are about.
-/

namespace EmberLang.Node

mutual

/-- **An expression with its names resolved.** -/
def resolved (t : ConstructorTable) : Node → Node
  | var p name => if t.contains name then construct p name [] else var p name
  | call p callee args =>
    match callee with
    | var q name =>
      if t.contains name then construct p name (resolvedAll t args)
      else call p (var q name) (resolvedAll t args)
    | _ => call p (resolved t callee) (resolvedAll t args)
  | construct p c args => construct p c (resolvedAll t args)
  | intrinsicCall p op args => intrinsicCall p op (resolvedAll t args)
  | directiveCall p name args => directiveCall p name (resolvedAll t args)
  | caseOf p scrutinee arms => caseOf p (resolved t scrutinee) (resolvedArms t arms)
  | letIn p name value body valueType => letIn p name (resolved t value) (resolved t body) valueType
  | seq p first rest => seq p (resolved t first) (resolved t rest)
  | lambda p params body => lambda p params (resolved t body)
  | block p ds body => block p (resolvedDeclarations t ds) (resolved t body)
  | n => n

/-- Several expressions with their names resolved. -/
def resolvedAll (t : ConstructorTable) : List Node → List Node
  | [] => []
  | n :: ns => resolved t n :: resolvedAll t ns

/-- An arm with its names resolved. -/
def resolvedArm (t : ConstructorTable) : Node → Node
  | arm p pattern body => arm p pattern (resolved t body)
  | n => n

/-- Several arms with their names resolved. -/
def resolvedArms (t : ConstructorTable) : List Node → List Node
  | [] => []
  | n :: ns => resolvedArm t n :: resolvedArms t ns

/-- A declaration with its names resolved. -/
def resolvedDeclaration (t : ConstructorTable) : Node → Node
  | funDecl p name tps params body returnType =>
    funDecl p name tps params (resolved t body) returnType
  | n => n

/-- Several declarations with their names resolved. -/
def resolvedDeclarations (t : ConstructorTable) : List Node → List Node
  | [] => []
  | n :: ns => resolvedDeclaration t n :: resolvedDeclarations t ns

end

variable {V : Vocabulary} {t : ConstructorTable}

/-- Whether a node is a variable. -/
def isVar : Node → Bool
  | var .. => true
  | _ => false

theorem resolve_call {callee : Node} (h : callee.isVar = false) (p : Option Position)
    (args : List Node) :
    resolve t (call p callee args)
      = (do let args ← resolveAll t args; return call p (← resolve t callee) args) := by
  rw [resolve]
  cases callee with
  | var q name => cases h
  | _ => rfl

theorem resolved_call {callee : Node} (h : callee.isVar = false) (p : Option Position)
    (args : List Node) :
    resolved t (call p callee args) = call p (resolved t callee) (resolvedAll t args) := by
  rw [resolved]
  rintro q name rfl
  cases h

theorem check_of_isIdent {name : Name} (h : name.isIdent = true) : name.check = .ok () := by
  cases name with
  | word s => rfl
  | other j => cases h

mutual

/-- **Where names are words, resolving gives the resolved tree.** -/
theorem resolve_eq_resolved (n : Node) (h : n.isExpression V = true) :
    resolve t n = .ok (resolved t n) := by
  cases n with
  | var p name =>
    rw [isExpression, Bool.and_eq_true] at h
    rw [resolve, check_of_isIdent h.1, resolved]
    rfl
  | call p callee args =>
    rw [isExpression, Bool.and_eq_true, Bool.and_eq_true] at h
    have hcallee := resolve_eq_resolved callee h.1.2
    have hargs := resolveAll_eq_resolvedAll args h.2
    cases hvar : callee.isVar with
    | false =>
      rw [resolve_call hvar, resolved_call hvar, hcallee, hargs]
      rfl
    | true =>
      cases callee with
      | var q name =>
        rw [isExpression, Bool.and_eq_true] at h
        rw [resolve, hargs, resolved]
        show (do name.check; if t.contains name then _ else _) = _
        rw [check_of_isIdent h.1.2.1]
        show (if t.contains name then _ else _) = _
        split <;> rfl
      | _ => cases hvar
  | construct p c args =>
    rw [isExpression, Bool.and_eq_true, Bool.and_eq_true] at h
    rw [resolve, resolveAll_eq_resolvedAll args h.2, resolved]
    rfl
  | intrinsicCall p op args =>
    rw [isExpression, Bool.and_eq_true] at h
    rw [resolve, resolveAll_eq_resolvedAll args h.2, resolved]
    rfl
  | directiveCall p name args =>
    rw [isExpression, Bool.and_eq_true] at h
    rw [resolve, resolveAll_eq_resolvedAll args h.2, resolved]
    rfl
  | caseOf p scrutinee arms =>
    rw [isExpression, Bool.and_eq_true, Bool.and_eq_true] at h
    rw [resolve, resolveArms_eq_resolvedArms arms h.2, resolve_eq_resolved scrutinee h.1.1,
      resolved]
    rfl
  | letIn p name value body valueType =>
    rw [isExpression, Bool.and_eq_true, Bool.and_eq_true] at h
    rw [resolve, resolve_eq_resolved value h.1.2, resolve_eq_resolved body h.2, resolved]
    rfl
  | seq p first rest =>
    rw [isExpression, Bool.and_eq_true] at h
    rw [resolve, resolve_eq_resolved first h.1, resolve_eq_resolved rest h.2, resolved]
    rfl
  | lambda p params body =>
    rw [isExpression, Bool.and_eq_true] at h
    rw [resolve, resolve_eq_resolved body h.2, resolved]
    rfl
  | block p ds body =>
    rw [isExpression, Bool.and_eq_true, Bool.and_eq_true] at h
    rw [resolve, resolveDeclarations_eq_resolvedDeclarations ds h.1.2, resolve_eq_resolved body h.2,
      resolved]
    rfl
  | literal p v => rfl
  | unit p => rfl
  | _ => cases h

theorem resolveAll_eq_resolvedAll (ns : List Node) (h : areExpressions V ns = true) :
    resolveAll t ns = .ok (resolvedAll t ns) := by
  cases ns with
  | nil => rfl
  | cons n ns =>
    rw [areExpressions, Bool.and_eq_true] at h
    rw [resolveAll, resolve_eq_resolved n h.1, resolveAll_eq_resolvedAll ns h.2, resolvedAll]
    rfl

theorem resolveArms_eq_resolvedArms (ns : List Node) (h : areArms V ns = true) :
    resolveArms t ns = .ok (resolvedArms t ns) := by
  cases ns with
  | nil => rfl
  | cons n ns =>
    rw [areArms, Bool.and_eq_true] at h
    rw [resolveArms, resolveArms_eq_resolvedArms ns h.2, resolvedArms]
    cases n with
    | arm p pattern body =>
      rw [isArm, Bool.and_eq_true] at h
      rw [resolveArm, resolve_eq_resolved body h.1.2, resolvedArm]
      rfl
    | _ => cases h.1

theorem resolveDeclarations_eq_resolvedDeclarations (ns : List Node)
    (h : areDeclarations V ns = true) :
    resolveDeclarations t ns = .ok (resolvedDeclarations t ns) := by
  cases ns with
  | nil => rfl
  | cons n ns =>
    rw [areDeclarations, Bool.and_eq_true] at h
    rw [resolveDeclarations, resolveDeclarations_eq_resolvedDeclarations ns h.2,
      resolvedDeclarations]
    cases n with
    | funDecl p name tps params body returnType =>
      rw [isDeclaration, Bool.and_eq_true] at h
      rw [resolveDeclaration, resolve_eq_resolved body h.1.2, resolvedDeclaration]
      rfl
    | _ => rfl

end

/-! ## Positions do not matter -/

theorem isVar_erase (n : Node) : n.erase.isVar = n.isVar := by cases n <;> rfl

mutual

/-- **Resolving names leaves positions alone.** -/
theorem resolved_erase (n : Node) : resolved t n.erase = (resolved t n).erase := by
  cases n with
  | var p name =>
    rw [erase, resolved, resolved]
    split <;> rfl
  | call p callee args =>
    cases hvar : callee.isVar with
    | false =>
      rw [resolved_call hvar, erase, erase, resolved_call ((isVar_erase callee).trans hvar),
        resolved_erase callee, resolvedAll_eraseAll args]
    | true =>
      cases callee with
      | var q name =>
        rw [erase, erase, resolved, resolved, resolvedAll_eraseAll args]
        split <;> rfl
      | _ => cases hvar
  | construct p c args => rw [erase, resolved, resolved, erase, resolvedAll_eraseAll args]
  | intrinsicCall p op args => rw [erase, resolved, resolved, erase, resolvedAll_eraseAll args]
  | directiveCall p name args => rw [erase, resolved, resolved, erase, resolvedAll_eraseAll args]
  | caseOf p scrutinee arms =>
    rw [erase, resolved, resolved, erase, resolved_erase scrutinee, resolvedArms_eraseAll arms]
  | letIn p name value body valueType =>
    rw [erase, resolved, resolved, erase, resolved_erase value, resolved_erase body]
  | seq p first rest =>
    rw [erase, resolved, resolved, erase, resolved_erase first, resolved_erase rest]
  | lambda p params body => rw [erase, resolved, resolved, erase, resolved_erase body]
  | block p ds body =>
    rw [erase, resolved, resolved, erase, resolvedDeclarations_eraseAll ds, resolved_erase body]
  | _ => rfl

theorem resolvedAll_eraseAll (ns : List Node) :
    resolvedAll t (eraseAll ns) = eraseAll (resolvedAll t ns) := by
  cases ns with
  | nil => rfl
  | cons n ns =>
    rw [eraseAll, resolvedAll, resolvedAll, eraseAll, resolved_erase n, resolvedAll_eraseAll ns]

theorem resolvedArms_eraseAll (ns : List Node) :
    resolvedArms t (eraseAll ns) = eraseAll (resolvedArms t ns) := by
  cases ns with
  | nil => rfl
  | cons n ns =>
    rw [eraseAll, resolvedArms, resolvedArms, eraseAll, resolvedArms_eraseAll ns]
    cases n with
    | arm p pattern body => rw [erase, resolvedArm, resolvedArm, erase, resolved_erase body]
    | _ => rfl

theorem resolvedDeclarations_eraseAll (ns : List Node) :
    resolvedDeclarations t (eraseAll ns) = eraseAll (resolvedDeclarations t ns) := by
  cases ns with
  | nil => rfl
  | cons n ns =>
    rw [eraseAll, resolvedDeclarations, resolvedDeclarations, eraseAll,
      resolvedDeclarations_eraseAll ns]
    cases n with
    | funDecl p name tps params body returnType =>
      rw [erase, resolvedDeclaration, resolvedDeclaration, erase, resolved_erase body]
    | _ => rfl

end

theorem isOptionalType_erase (n : Node) : n.erase.isOptionalType = n.isOptionalType := by
  cases n <;> rfl

theorem isType_erase (n : Node) : n.erase.isType = n.isType := by cases n <;> rfl

theorem all_eraseAll {f : Node → Bool} (h : ∀ n, f n.erase = f n) (ns : List Node) :
    (eraseAll ns).all f = ns.all f := by
  rw [eraseAll_eq_map, List.all_map]
  exact congrArg ns.all (funext h)

theorem isParam_erase (n : Node) : n.erase.isParam = n.isParam := by
  cases n with
  | param p name t => rw [erase, isParam, isParam, isOptionalType_erase]
  | _ => rfl

theorem isConstructorDecl_erase (n : Node) : n.erase.isConstructorDecl = n.isConstructorDecl := by
  cases n with
  | constructorDecl p name fts =>
    rw [erase, isConstructorDecl, isConstructorDecl, all_eraseAll isType_erase]
  | _ => rfl

theorem isBareConstruct_erase (n : Node) : n.erase.isBareConstruct = n.isBareConstruct := by
  cases n with
  | construct p c args =>
    rw [erase, isBareConstruct, isBareConstruct, eraseAll_eq_map, List.isEmpty_map]
  | _ => rfl

theorem isLocal_erase (n : Node) : n.erase.isLocal = n.isLocal := by cases n <;> rfl

theorem isEmpty_eraseAll (ns : List Node) : (eraseAll ns).isEmpty = ns.isEmpty := by
  rw [eraseAll_eq_map, List.isEmpty_map]

mutual

theorem isPattern_erase (n : Node) : n.erase.isPattern V = n.isPattern V := by
  cases n <;> simp only [erase, isPattern, arePatterns_eraseAll]

theorem arePatterns_eraseAll (ns : List Node) :
    arePatterns V (eraseAll ns) = arePatterns V ns := by
  cases ns <;> simp only [eraseAll, arePatterns, isPattern_erase, arePatterns_eraseAll]

end

mutual

/-- **Whether a node is an expression does not hang on positions.** -/
theorem isExpression_erase (n : Node) : n.erase.isExpression V = n.isExpression V := by
  cases n <;> simp only [erase, isExpression, isBareConstruct_erase, isOptionalType_erase,
    all_eraseAll isLocal_erase, isEmpty_eraseAll, isExpression_erase, areExpressions_eraseAll,
    areArms_eraseAll, areDeclarations_eraseAll]

theorem areExpressions_eraseAll (ns : List Node) :
    areExpressions V (eraseAll ns) = areExpressions V ns := by
  cases ns <;> simp only [eraseAll, areExpressions, isExpression_erase, areExpressions_eraseAll]

theorem areArms_eraseAll (ns : List Node) : areArms V (eraseAll ns) = areArms V ns := by
  cases ns with
  | nil => rfl
  | cons n ns =>
    rw [eraseAll, areArms, areArms, areArms_eraseAll ns]
    cases n with
    | arm p pattern body =>
      rw [erase, isArm, isArm, isPattern_erase pattern, isExpression_erase body]
    | _ => rfl

theorem areDeclarations_eraseAll (ns : List Node) :
    areDeclarations V (eraseAll ns) = areDeclarations V ns := by
  cases ns with
  | nil => rfl
  | cons n ns =>
    rw [eraseAll, areDeclarations, areDeclarations, areDeclarations_eraseAll ns]
    cases n with
    | externDecl p name tps paramTypes returnType =>
      rw [erase, isDeclaration, isDeclaration, all_eraseAll isType_erase, isType_erase]
    | dataDecl p name tps constructors =>
      rw [erase, isDeclaration, isDeclaration, all_eraseAll isConstructorDecl_erase,
        isEmpty_eraseAll]
    | typeDecl p name tps aliased => rw [erase, isDeclaration, isDeclaration, isType_erase]
    | funDecl p name tps params body returnType =>
      rw [erase, isDeclaration, isDeclaration, all_eraseAll isParam_erase, isOptionalType_erase,
        isExpression_erase body]
    | _ => rfl

end

theorem isProgram_erase (n : Node) : n.erase.isProgram V = n.isProgram V := by
  cases n with
  | program p ds body =>
    rw [erase, isProgram, isProgram, areDeclarations_eraseAll, isExpression_erase]
  | _ => rfl

/-! ## What is lost in a text -/

/-- **The vocabulary of programs with resolved names**: variables are not
constructors of the table, and constructors are. -/
def Vocabulary.resolved (t : ConstructorTable) (literal : Literal → Bool) (bareCalls : Bool) :
    Vocabulary :=
  ⟨literal, fun name => !t.contains name, t.contains, bareCalls⟩

/-- The same literals, apart from those whose texts read as names. -/
def unnamed (L : Literal → Bool) (v : Literal) : Bool := L v && v.name?.isNone

variable {L : Literal → Bool}

theorem unnamed_of_some {v : Literal} {name : Name} (h : v.name? = some name) :
    unnamed L v = false := by
  rw [unnamed, h]
  exact Bool.and_false _

theorem unnamed_of_none {v : Literal} (h : v.name? = none) : unnamed L v = L v := by
  rw [unnamed, h]
  exact Bool.and_true _

mutual

theorem unresolvedPattern_alike_iff (n : Node) (h : n.isPattern (.resolved t L true) = true) :
    n.unresolvedPattern.erase = n.erase
      ↔ n.isPattern (.resolved t (unnamed L) false) = true := by
  cases n with
  | patternWild p => exact ⟨fun _ => rfl, fun _ => rfl⟩
  | patternVar p name => exact ⟨fun _ => h, fun _ => rfl⟩
  | patternLit p v =>
    rw [unresolvedPattern, isPattern]
    show _ ↔ unnamed L v = true
    cases hname : v.name? with
    | none => exact ⟨fun _ => (unnamed_of_none hname).trans h, fun _ => rfl⟩
    | some name =>
      rw [unnamed_of_some hname]
      exact ⟨nofun, nofun⟩
  | patternCtor p c args =>
    rw [isPattern, Bool.and_eq_true] at h
    rw [unresolvedPattern, erase, erase, isPattern, patternCtor.injEq, h.1, Bool.true_and,
      ← unresolvedPatterns_alike_iff args h.2]
    exact ⟨fun e => e.2.2, fun e => ⟨rfl, rfl, e⟩⟩
  | _ => cases h

theorem unresolvedPatterns_alike_iff (ns : List Node)
    (h : arePatterns (.resolved t L true) ns = true) :
    eraseAll (unresolvedPatterns ns) = eraseAll ns
      ↔ arePatterns (.resolved t (unnamed L) false) ns = true := by
  cases ns with
  | nil => exact ⟨fun _ => rfl, fun _ => rfl⟩
  | cons n ns =>
    rw [arePatterns, Bool.and_eq_true] at h
    rw [unresolvedPatterns, eraseAll, eraseAll, arePatterns, Bool.and_eq_true, List.cons.injEq,
      unresolvedPattern_alike_iff n h.1, unresolvedPatterns_alike_iff ns h.2]

end

theorem isBareConstruct_eq_false {n : Node} (h : n.unresolved.isVar = false) :
    n.isBareConstruct = false := by
  cases n with
  | construct p c args =>
    cases args with
    | nil => cases h
    | cons a as => rfl
  | _ => rfl

/-- Of the callees that are written as a name, only a variable comes back. A
literal is read as a variable, and a constructor without fields takes the
arguments for its own. -/
theorem resolved_namedCall_iff (p : Option Position) {callee : Node} {args : List Node}
    (h : callee.isExpression (.resolved t L true) = true) (hvar : callee.unresolved.isVar = true)
    (hargs : eraseAll (resolvedAll t (unresolvedAll args)) = eraseAll args
      ↔ areExpressions (.resolved t (unnamed L) false) args = true) :
    (resolved t (call p callee.unresolved (unresolvedAll args))).erase = (call p callee args).erase
      ↔ (call p callee args).isExpression (.resolved t (unnamed L) false) = true := by
  rw [isExpression, Bool.and_eq_true, Bool.and_eq_true]
  cases callee with
  | var q name =>
    have hshape := h
    rw [isExpression, Bool.and_eq_true] at hshape
    have hname : t.contains name = false := Bool.not_eq_true' _ ▸ hshape.2
    show (resolved t (call p (var q name) (unresolvedAll args))).erase = _ ↔ _
    rw [resolved, hname, if_neg Bool.false_ne_true, erase, erase, erase, erase, call.injEq, hargs]
    exact ⟨fun e => ⟨⟨rfl, h⟩, e.2.2⟩, fun e => ⟨rfl, rfl, e.2⟩⟩
  | literal q v =>
    rw [unresolved] at hvar ⊢
    cases hname : v.name? with
    | none =>
      rw [hname] at hvar
      cases hvar
    | some name =>
      have hliteral : (literal q v).isExpression (.resolved t (unnamed L) false) = false :=
        unnamed_of_some hname
      rw [hliteral]
      dsimp only
      rw [resolved]
      split <;> exact ⟨nofun, nofun⟩
  | construct q c args' =>
    cases args' with
    | nil =>
      rw [isExpression, Bool.and_eq_true, Bool.and_eq_true] at h
      have hc : t.contains c = true := h.1.2
      show (resolved t (call p (var q c) (unresolvedAll args))).erase = _ ↔ _
      rw [resolved, hc, if_pos rfl]
      exact ⟨nofun, fun e => nomatch e.1.1⟩
    | cons a as => cases hvar
  | _ => cases hvar

mutual

/-- **A tree comes back from its text exactly if** no literal in it reads
as a name and no constructor without fields is called. -/
theorem resolved_unresolved_iff (n : Node) (h : n.isExpression (.resolved t L true) = true) :
    (resolved t n.unresolved).erase = n.erase
      ↔ n.isExpression (.resolved t (unnamed L) false) = true := by
  cases n with
  | literal p v =>
    rw [unresolved, isExpression]
    show _ ↔ unnamed L v = true
    cases hname : v.name? with
    | none => exact ⟨fun _ => (unnamed_of_none hname).trans h, fun _ => rfl⟩
    | some name =>
      rw [unnamed_of_some hname]
      dsimp only
      rw [resolved]
      split <;> exact ⟨nofun, nofun⟩
  | unit p => exact ⟨fun _ => rfl, fun _ => rfl⟩
  | var p name =>
    have hvar : t.contains name = false := by
      rw [isExpression, Bool.and_eq_true] at h
      exact Bool.not_eq_true' _ ▸ h.2
    refine ⟨fun _ => h, fun _ => ?_⟩
    show (resolved t (var p name)).erase = _
    rw [resolved, hvar]
    rfl
  | construct p c args =>
    rw [isExpression, Bool.and_eq_true, Bool.and_eq_true] at h
    have hc : t.contains c = true := h.1.2
    cases args with
    | nil =>
      refine ⟨fun _ => ?_, fun _ => ?_⟩
      · rw [isExpression, h.1.1]
        exact congrArg (· && true) hc
      · show (resolved t (var p c)).erase = _
        rw [resolved, hc]
        rfl
    | cons n ns =>
      rw [unresolved, if_neg (by simp), resolved, hc, if_pos rfl, erase, erase, construct.injEq,
        resolvedAll_unresolvedAll_iff (n :: ns) h.2, isExpression, Bool.and_eq_true,
        Bool.and_eq_true]
      exact ⟨fun e => ⟨h.1, e.2.2⟩, fun e => ⟨rfl, rfl, e.2⟩⟩
  | call p callee args =>
    rw [isExpression, Bool.and_eq_true, Bool.and_eq_true] at h
    have hcallee := resolved_unresolved_iff callee h.1.2
    have hargs := resolvedAll_unresolvedAll_iff args h.2
    rw [unresolved]
    cases hvar : callee.unresolved.isVar with
    | false =>
      rw [resolved_call hvar, erase, erase, call.injEq, hcallee, hargs, isExpression,
        Bool.and_eq_true, Bool.and_eq_true, isBareConstruct_eq_false hvar]
      exact ⟨fun e => ⟨⟨rfl, e.2.1⟩, e.2.2⟩, fun e => ⟨rfl, e.1.2, e.2⟩⟩
    | true => exact resolved_namedCall_iff p h.1.2 hvar hargs
  | intrinsicCall p op args =>
    rw [isExpression, Bool.and_eq_true] at h
    rw [unresolved, resolved, erase, erase, intrinsicCall.injEq, isExpression, h.1, Bool.true_and,
      resolvedAll_unresolvedAll_iff args h.2]
    exact ⟨fun e => e.2.2, fun e => ⟨rfl, rfl, e⟩⟩
  | directiveCall p name args =>
    rw [isExpression, Bool.and_eq_true] at h
    rw [unresolved, resolved, erase, erase, directiveCall.injEq, isExpression, h.1, Bool.true_and,
      resolvedAll_unresolvedAll_iff args h.2]
    exact ⟨fun e => e.2.2, fun e => ⟨rfl, rfl, e⟩⟩
  | caseOf p scrutinee arms =>
    rw [isExpression, Bool.and_eq_true, Bool.and_eq_true] at h
    rw [unresolved, resolved, erase, erase, caseOf.injEq, isExpression, h.1.2, Bool.and_true,
      Bool.and_eq_true, resolved_unresolved_iff scrutinee h.1.1,
      resolvedArms_unresolvedArms_iff arms h.2]
    exact ⟨fun e => e.2, fun e => ⟨rfl, e⟩⟩
  | letIn p name value body valueType =>
    rw [isExpression, Bool.and_eq_true, Bool.and_eq_true] at h
    rw [unresolved, resolved, erase, erase, letIn.injEq, isExpression, h.1.1, Bool.true_and,
      Bool.and_eq_true, resolved_unresolved_iff value h.1.2, resolved_unresolved_iff body h.2]
    exact ⟨fun e => ⟨e.2.2.1, e.2.2.2.1⟩, fun e => ⟨rfl, rfl, e.1, e.2, rfl⟩⟩
  | seq p first rest =>
    rw [isExpression, Bool.and_eq_true] at h
    rw [unresolved, resolved, erase, erase, seq.injEq, isExpression, Bool.and_eq_true,
      resolved_unresolved_iff first h.1, resolved_unresolved_iff rest h.2]
    exact ⟨fun e => e.2, fun e => ⟨rfl, e⟩⟩
  | lambda p params body =>
    rw [isExpression, Bool.and_eq_true] at h
    rw [unresolved, resolved, erase, erase, lambda.injEq, isExpression, h.1, Bool.true_and,
      resolved_unresolved_iff body h.2]
    exact ⟨fun e => e.2.2, fun e => ⟨rfl, rfl, e⟩⟩
  | block p ds body =>
    rw [isExpression, Bool.and_eq_true, Bool.and_eq_true] at h
    rw [unresolved, resolved, erase, erase, block.injEq, isExpression, h.1.1, Bool.true_and,
      Bool.and_eq_true, resolved_unresolved_iff body h.2,
      resolvedDeclarations_unresolvedDeclarations_iff ds h.1.2]
    exact ⟨fun e => e.2, fun e => ⟨rfl, e⟩⟩
  | _ => cases h

theorem resolvedAll_unresolvedAll_iff (ns : List Node)
    (h : areExpressions (.resolved t L true) ns = true) :
    eraseAll (resolvedAll t (unresolvedAll ns)) = eraseAll ns
      ↔ areExpressions (.resolved t (unnamed L) false) ns = true := by
  cases ns with
  | nil => exact ⟨fun _ => rfl, fun _ => rfl⟩
  | cons n ns =>
    rw [areExpressions, Bool.and_eq_true] at h
    rw [unresolvedAll, resolvedAll, eraseAll, eraseAll, areExpressions, Bool.and_eq_true,
      List.cons.injEq, resolved_unresolved_iff n h.1, resolvedAll_unresolvedAll_iff ns h.2]

theorem resolvedArms_unresolvedArms_iff (ns : List Node)
    (h : areArms (.resolved t L true) ns = true) :
    eraseAll (resolvedArms t (unresolvedArms ns)) = eraseAll ns
      ↔ areArms (.resolved t (unnamed L) false) ns = true := by
  cases ns with
  | nil => exact ⟨fun _ => rfl, fun _ => rfl⟩
  | cons n ns =>
    rw [areArms, Bool.and_eq_true] at h
    rw [unresolvedArms, resolvedArms, eraseAll, eraseAll, areArms, Bool.and_eq_true,
      List.cons.injEq, resolvedArms_unresolvedArms_iff ns h.2]
    cases n with
    | arm p pattern body =>
      rw [isArm, Bool.and_eq_true] at h
      rw [unresolvedArm, resolvedArm, erase, erase, arm.injEq, isArm, Bool.and_eq_true,
        unresolvedPattern_alike_iff pattern h.1.1, resolved_unresolved_iff body h.1.2]
      exact ⟨fun e => ⟨e.1.2, e.2⟩, fun e => ⟨⟨rfl, e.1⟩, e.2⟩⟩
    | _ => cases h.1

theorem resolvedDeclarations_unresolvedDeclarations_iff (ns : List Node)
    (h : areDeclarations (.resolved t L true) ns = true) :
    eraseAll (resolvedDeclarations t (unresolvedDeclarations ns)) = eraseAll ns
      ↔ areDeclarations (.resolved t (unnamed L) false) ns = true := by
  cases ns with
  | nil => exact ⟨fun _ => rfl, fun _ => rfl⟩
  | cons n ns =>
    rw [areDeclarations, Bool.and_eq_true] at h
    rw [unresolvedDeclarations, resolvedDeclarations, eraseAll, eraseAll, areDeclarations,
      Bool.and_eq_true, List.cons.injEq, resolvedDeclarations_unresolvedDeclarations_iff ns h.2]
    cases n with
    | funDecl p name tps params body returnType =>
      rw [isDeclaration, Bool.and_eq_true] at h
      rw [unresolvedDeclaration, resolvedDeclaration, erase, erase, funDecl.injEq, isDeclaration,
        h.1.1, Bool.true_and, resolved_unresolved_iff body h.1.2]
      exact ⟨fun e => ⟨e.1.2.2.2.2.1, e.2⟩, fun e => ⟨⟨rfl, rfl, rfl, rfl, e.1, rfl⟩, e.2⟩⟩
    | externDecl p name tps paramTypes returnType =>
      exact ⟨fun e => ⟨h.1, e.2⟩, fun e => ⟨rfl, e.2⟩⟩
    | dataDecl p name tps constructors =>
      exact ⟨fun e => ⟨h.1, e.2⟩, fun e => ⟨rfl, e.2⟩⟩
    | typeDecl p name tps aliased =>
      exact ⟨fun e => ⟨h.1, e.2⟩, fun e => ⟨rfl, e.2⟩⟩
    | _ => cases h.1

end

/-! ## The vocabulary of resolved trees -/

theorem isEmpty_resolvedArms (ns : List Node) : (resolvedArms t ns).isEmpty = ns.isEmpty := by
  cases ns <;> rfl

theorem all_isLocal_resolvedDeclarations (ns : List Node) :
    (resolvedDeclarations t ns).all isLocal = ns.all isLocal := by
  induction ns with
  | nil => rfl
  | cons n ns ih =>
    rw [resolvedDeclarations, List.all_cons, List.all_cons, ih]
    cases n <;> rfl

mutual

theorem isPattern_resolved (b : Bool) (n : Node) (h : n.isPattern (.source L) = true) :
    n.isPattern (.resolved t L b) = true := by
  cases n with
  | patternWild p => rfl
  | patternVar p name => exact h
  | patternLit p v => exact h
  | patternCtor p c args =>
    rw [isPattern, Bool.and_eq_true] at h
    rw [isPattern, h.1, Bool.true_and, arePatterns_resolved b args h.2]
  | _ => cases h

theorem arePatterns_resolved (b : Bool) (ns : List Node) (h : arePatterns (.source L) ns = true) :
    arePatterns (.resolved t L b) ns = true := by
  cases ns with
  | nil => rfl
  | cons n ns =>
    rw [arePatterns, Bool.and_eq_true] at h
    rw [arePatterns, isPattern_resolved b n h.1, arePatterns_resolved b ns h.2, Bool.and_true]

end

mutual

/-- **A resolved tree has no variables that are constructors**, and no
constructors that are not. -/
theorem isExpression_resolved (n : Node) (h : n.isExpression (.source L) = true) :
    (resolved t n).isExpression (.resolved t L true) = true := by
  cases n with
  | literal p v => exact h
  | unit p => rfl
  | var p name =>
    rw [isExpression, Bool.and_eq_true] at h
    rw [resolved]
    cases hname : t.contains name with
    | true =>
      rw [if_pos rfl, isExpression, h.1]
      exact congrArg (· && true) hname
    | false =>
      rw [if_neg Bool.false_ne_true, isExpression, h.1]
      exact congrArg (!·) hname
  | call p callee args =>
    rw [isExpression, Bool.and_eq_true, Bool.and_eq_true] at h
    have hcallee := isExpression_resolved callee h.1.2
    have hargs := areExpressions_resolvedAll args h.2
    cases hvar : callee.isVar with
    | false =>
      rw [resolved_call hvar, isExpression, hcallee, hargs]
      rfl
    | true =>
      cases callee with
      | var q name =>
        rw [resolved] at hcallee
        rw [resolved]
        cases hname : t.contains name with
        | true =>
          have hident := h.1.2
          rw [isExpression, Bool.and_eq_true] at hident
          rw [if_pos rfl, isExpression, hident.1, hargs]
          exact congrArg (· && true) hname
        | false =>
          rw [hname, if_neg Bool.false_ne_true] at hcallee
          rw [if_neg Bool.false_ne_true, isExpression, hcallee, hargs]
          rfl
      | _ => cases hvar
  | construct p c args =>
    rw [isExpression, Bool.and_eq_true, Bool.and_eq_true] at h
    cases h.1.2
  | intrinsicCall p op args =>
    rw [isExpression, Bool.and_eq_true] at h
    rw [resolved, isExpression, h.1, areExpressions_resolvedAll args h.2]
    rfl
  | directiveCall p name args =>
    rw [isExpression, Bool.and_eq_true] at h
    rw [resolved, isExpression, h.1, areExpressions_resolvedAll args h.2]
    rfl
  | caseOf p scrutinee arms =>
    rw [isExpression, Bool.and_eq_true, Bool.and_eq_true] at h
    rw [resolved, isExpression, isExpression_resolved scrutinee h.1.1, isEmpty_resolvedArms, h.1.2,
      areArms_resolvedArms arms h.2]
    rfl
  | letIn p name value body valueType =>
    rw [isExpression, Bool.and_eq_true, Bool.and_eq_true] at h
    rw [resolved, isExpression, h.1.1, isExpression_resolved value h.1.2,
      isExpression_resolved body h.2]
    rfl
  | seq p first rest =>
    rw [isExpression, Bool.and_eq_true] at h
    rw [resolved, isExpression, isExpression_resolved first h.1, isExpression_resolved rest h.2]
    rfl
  | lambda p params body =>
    rw [isExpression, Bool.and_eq_true] at h
    rw [resolved, isExpression, h.1, isExpression_resolved body h.2]
    rfl
  | block p ds body =>
    rw [isExpression, Bool.and_eq_true, Bool.and_eq_true] at h
    rw [resolved, isExpression, all_isLocal_resolvedDeclarations, h.1.1,
      areDeclarations_resolvedDeclarations ds h.1.2, isExpression_resolved body h.2]
    rfl
  | _ => cases h

theorem areExpressions_resolvedAll (ns : List Node) (h : areExpressions (.source L) ns = true) :
    areExpressions (.resolved t L true) (resolvedAll t ns) = true := by
  cases ns with
  | nil => rfl
  | cons n ns =>
    rw [areExpressions, Bool.and_eq_true] at h
    rw [resolvedAll, areExpressions, isExpression_resolved n h.1,
      areExpressions_resolvedAll ns h.2, Bool.and_true]

theorem areArms_resolvedArms (ns : List Node) (h : areArms (.source L) ns = true) :
    areArms (.resolved t L true) (resolvedArms t ns) = true := by
  cases ns with
  | nil => rfl
  | cons n ns =>
    rw [areArms, Bool.and_eq_true] at h
    rw [resolvedArms, areArms, areArms_resolvedArms ns h.2, Bool.and_true]
    cases n with
    | arm p pattern body =>
      rw [isArm, Bool.and_eq_true] at h
      rw [resolvedArm, isArm, isPattern_resolved true pattern h.1.1,
        isExpression_resolved body h.1.2, Bool.and_true]
    | _ => cases h.1

theorem areDeclarations_resolvedDeclarations (ns : List Node)
    (h : areDeclarations (.source L) ns = true) :
    areDeclarations (.resolved t L true) (resolvedDeclarations t ns) = true := by
  cases ns with
  | nil => rfl
  | cons n ns =>
    rw [areDeclarations, Bool.and_eq_true] at h
    rw [resolvedDeclarations, areDeclarations, areDeclarations_resolvedDeclarations ns h.2,
      Bool.and_true]
    cases n with
    | funDecl p name tps params body returnType =>
      rw [isDeclaration, Bool.and_eq_true] at h
      rw [resolvedDeclaration, isDeclaration, h.1.1, isExpression_resolved body h.1.2,
        Bool.and_true]
    | externDecl p name tps paramTypes returnType => exact h.1
    | dataDecl p name tps constructors => exact h.1
    | typeDecl p name tps aliased => exact h.1
    | _ => cases h.1

end

/-! ## Programs -/

/-- **A program with its names resolved.** -/
def resolvedProgram (t : ConstructorTable) : Node → Node
  | program p ds body => program p (resolvedDeclarations t ds) (resolved t body)
  | n => n

theorem resolveProgram_eq {root : Node} (h : root.isProgram V = true)
    (ht : root.checkDeclarations = .ok t) :
    root.resolveProgram = .ok (root.resolvedProgram t) := by
  cases root with
  | program p ds body =>
    rw [isProgram, Bool.and_eq_true] at h
    unfold resolveProgram
    rw [ht]
    show (do
      let ds ← resolveDeclarations t ds
      return program p ds (← resolve t body)) = _
    rw [resolveDeclarations_eq_resolvedDeclarations ds h.1, resolve_eq_resolved body h.2]
    rfl
  | _ => cases h

theorem isProgram_resolvedProgram {root : Node} (h : root.isProgram (.source L) = true) :
    (root.resolvedProgram t).isProgram (.resolved t L true) = true := by
  cases root with
  | program p ds body =>
    rw [isProgram, Bool.and_eq_true] at h
    rw [resolvedProgram, isProgram, areDeclarations_resolvedDeclarations ds h.1,
      isExpression_resolved body h.2, Bool.and_true]
  | _ => cases h

theorem resolvedProgram_erase (root : Node) :
    root.erase.resolvedProgram t = (root.resolvedProgram t).erase := by
  cases root with
  | program p ds body =>
    rw [erase, resolvedProgram, resolvedProgram, erase, resolvedDeclarations_eraseAll,
      resolved_erase]
  | _ => rfl

/-- **A program comes back from its text exactly if** no literal in it
reads as a name and no constructor without fields is called. -/
theorem resolvedProgram_unresolvedProgram_iff {root : Node}
    (h : root.isProgram (.resolved t L true) = true) :
    (root.unresolvedProgram.resolvedProgram t).erase = root.erase
      ↔ root.isProgram (.resolved t (unnamed L) false) = true := by
  cases root with
  | program p ds body =>
    rw [isProgram, Bool.and_eq_true] at h
    rw [unresolvedProgram, resolvedProgram, erase, erase, program.injEq, isProgram,
      Bool.and_eq_true, resolvedDeclarations_unresolvedDeclarations_iff ds h.1,
      resolved_unresolved_iff body h.2]
    exact ⟨fun e => e.2, fun e => ⟨rfl, e⟩⟩
  | _ => cases h

end EmberLang.Node
