import EmberLang.Proofs.Literals
import EmberLang.Proofs.Nesting
import EmberLang.Proofs.Printing

/-!
# What the text of a tree says

A text does not tell a constructor from a variable, nor a constructor
with fields from a call. So the text of a tree is the text of another
tree, in which constructors are variables and their applications are
calls. The text of an infinite real, and of a real that is no number, is
a word, and so it is the text of a variable as well. `Node.unresolved`
is that other tree: it is what a reader makes of the text, before names
are resolved.

Both trees have the same text (`Node.programText_unresolved`) and need
the same number of levels (`Node.programDepth_unresolved`), and the second
has no constructors and no literals that read as names
(`Node.isProgram_unresolved`).
-/

namespace EmberLang

namespace Literal

/-- **The name that the text of a literal reads as.** Infinity and what
is no number are written as words. -/
def name? : Literal → Option Name
  | real x =>
    match Decimal.magnitude x with
    | .nan => some "nan"
    | .infinite => if Decimal.isNegative x then none else some "inf"
    | .finite _ _ => none
  | _ => none

theorem name?_of_isReadable {v : Literal} (h : v.isReadable = true) : v.name? = none := by
  cases v with
  | real x =>
    have hfinite : Decimal.isFinite x = true := h
    unfold Decimal.isFinite at hfinite
    split at hfinite
    · next m e hx => simp only [name?, hx]
    · cases hfinite
  | _ => rfl

theorem text_of_name? {v : Literal} {name : Name} (h : v.name? = some name) :
    v.text = .ok name.text := by
  cases v with
  | real x =>
    show Except.ok (Decimal.realText x) = _
    unfold Decimal.realText
    rw [name?] at h
    cases hx : Decimal.magnitude x with
    | nan =>
      rw [hx] at h
      obtain rfl := Option.some.inj h
      rfl
    | infinite =>
      rw [hx] at h
      dsimp only at h ⊢
      split at h
      · cases h
      · next hneg =>
        obtain rfl := Option.some.inj h
        rw [if_neg hneg]
        rfl
    | finite m q =>
      rw [hx] at h
      cases h
  | _ => cases h

theorem eq_of_name? {v : Literal} {name : Name} (h : v.name? = some name) :
    name = .word "nan" ∨ name = .word "inf" := by
  cases v with
  | real x =>
    rw [name?] at h
    split at h
    · exact .inl (Option.some.inj h).symm
    · split at h
      · cases h
      · exact .inr (Option.some.inj h).symm
    · cases h
  | _ => cases h

theorem isIdent_of_name? {v : Literal} {name : Name} (h : v.name? = some name) :
    name.isIdent = true := by
  rcases eq_of_name? h with rfl | rfl <;> decide

/-- Such a name is not the pattern for everything. -/
theorem isWord_of_name? {v : Literal} {name : Name} (h : v.name? = some name) :
    name.isWord "_" = false := by
  rcases eq_of_name? h with rfl | rfl <;> decide

end Literal

namespace Node

mutual

/-- A pattern as its text reads. -/
def unresolvedPattern : Node → Node
  | patternLit p v =>
    match v.name? with
    | some name => patternVar p name
    | none => patternLit p v
  | patternCtor p c args => patternCtor p c (unresolvedPatterns args)
  | n => n

/-- Several patterns as their texts read. -/
def unresolvedPatterns : List Node → List Node
  | [] => []
  | n :: ns => unresolvedPattern n :: unresolvedPatterns ns

end

mutual

/-- **An expression as its text reads** before names are resolved. -/
def unresolved : Node → Node
  | literal p v =>
    match v.name? with
    | some name => var p name
    | none => literal p v
  | construct p c args =>
    if args.isEmpty then var p c else call p (var p c) (unresolvedAll args)
  | call p callee args => call p (unresolved callee) (unresolvedAll args)
  | intrinsicCall p op args => intrinsicCall p op (unresolvedAll args)
  | directiveCall p name args => directiveCall p name (unresolvedAll args)
  | caseOf p scrutinee arms => caseOf p (unresolved scrutinee) (unresolvedArms arms)
  | letIn p name value body t => letIn p name (unresolved value) (unresolved body) t
  | seq p first rest => seq p (unresolved first) (unresolved rest)
  | lambda p params body => lambda p params (unresolved body)
  | block p ds body => block p (unresolvedDeclarations ds) (unresolved body)
  | n => n

/-- Several expressions as their texts read. -/
def unresolvedAll : List Node → List Node
  | [] => []
  | n :: ns => unresolved n :: unresolvedAll ns

/-- An arm as its text reads. -/
def unresolvedArm : Node → Node
  | arm p pattern body => arm p (unresolvedPattern pattern) (unresolved body)
  | n => n

/-- Several arms as their texts read. -/
def unresolvedArms : List Node → List Node
  | [] => []
  | n :: ns => unresolvedArm n :: unresolvedArms ns

/-- A declaration as its text reads. -/
def unresolvedDeclaration : Node → Node
  | funDecl p name tps params body returnType =>
    funDecl p name tps params (unresolved body) returnType
  | n => n

/-- Several declarations as their texts read. -/
def unresolvedDeclarations : List Node → List Node
  | [] => []
  | n :: ns => unresolvedDeclaration n :: unresolvedDeclarations ns

end

theorem unresolvedPatterns_eq_map (ns : List Node) :
    unresolvedPatterns ns = ns.map unresolvedPattern := by
  induction ns with
  | nil => rfl
  | cons n ns ih => rw [unresolvedPatterns, ih, List.map_cons]

theorem unresolvedAll_eq_map (ns : List Node) : unresolvedAll ns = ns.map unresolved := by
  induction ns with
  | nil => rfl
  | cons n ns ih => rw [unresolvedAll, ih, List.map_cons]

theorem unresolvedArms_eq_map (ns : List Node) : unresolvedArms ns = ns.map unresolvedArm := by
  induction ns with
  | nil => rfl
  | cons n ns ih => rw [unresolvedArms, ih, List.map_cons]

theorem unresolvedDeclarations_eq_map (ns : List Node) :
    unresolvedDeclarations ns = ns.map unresolvedDeclaration := by
  induction ns with
  | nil => rfl
  | cons n ns ih => rw [unresolvedDeclarations, ih, List.map_cons]

/-- **A program as its text reads.** -/
def unresolvedProgram : Node → Node
  | program p ds body => program p (unresolvedDeclarations ds) (unresolved body)
  | n => n

/-! ## The text -/

/-- The check of a bare name, for a node that may be one. -/
def needBareName (n : Node) : Except Failure Unit :=
  match n.bareName? with
  | some name => name.needWord
  | none => .ok ()

theorem forM_bareName? (ns : List Node) :
    (ns.filterMap bareName?).forM Name.needWord = ns.forM needBareName := by
  induction ns with
  | nil => rfl
  | cons n ns ih =>
    rw [List.filterMap_cons]
    show _ = (do n.needBareName; ns.forM needBareName)
    unfold needBareName
    cases n.bareName? with
    | none => exact ih
    | some name =>
      show (do name.needWord; (ns.filterMap bareName?).forM Name.needWord) = _
      rw [ih]
      rfl

theorem needBareName_unresolved (n : Node) : n.unresolved.needBareName = n.needBareName := by
  cases n with
  | literal p v =>
    rw [unresolved]
    cases hname : v.name? with
    | none => rfl
    | some name => exact Name.needWord_of_isIdent (Literal.isIdent_of_name? hname)
  | construct p c args =>
    rw [unresolved]
    cases args with
    | nil => rfl
    | cons n ns => rfl
  | _ => rfl

theorem needBareName_unresolvedPattern (n : Node) :
    n.unresolvedPattern.needBareName = n.needBareName := by
  cases n with
  | patternLit p v =>
    rw [unresolvedPattern]
    cases hname : v.name? with
    | none => rfl
    | some name => exact Name.needWord_of_isIdent (Literal.isIdent_of_name? hname)
  | _ => rfl

theorem listText_eq_of_forM {ns ms : List Node} (h : ns.forM needBareName = ms.forM needBareName)
    (texts : List String) : listText ns texts = listText ms texts := by
  unfold listText
  rw [forM_bareName?, forM_bareName?, h]

theorem forM_map_needBareName {f : Node → Node} (h : ∀ n, (f n).needBareName = n.needBareName)
    (ns : List Node) : (ns.map f).forM needBareName = ns.forM needBareName := by
  induction ns with
  | nil => rfl
  | cons n ns ih =>
    show (do (f n).needBareName; (ns.map f).forM needBareName)
      = (do n.needBareName; ns.forM needBareName)
    rw [h n, ih]

theorem listText_unresolvedAll (ns : List Node) (texts : List String) :
    listText (unresolvedAll ns) texts = listText ns texts := by
  refine listText_eq_of_forM ?_ texts
  rw [unresolvedAll_eq_map]
  exact forM_map_needBareName needBareName_unresolved ns

theorem listText_unresolvedPatterns (ns : List Node) (texts : List String) :
    listText (unresolvedPatterns ns) texts = listText ns texts := by
  refine listText_eq_of_forM ?_ texts
  rw [unresolvedPatterns_eq_map]
  exact forM_map_needBareName needBareName_unresolvedPattern ns

mutual

theorem patternText_unresolvedPattern (n : Node) :
    n.unresolvedPattern.patternText = n.patternText := by
  cases n with
  | patternLit p v =>
    rw [unresolvedPattern]
    cases hname : v.name? with
    | none => rfl
    | some name =>
      dsimp only
      rw [patternText, patternText, Literal.text_of_name? hname]
  | patternCtor p c args =>
    rw [unresolvedPattern, patternText, patternText, patternTexts_unresolvedPatterns args]
    simp only [listText_unresolvedPatterns]
  | _ => rfl

theorem patternTexts_unresolvedPatterns (ns : List Node) :
    patternTexts (unresolvedPatterns ns) = patternTexts ns := by
  cases ns with
  | nil => rfl
  | cons n ns =>
    rw [unresolvedPatterns, patternTexts, patternTexts, patternText_unresolvedPattern n,
      patternTexts_unresolvedPatterns ns]

end

theorem calleeText_unresolved (n : Node) (text : String) :
    n.unresolved.calleeText text = n.calleeText text := by
  cases n with
  | literal p v =>
    rw [unresolved]
    split <;> rfl
  | construct p c args =>
    rw [unresolved]
    split <;> rfl
  | _ => rfl

mutual

/-- **A tree and the tree that its text says have the same text.** -/
theorem phrase_unresolved (place : Place) (indent : Nat) (n : Node) :
    n.unresolved.phrase place indent = n.phrase place indent := by
  cases n with
  | literal p v =>
    rw [unresolved]
    cases hname : v.name? with
    | none => rfl
    | some name =>
      dsimp only
      rw [phrase, phrase, Literal.text_of_name? hname]
      rfl
  | construct p c args =>
    rw [unresolved]
    -- A constructor without fields has the text of a variable, one with fields
    -- that of a call.
    cases args with
    | nil => rw [if_pos List.isEmpty_nil, phrase, phrase]; rfl
    | cons n ns =>
      rw [if_neg (by simp), phrase, phrase, phrase, phrases_unresolvedAll indent (n :: ns)]
      simp only [listText_unresolvedAll]
      rfl
  | call p callee args =>
    rw [unresolved, phrase, phrase, phrase_unresolved .operand indent callee,
      phrases_unresolvedAll indent args]
    simp only [calleeText_unresolved, listText_unresolvedAll]
  | intrinsicCall p op args =>
    rw [unresolved, phrase, phrase, phrases_unresolvedAll indent args]
    simp only [listText_unresolvedAll]
  | directiveCall p name args =>
    rw [unresolved, phrase, phrase, phrases_unresolvedAll indent args]
    simp only [listText_unresolvedAll]
  | caseOf p scrutinee arms =>
    rw [unresolved, phrase, phrase, phrase_unresolved .operand indent scrutinee,
      armLines_unresolvedArms indent arms]
  | letIn p name value body t =>
    rw [unresolved, phrase, phrase, phrase_unresolved .operand _ value,
      phrase_unresolved .items _ body]
  | seq p first rest =>
    rw [unresolved, phrase, phrase, phrase_unresolved .operand _ first,
      phrase_unresolved .items _ rest]
  | lambda p params body =>
    rw [unresolved, phrase, phrase, phrase_unresolved .body indent body]
  | block p ds body =>
    rw [unresolved, phrase, phrase, declarationTexts_unresolvedDeclarations (indent + 1) ds,
      phrase_unresolved .items (indent + 1) body]
  | _ => rfl

theorem phrases_unresolvedAll (indent : Nat) (ns : List Node) :
    phrases indent (unresolvedAll ns) = phrases indent ns := by
  cases ns with
  | nil => rfl
  | cons n ns =>
    rw [unresolvedAll, phrases, phrases, phrase_unresolved .operand indent n,
      phrases_unresolvedAll indent ns]

theorem armLines_unresolvedArms (indent : Nat) (ns : List Node) :
    armLines indent (unresolvedArms ns) = armLines indent ns := by
  cases ns with
  | nil => rfl
  | cons n ns =>
    rw [unresolvedArms, armLines, armLines, armLines_unresolvedArms indent ns]
    cases n with
    | arm p pattern body =>
      rw [unresolvedArm, armLine, armLine, phrase_unresolved .body (indent + 1) body,
        patternText_unresolvedPattern]
    | _ => rfl

theorem declarationTexts_unresolvedDeclarations (indent : Nat) (ns : List Node) :
    declarationTexts indent (unresolvedDeclarations ns) = declarationTexts indent ns := by
  cases ns with
  | nil => rfl
  | cons n ns =>
    rw [unresolvedDeclarations, declarationTexts, declarationTexts,
      declarationTexts_unresolvedDeclarations indent ns]
    cases n with
    | funDecl p name tps params body returnType =>
      rw [unresolvedDeclaration, declarationText, declarationText,
        phrase_unresolved .items (indent + 1) body]
    | _ => rfl

end

/-- **The text of a program is the text of the program that it says.** -/
theorem programText_unresolved (root : Node) :
    root.unresolvedProgram.programText = root.programText := by
  cases root with
  | program p ds body =>
    unfold unresolvedProgram programText scope?
    dsimp only
    rw [declarationTexts_unresolvedDeclarations, phrase_unresolved]
  | _ => rfl

/-! ## The levels -/

theorem spine_unresolved (n : Node) : n.unresolved.spine = n.spine := by
  cases n with
  | call p callee args => rw [unresolved, spine, spine, spine_unresolved callee]
  | literal p v =>
    rw [unresolved]
    split <;> rfl
  | construct p c args =>
    rw [unresolved, spine]
    split <;> rfl
  | _ => rfl

theorem calleeDepth_unresolved (n : Node) (d : Nat) :
    n.unresolved.calleeDepth d = n.calleeDepth d := by
  cases n with
  | literal p v =>
    rw [unresolved]
    split <;> rfl
  | construct p c args =>
    rw [unresolved]
    split <;> rfl
  | _ => rfl

mutual

theorem patternDepth_unresolvedPattern (n : Node) :
    n.unresolvedPattern.patternDepth = n.patternDepth := by
  cases n with
  | patternLit p v =>
    rw [unresolvedPattern]
    split <;> rfl
  | patternCtor p c args =>
    rw [unresolvedPattern, patternDepth, patternDepth, patternsDepth_unresolvedPatterns args]
  | _ => rfl

theorem patternsDepth_unresolvedPatterns (ns : List Node) :
    patternsDepth (unresolvedPatterns ns) = patternsDepth ns := by
  cases ns with
  | nil => rfl
  | cons n ns =>
    rw [unresolvedPatterns, patternsDepth, patternsDepth, patternDepth_unresolvedPattern n,
      patternsDepth_unresolvedPatterns ns]

end

mutual

theorem depth_unresolved (place : Place) (n : Node) :
    n.unresolved.depth place = n.depth place := by
  cases n with
  | literal p v =>
    rw [unresolved]
    split <;> rfl
  | construct p c args =>
    rw [unresolved]
    cases args with
    | nil => rfl
    | cons n ns =>
      rw [if_neg (by simp), depth, depth, if_neg (by simp), depthAll_unresolvedAll (n :: ns)]
      simp [calleeDepth, spine, depth]
  | call p callee args =>
    rw [unresolved, depth, depth, calleeDepth_unresolved, depth_unresolved .operand callee,
      spine_unresolved, depthAll_unresolvedAll args]
  | intrinsicCall p op args => rw [unresolved, depth, depth, depthAll_unresolvedAll args]
  | directiveCall p name args => rw [unresolved, depth, depth, depthAll_unresolvedAll args]
  | caseOf p scrutinee arms =>
    rw [unresolved, depth, depth, depth_unresolved .operand scrutinee,
      armsDepth_unresolvedArms arms]
  | letIn p name value body t =>
    rw [unresolved, depth, depth, depth_unresolved .operand value, depth_unresolved .items body]
  | seq p first rest =>
    rw [unresolved, depth, depth, depth_unresolved .operand first, depth_unresolved .items rest]
  | lambda p params body => rw [unresolved, depth, depth, depth_unresolved .body body]
  | block p ds body =>
    rw [unresolved, depth, depth, declarationsDepth_unresolvedDeclarations ds,
      depth_unresolved .items body]
  | _ => rfl

theorem depthAll_unresolvedAll (ns : List Node) : depthAll (unresolvedAll ns) = depthAll ns := by
  cases ns with
  | nil => rfl
  | cons n ns =>
    rw [unresolvedAll, depthAll, depthAll, depth_unresolved .operand n, depthAll_unresolvedAll ns]

theorem armsDepth_unresolvedArms (ns : List Node) :
    armsDepth (unresolvedArms ns) = armsDepth ns := by
  cases ns with
  | nil => rfl
  | cons n ns =>
    rw [unresolvedArms, armsDepth, armsDepth, armsDepth_unresolvedArms ns]
    cases n with
    | arm p pattern body =>
      rw [unresolvedArm, armDepth, armDepth, patternDepth_unresolvedPattern,
        depth_unresolved .body body]
    | _ => rfl

theorem declarationsDepth_unresolvedDeclarations (ns : List Node) :
    declarationsDepth (unresolvedDeclarations ns) = declarationsDepth ns := by
  cases ns with
  | nil => rfl
  | cons n ns =>
    rw [unresolvedDeclarations, declarationsDepth, declarationsDepth,
      declarationsDepth_unresolvedDeclarations ns]
    cases n with
    | funDecl p name tps params body returnType =>
      rw [unresolvedDeclaration, declarationDepth, declarationDepth, depth_unresolved .items body]
    | _ => rfl

end

/-- **Both trees need the same levels.** -/
theorem programDepth_unresolved (root : Node) :
    root.unresolvedProgram.programDepth = root.programDepth := by
  cases root with
  | program p ds body =>
    rw [unresolvedProgram, programDepth, programDepth, declarationsDepth_unresolvedDeclarations,
      depth_unresolved]
  | _ => rfl

/-! ## The vocabulary -/

/-- **The vocabulary of what a reader makes of a text**: all variables,
no constructors, and all calls. -/
def Vocabulary.source (literal : Literal → Bool) : Vocabulary :=
  ⟨literal, fun _ => true, fun _ => false, true⟩

/-- **The vocabulary of the trees whose texts hold given literals**: other
literals are written as names, and everything else is allowed. -/
def Vocabulary.legible (literal : Literal → Bool) : Vocabulary :=
  ⟨fun v => literal v || v.name?.isSome, fun _ => true, fun _ => true, true⟩

section Vocabularies

variable {V : Vocabulary} (L : Literal → Bool)

theorem all_isLocal_unresolvedDeclarations (ns : List Node) :
    (unresolvedDeclarations ns).all isLocal = ns.all isLocal := by
  rw [unresolvedDeclarations_eq_map, List.all_map]
  refine congrArg ns.all (funext fun n => ?_)
  cases n <;> rfl

theorem literal_legible_of_none {v : Literal} (h : v.name? = none) :
    (Vocabulary.legible L).literal v = L v := by
  show (L v || v.name?.isSome) = L v
  rw [h, Option.isSome_none, Bool.or_false]

theorem literal_legible_of_some {v : Literal} {name : Name} (h : v.name? = some name) :
    (Vocabulary.legible L).literal v = true := by
  show (L v || v.name?.isSome) = true
  rw [h, Option.isSome_some, Bool.or_true]

mutual

theorem isPattern_unresolvedPattern (n : Node) :
    n.unresolvedPattern.isPattern (.source L) = n.isPattern (.legible L) := by
  cases n with
  | patternLit p v =>
    rw [unresolvedPattern]
    show _ = (Vocabulary.legible L).literal v
    cases hname : v.name? with
    | none => exact (literal_legible_of_none L hname).symm
    | some name =>
      dsimp only
      rw [isPattern, Literal.isIdent_of_name? hname, Literal.isWord_of_name? hname,
        literal_legible_of_some L hname]
      rfl
  | patternCtor p c args =>
    rw [unresolvedPattern, isPattern, isPattern, arePatterns_unresolvedPatterns args]
  | _ => rfl

theorem arePatterns_unresolvedPatterns (ns : List Node) :
    arePatterns (.source L) (unresolvedPatterns ns) = arePatterns (.legible L) ns := by
  cases ns with
  | nil => rfl
  | cons n ns =>
    rw [unresolvedPatterns, arePatterns, arePatterns, isPattern_unresolvedPattern n,
      arePatterns_unresolvedPatterns ns]

end

mutual

theorem isExpression_unresolved (n : Node) :
    n.unresolved.isExpression (.source L) = n.isExpression (.legible L) := by
  cases n with
  | literal p v =>
    rw [unresolved]
    show _ = (Vocabulary.legible L).literal v
    cases hname : v.name? with
    | none => exact (literal_legible_of_none L hname).symm
    | some name =>
      dsimp only
      rw [isExpression, Literal.isIdent_of_name? hname, literal_legible_of_some L hname]
      rfl
  | construct p c args =>
    rw [unresolved]
    cases args with
    | nil => exact (Bool.and_true _).symm
    | cons n ns =>
      rw [if_neg (by simp), isExpression, isExpression, isExpression,
        areExpressions_unresolvedAll (n :: ns)]
      rfl
  | call p callee args =>
    rw [unresolved, isExpression, isExpression, isExpression_unresolved callee,
      areExpressions_unresolvedAll args]
    rfl
  | intrinsicCall p op args =>
    rw [unresolved, isExpression, isExpression, areExpressions_unresolvedAll args]
  | directiveCall p name args =>
    rw [unresolved, isExpression, isExpression, areExpressions_unresolvedAll args]
  | caseOf p scrutinee arms =>
    rw [unresolved, isExpression, isExpression, isExpression_unresolved scrutinee,
      areArms_unresolvedArms arms, unresolvedArms_eq_map, List.isEmpty_map]
  | letIn p name value body t =>
    rw [unresolved, isExpression, isExpression, isExpression_unresolved value,
      isExpression_unresolved body]
  | seq p first rest =>
    rw [unresolved, isExpression, isExpression, isExpression_unresolved first,
      isExpression_unresolved rest]
  | lambda p params body =>
    rw [unresolved, isExpression, isExpression, isExpression_unresolved body]
  | block p ds body =>
    rw [unresolved, isExpression, isExpression, all_isLocal_unresolvedDeclarations,
      areDeclarations_unresolvedDeclarations ds, isExpression_unresolved body]
  | _ => rfl

theorem areExpressions_unresolvedAll (ns : List Node) :
    areExpressions (.source L) (unresolvedAll ns) = areExpressions (.legible L) ns := by
  cases ns with
  | nil => rfl
  | cons n ns =>
    rw [unresolvedAll, areExpressions, areExpressions, isExpression_unresolved n,
      areExpressions_unresolvedAll ns]

theorem areArms_unresolvedArms (ns : List Node) :
    areArms (.source L) (unresolvedArms ns) = areArms (.legible L) ns := by
  cases ns with
  | nil => rfl
  | cons n ns =>
    rw [unresolvedArms, areArms, areArms, areArms_unresolvedArms ns]
    cases n with
    | arm p pattern body =>
      rw [unresolvedArm, isArm, isArm, isPattern_unresolvedPattern L pattern,
        isExpression_unresolved body]
    | _ => rfl

theorem areDeclarations_unresolvedDeclarations (ns : List Node) :
    areDeclarations (.source L) (unresolvedDeclarations ns) = areDeclarations (.legible L) ns := by
  cases ns with
  | nil => rfl
  | cons n ns =>
    rw [unresolvedDeclarations, areDeclarations, areDeclarations,
      areDeclarations_unresolvedDeclarations ns]
    cases n with
    | funDecl p name tps params body returnType =>
      rw [unresolvedDeclaration, isDeclaration, isDeclaration, isExpression_unresolved body]
    | _ => rfl

end

/-- **The program that a text says** has the given literals exactly if the
others of the program are written as names. -/
theorem isProgram_unresolvedProgram (root : Node) :
    root.unresolvedProgram.isProgram (.source L) = root.isProgram (.legible L) := by
  cases root with
  | program p ds body =>
    rw [unresolvedProgram, isProgram, isProgram, areDeclarations_unresolvedDeclarations L ds,
      isExpression_unresolved L body]
  | _ => rfl

variable {L} in
/-- **The program that a text says is in the vocabulary of texts.** -/
theorem isProgram_unresolved (hL : ∀ v, V.literal v = true → v.name? = none → L v = true)
    {root : Node} (h : root.isProgram V = true) :
    root.unresolvedProgram.isProgram (.source L) = true := by
  have hliteral (v : Literal) (hv : V.literal v = true) :
      (Vocabulary.legible L).literal v = true := by
    cases hname : v.name? with
    | none => exact (literal_legible_of_none L hname).trans (hL v hv hname)
    | some name => exact literal_legible_of_some L hname
  have hand : V.and (.legible L) = V := by
    unfold Vocabulary.and
    congr 1
    · funext v
      cases hv : V.literal v with
      | false => rfl
      | true => exact hliteral v hv
    · funext name
      exact Bool.and_true _
    · funext c
      exact Bool.and_true _
    · exact Bool.and_true _
  rw [isProgram_unresolvedProgram]
  rw [← hand, isProgram_and, Bool.and_eq_true] at h
  exact h.2

end Vocabularies

end Node

end EmberLang
