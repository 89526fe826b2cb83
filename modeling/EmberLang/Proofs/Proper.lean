import EmberLang.Proofs.Literals
import EmberLang.Proofs.Printing
import EmberLang.Proofs.Unresolve

/-!
# Texts that scan

The lexemes of a tree are lexemes that a scanner can give, except perhaps
those of its literals: negative infinity is written as a text that is no
lexeme at all. So the lexemes of a tree are proper exactly if those of its
literals are (`Node.allProper_programLexemes`).

A text that spells proper lexemes scans to them (`Spells.scan`). For the
other direction it is not enough that a lexeme is not proper, since its
text may still scan to something else. It must be broken: hold a character
that no lexeme begins with. Where every lexeme is proper or broken, a text
that scans has proper lexemes only (`Spells.allProper_of_scan`). This is
why the lemmas on the lexemes of a tree have a second predicate beside
properness.
-/

namespace EmberLang

/-- **Whether all lexemes are such as a scanner gives**, or else are as `Q`
says. -/
def allProper (Q : Lexeme → Bool) (ls : List Lexeme) : Bool := ls.all fun l => l.isProper || Q l

variable {Q : Lexeme → Bool}

@[simp]
theorem allProper_nil : allProper Q [] = true := rfl

theorem allProper_cons (l : Lexeme) (ls : List Lexeme) :
    allProper Q (l :: ls) = ((l.isProper || Q l) && allProper Q ls) := rfl

theorem allProper_cons_of_isProper {l : Lexeme} (h : l.isProper = true) (ls : List Lexeme) :
    allProper Q (l :: ls) = allProper Q ls := by
  rw [allProper_cons, h, Bool.true_or, Bool.true_and]

@[simp]
theorem allProper_keyword (k : Keyword) (ls : List Lexeme) :
    allProper Q (.keyword k :: ls) = allProper Q ls :=
  allProper_cons_of_isProper (Lexeme.isProper_keyword k) ls

@[simp]
theorem allProper_mark (m : Mark) (ls : List Lexeme) :
    allProper Q (.mark m :: ls) = allProper Q ls :=
  allProper_cons_of_isProper (Lexeme.isProper_mark m) ls

@[simp]
theorem allProper_append (ls ms : List Lexeme) :
    allProper Q (ls ++ ms) = (allProper Q ls && allProper Q ms) := List.all_append

@[simp]
theorem allProper_flatten (lss : List (List Lexeme)) :
    allProper Q lss.flatten = lss.all (allProper Q) := List.all_flatten

theorem allProper_flatMap {α : Type} (as : List α) (f : α → List Lexeme) :
    allProper Q (as.flatMap f) = as.all fun a => allProper Q (f a) := List.all_flatMap

@[simp]
theorem allProper_commaSeparated (lss : List (List Lexeme)) :
    allProper Q (commaSeparated lss) = lss.all (allProper Q) := by
  cases lss with
  | nil => rfl
  | cons ls lss =>
    rw [commaSeparated, allProper_append, allProper_flatMap, List.all_cons]
    simp only [allProper_mark]

@[simp]
theorem allProper_parenthesized (lss : List (List Lexeme)) :
    allProper Q (parenthesized lss) = lss.all (allProper Q) := by
  simp [parenthesized]

@[simp]
theorem allProper_bracketed (lss : List (List Lexeme)) :
    allProper Q (bracketed lss) = lss.all (allProper Q) := by
  simp [bracketed]

theorem Name.isProper_lexeme {n : Name} (h : n.isIdent = true) : n.lexeme.isProper = true := by
  cases n with
  | word s => exact h
  | other j => cases h

theorem Name.allProper_lexeme {n : Name} (h : n.isIdent = true) (ls : List Lexeme) :
    allProper Q (n.lexeme :: ls) = allProper Q ls :=
  allProper_cons_of_isProper (isProper_lexeme h) ls

theorem all_allProper_names {names : List Name} (h : names.all Name.isIdent = true) :
    (names.map fun n => [n.lexeme]).all (allProper Q) = true := by
  rw [List.all_map, List.all_eq_true]
  intro n hn
  exact Name.allProper_lexeme (List.all_eq_true.1 h n hn) []

namespace TypeSpec

mutual

theorem allProper_lexemes (t : TypeSpec) (h : t.isWritten = true) :
    allProper Q t.lexemes = true := by
  cases t with
  | mk kind args =>
    rw [isWritten, Bool.or_eq_true, Bool.or_eq_true, Bool.and_eq_true, Bool.and_eq_true,
      Bool.and_eq_true, Bool.and_eq_true] at h
    rw [lexemes]
    rcases h with (⟨hunit, hargs⟩ | ⟨⟨hfun, hne⟩, hargs⟩) | ⟨hident, hargs⟩
    · obtain rfl := Name.eq_of_isWord hunit
      rfl
    · have hall := allProper_lexemesAll args hargs
      rw [List.all_eq_true] at hall
      have hne : lexemesAll args ≠ [] := by
        cases args with
        | nil => cases hne
        | cons t ts => exact List.cons_ne_nil _ _
      have hlast : allProper Q ((lexemesAll args).getLast?.getD []) = true := by
        rw [List.getLast?_eq_some_getLast hne]
        exact hall _ (List.getLast_mem hne)
      have hparams : (lexemesAll args).dropLast.all (allProper Q) = true :=
        List.all_eq_true.2 fun ls hls => hall ls (List.dropLast_subset _ hls)
      simp [hfun, hlast, hparams]
    · have hall := allProper_lexemesAll args hargs
      have hfun := Name.isWord_eq_false hident (s := "fun") (by decide)
      have hunit := Name.isWord_eq_false hident (s := "()") (by decide)
      rw [if_neg (by simp [hfun]), if_neg (by simp [hunit])]
      split
      · rw [Name.allProper_lexeme hident, allProper_nil]
      · rw [Name.allProper_lexeme hident, allProper_bracketed, hall]

theorem allProper_lexemesAll (ts : List TypeSpec) (h : areWritten ts = true) :
    (lexemesAll ts).all (allProper Q) = true := by
  cases ts with
  | nil => rfl
  | cons t ts =>
    rw [areWritten, Bool.and_eq_true] at h
    rw [lexemesAll, List.all_cons, allProper_lexemes t h.1, allProper_lexemesAll ts h.2,
      Bool.and_true]

end

end TypeSpec

namespace Node

/-! ## The parts of a declaration -/

theorem allProper_typeLexemes {t : Node} (h : t.isType = true) :
    allProper Q t.typeLexemes = true := by
  cases t with
  | typeSpec t => exact t.allProper_lexemes h
  | _ => rfl

theorem allProper_lexemesAfter {t : Node} (h : t.isOptionalType = true) (m : Mark) :
    allProper Q (lexemesAfter m t) = true := by
  cases t with
  | typeSpec t => exact (allProper_mark m _).trans (t.allProper_lexemes h)
  | _ => rfl

theorem allProper_typeParamLexemes {names : List Name} (h : names.all Name.isIdent = true) :
    allProper Q (typeParamLexemes names) = true := by
  unfold typeParamLexemes
  split
  · rfl
  · rw [allProper_bracketed, all_allProper_names h]

theorem all_allProper_types {ts : List Node} (h : ts.all isType = true) :
    (ts.map typeLexemes).all (allProper Q) = true := by
  rw [List.all_map, List.all_eq_true]
  intro t ht
  exact allProper_typeLexemes (List.all_eq_true.1 h t ht)

theorem allProper_paramLexemes {n : Node} (h : n.isParam = true) :
    allProper Q n.paramLexemes = true := by
  cases n with
  | param p name t =>
    rw [isParam, Bool.and_eq_true] at h
    rw [paramLexemes, Name.allProper_lexeme h.1, allProper_lexemesAfter h.2]
  | _ => rfl

theorem all_allProper_params {ns : List Node} (h : ns.all isParam = true) :
    (ns.map paramLexemes).all (allProper Q) = true := by
  rw [List.all_map, List.all_eq_true]
  intro n hn
  exact allProper_paramLexemes (List.all_eq_true.1 h n hn)

theorem allProper_constructorLexemes {n : Node} (h : n.isConstructorDecl = true) :
    allProper Q n.constructorLexemes = true := by
  cases n with
  | constructorDecl p name fieldTypes =>
    rw [isConstructorDecl, Bool.and_eq_true] at h
    rw [constructorLexemes]
    split
    · rw [Name.allProper_lexeme h.1, allProper_nil]
    · rw [Name.allProper_lexeme h.1, allProper_parenthesized, all_allProper_types h.2]
  | _ => rfl

theorem allProper_constructors {ns : List Node} (h : ns.all isConstructorDecl = true) :
    allProper Q (ns.flatMap fun c => .mark .bar :: constructorLexemes c) = true := by
  rw [allProper_flatMap, List.all_eq_true]
  intro n hn
  exact (allProper_mark _ _).trans (allProper_constructorLexemes (List.all_eq_true.1 h n hn))

/-! ## Expressions and declarations -/

variable {L : Literal → Bool}

/-- **The literals whose texts are lexemes**, or else are as `Q` says, among
given ones. -/
def properOf (Q : Lexeme → Bool) (L : Literal → Bool) (v : Literal) : Bool :=
  L v && (v.lexeme.isProper || Q v.lexeme)

theorem allProper_literal {v : Literal} (h : L v = true) :
    allProper Q [v.lexeme] = properOf Q L v := by
  rw [allProper_cons, allProper_nil, Bool.and_true, properOf, h, Bool.true_and]

mutual

theorem allProper_patternLexemes (n : Node) (h : n.isPattern (.source L) = true) :
    allProper Q n.patternLexemes = n.isPattern (.source (properOf Q L)) := by
  cases n with
  | patternWild p =>
    exact allProper_cons_of_isProper (l := .ident "_") (by decide) []
  | patternVar p name =>
    rw [isPattern] at h
    rw [patternLexemes, isPattern, h]
    exact Name.allProper_lexeme (Bool.and_eq_true_iff.1 h).1 []
  | patternLit p v => exact allProper_literal h
  | patternCtor p c args =>
    rw [isPattern, Bool.and_eq_true] at h
    rw [patternLexemes, isPattern, h.1, Bool.true_and,
      Name.allProper_lexeme (Bool.and_eq_true_iff.1 h.1).1, allProper_parenthesized,
      allProper_patternsLexemes args h.2]
  | _ => cases h

theorem allProper_patternsLexemes (ns : List Node) (h : arePatterns (.source L) ns = true) :
    (patternsLexemes ns).all (allProper Q) = arePatterns (.source (properOf Q L)) ns := by
  cases ns with
  | nil => rfl
  | cons n ns =>
    rw [arePatterns, Bool.and_eq_true] at h
    rw [patternsLexemes, List.all_cons, arePatterns, allProper_patternLexemes n h.1,
      allProper_patternsLexemes ns h.2]

end

theorem Place.allProper_around (place : Place) (ls : List Lexeme) :
    allProper Q (place.around ls) = allProper Q ls := by
  cases place with
  | operand => simp [around]
  | body => simp [around]
  | items => rfl

theorem allProper_calleeLexemes (callee : Node) (ls : List Lexeme) :
    allProper Q (calleeLexemes callee ls) = allProper Q ls := by
  unfold calleeLexemes
  split
  · simp
  · rfl

theorem allProper_intrinsic {op : Name} (h : op.isSigilName = true) (ls : List Lexeme) :
    allProper Q (.intrinsic op.text :: ls) = allProper Q ls := by
  cases op with
  | word s => exact allProper_cons_of_isProper (l := .intrinsic s) h ls
  | other j => cases h

theorem allProper_directive {name : Name} (h : name.isSigilName = true) (ls : List Lexeme) :
    allProper Q (.directive name.text :: ls) = allProper Q ls := by
  cases name with
  | word s =>
    exact allProper_cons_of_isProper (l := .directive s) (Lexeme.isProper_directive h) ls
  | other j => cases h

mutual

theorem allProper_lexemes (place : Place) (n : Node) (h : n.isExpression (.source L) = true) :
    allProper Q (n.lexemes place) = n.isExpression (.source (properOf Q L)) := by
  cases n with
  | literal p v => exact allProper_literal h
  | unit p => rfl
  | var p name =>
    rw [isExpression] at h
    rw [lexemes, isExpression, Name.allProper_lexeme (Bool.and_eq_true_iff.1 h).1]
    exact h.symm
  | call p callee args =>
    rw [isExpression, Bool.and_eq_true, Bool.and_eq_true] at h
    rw [lexemes, isExpression, allProper_append, allProper_calleeLexemes,
      allProper_parenthesized, allProper_lexemes .operand callee h.1.2,
      allProper_lexemesAll args h.2]
    rfl
  | intrinsicCall p op args =>
    rw [isExpression, Bool.and_eq_true] at h
    rw [lexemes, isExpression, allProper_intrinsic h.1, allProper_parenthesized,
      allProper_lexemesAll args h.2, h.1, Bool.true_and]
  | directiveCall p name args =>
    rw [isExpression, Bool.and_eq_true] at h
    rw [lexemes, isExpression, allProper_directive h.1, allProper_parenthesized,
      allProper_lexemesAll args h.2, h.1, Bool.true_and]
  | construct p c args =>
    rw [isExpression, Bool.and_eq_true, Bool.and_eq_true] at h
    cases h.1.2
  | caseOf p scrutinee arms =>
    rw [isExpression, Bool.and_eq_true, Bool.and_eq_true] at h
    have hscrutinee := allProper_lexemes .operand scrutinee h.1.1
    have harms := allProper_armsLexemes arms h.2
    rw [lexemes, isExpression, h.1.2, Bool.and_true, ← hscrutinee, ← harms]
    simp
  | letIn p name value body t =>
    rw [isExpression, Bool.and_eq_true, Bool.and_eq_true, Bool.and_eq_true] at h
    obtain ⟨⟨⟨hname, htype⟩, hvalue⟩, hbody⟩ := h
    have hvalue := allProper_lexemes .operand value hvalue
    have hbody := allProper_lexemes .items body hbody
    rw [lexemes, isExpression, Place.allProper_around, hname, htype, ← hvalue, ← hbody]
    simp [Name.allProper_lexeme hname, allProper_lexemesAfter htype]
  | seq p first rest =>
    rw [isExpression, Bool.and_eq_true] at h
    rw [lexemes, isExpression, Place.allProper_around, allProper_append, allProper_mark,
      allProper_lexemes .operand first h.1, allProper_lexemes .items rest h.2]
  | lambda p params body =>
    rw [isExpression, Bool.and_eq_true] at h
    have hbody := allProper_lexemes .body body h.2
    rw [lexemes, isExpression, h.1, Bool.true_and, ← hbody]
    simp only [List.cons_append, allProper_keyword, allProper_append, allProper_parenthesized,
      all_allProper_names h.1, allProper_mark, Bool.true_and]
  | block p ds body =>
    rw [isExpression, Bool.and_eq_true, Bool.and_eq_true] at h
    have hds := allProper_declarationsLexemes ds h.1.2
    have hbody := allProper_lexemes .items body h.2
    rw [lexemes, isExpression, h.1.1, Bool.true_and, ← hds, ← hbody]
    simp
  | _ => cases h

theorem allProper_lexemesAll (ns : List Node) (h : areExpressions (.source L) ns = true) :
    (lexemesAll ns).all (allProper Q) = areExpressions (.source (properOf Q L)) ns := by
  cases ns with
  | nil => rfl
  | cons n ns =>
    rw [areExpressions, Bool.and_eq_true] at h
    rw [lexemesAll, List.all_cons, areExpressions, allProper_lexemes .operand n h.1,
      allProper_lexemesAll ns h.2]

theorem allProper_armLexemes (n : Node) (h : n.isArm (.source L) = true) :
    allProper Q n.armLexemes = n.isArm (.source (properOf Q L)) := by
  cases n with
  | arm p pattern body =>
    rw [isArm, Bool.and_eq_true] at h
    have hpattern := allProper_patternLexemes (Q := Q) pattern h.1
    have hbody := allProper_lexemes .body body h.2
    rw [armLexemes, isArm, ← hpattern, ← hbody]
    simp
  | _ => cases h

theorem allProper_armsLexemes (ns : List Node) (h : areArms (.source L) ns = true) :
    (armsLexemes ns).all (allProper Q) = areArms (.source (properOf Q L)) ns := by
  cases ns with
  | nil => rfl
  | cons n ns =>
    rw [areArms, Bool.and_eq_true] at h
    rw [armsLexemes, List.all_cons, areArms, allProper_armLexemes n h.1,
      allProper_armsLexemes ns h.2]

theorem allProper_declarationLexemes (n : Node) (h : n.isDeclaration (.source L) = true) :
    allProper Q n.declarationLexemes = n.isDeclaration (.source (properOf Q L)) := by
  cases n with
  | externDecl p name tps paramTypes returnType =>
    rw [isDeclaration] at h
    rw [declarationLexemes, isDeclaration, h]
    rw [Bool.and_eq_true, Bool.and_eq_true, Bool.and_eq_true] at h
    obtain ⟨⟨⟨hname, htps⟩, hparams⟩, hresult⟩ := h
    simp [Name.allProper_lexeme hname, allProper_typeParamLexemes htps,
      all_allProper_types hparams, allProper_typeLexemes hresult]
  | dataDecl p name tps constructors =>
    rw [isDeclaration] at h
    rw [declarationLexemes, isDeclaration, h]
    rw [Bool.and_eq_true, Bool.and_eq_true, Bool.and_eq_true] at h
    obtain ⟨⟨⟨hname, htps⟩, _⟩, hconstructors⟩ := h
    simp [Name.allProper_lexeme hname, allProper_typeParamLexemes htps,
      allProper_constructors hconstructors]
  | typeDecl p name tps t =>
    rw [isDeclaration] at h
    rw [declarationLexemes, isDeclaration, h]
    rw [Bool.and_eq_true, Bool.and_eq_true] at h
    obtain ⟨⟨hname, htps⟩, htype⟩ := h
    simp [Name.allProper_lexeme hname, allProper_typeParamLexemes htps,
      allProper_typeLexemes htype]
  | funDecl p name tps params body returnType =>
    rw [isDeclaration, Bool.and_eq_true, Bool.and_eq_true, Bool.and_eq_true,
      Bool.and_eq_true] at h
    obtain ⟨⟨⟨⟨hname, htps⟩, hparams⟩, hresult⟩, hbody⟩ := h
    have hbody := allProper_lexemes .items body hbody
    rw [declarationLexemes, isDeclaration, hname, htps, hparams, hresult, ← hbody]
    simp [Name.allProper_lexeme hname, allProper_typeParamLexemes htps,
      all_allProper_params hparams, allProper_lexemesAfter hresult]
  | _ => cases h

theorem allProper_declarationsLexemes (ns : List Node)
    (h : areDeclarations (.source L) ns = true) :
    (declarationsLexemes ns).all (allProper Q) = areDeclarations (.source (properOf Q L)) ns := by
  cases ns with
  | nil => rfl
  | cons n ns =>
    rw [areDeclarations, Bool.and_eq_true] at h
    rw [declarationsLexemes, List.all_cons, areDeclarations, allProper_declarationLexemes n h.1,
      allProper_declarationsLexemes ns h.2]

end

/-- **The lexemes of a program are proper exactly if those of its literals
are.** -/
theorem allProper_programLexemes {root : Node} (h : root.isProgram (.source L) = true) :
    allProper Q root.programLexemes = root.isProgram (.source (properOf Q L)) := by
  cases root with
  | program p ds body =>
    rw [isProgram, Bool.and_eq_true] at h
    rw [programLexemes, isProgram, ← allProper_declarationsLexemes ds h.1,
      ← allProper_lexemes .items body h.2]
    simp
  | _ => cases h

end Node

/-! ## Scanning a text that spells lexemes -/

/-- Whether the text of a lexeme holds a character that no lexeme begins
with. -/
def Lexeme.isBroken (l : Lexeme) : Bool :=
  l.pieces.any fun
    | .stray _ => true
    | .lexeme _ => false

theorem Lexeme.flatMap_pieces {ls : List Lexeme} (h : allProper (fun _ => false) ls = true) :
    ls.flatMap pieces = ls.map .lexeme := by
  induction ls with
  | nil => rfl
  | cons l ls ih =>
    rw [allProper_cons, Bool.or_false, Bool.and_eq_true] at h
    rw [List.flatMap_cons, pieces_of_isProper h.1, ih h.2]
    rfl

/-- **A text that spells proper lexemes scans to them.** -/
theorem Spells.scan {text : String} {ls : List Lexeme} (hspells : Spells text ls)
    (h : allProper (fun _ => false) ls = true) :
    ∃ s, EmberLang.scan text = .ok s ∧ s.tokens.map Token.lexeme = ls := by
  refine scan_of_pieces ?_
  have hpieces := hspells [] Scan.breaks_nil
  rw [List.append_nil, Scan.pieces_nil, List.append_nil, Lexeme.flatMap_pieces h] at hpieces
  exact hpieces

/-- A text with a broken lexeme does not scan. -/
theorem Spells.allProper_of_scan {text : String} {ls : List Lexeme} (hspells : Spells text ls)
    (h : allProper Lexeme.isBroken ls = true) {s : Scanned}
    (hscan : EmberLang.scan text = .ok s) : allProper (fun _ => false) ls = true := by
  have hpieces := hspells [] Scan.breaks_nil
  rw [List.append_nil, Scan.pieces_nil, List.append_nil, pieces_of_scan hscan] at hpieces
  refine List.all_eq_true.2 fun l hl => ?_
  rw [Bool.or_false]
  refine (Bool.or_eq_true_iff.1 (List.all_eq_true.1 h l hl)).resolve_right fun hbroken => ?_
  obtain ⟨piece, hpiece, hstray⟩ := List.any_eq_true.1 hbroken
  have hmem : piece ∈ ls.flatMap Lexeme.pieces := List.mem_flatMap.2 ⟨l, hl, hpiece⟩
  rw [← hpieces] at hmem
  obtain ⟨_, _, rfl⟩ := List.mem_map.1 hmem
  cases hstray

end EmberLang
