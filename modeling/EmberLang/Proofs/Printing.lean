import EmberLang.Proofs.Outcome
import EmberLang.Proofs.Spelling
import Mathlib.Data.List.Forall2

/-!
# What a printed tree spells

The printer gives every well-formed program a text, and the text spells the
lexemes of the program – `programText_spells`. The proof follows the printer:
one lemma for each function of it, from the marks and words up, each of them
saying that the function gives a text and what the text spells. For the
functions that call each other the lemmas are proved by one mutual induction
on the tree.

The vocabulary is a parameter here. What is asked of it is that its literals
can be written and that it has no constructors – `Vocabulary.Spelled`. A tree
with constructors has the text of the tree in which they are calls and
variables again, so nothing is lost by it.
-/

namespace EmberLang

/-! ## The marks and words that the printer writes -/

namespace Chunk

theorem space : Closes " " [] := (Closes.blank (c := ' ') rfl).of_eq (by decide)

theorem newline : Closes "\n" [] := (Closes.blank (c := '\n') rfl).of_eq (by decide)

theorem leftParen : Closes "(" [.mark .leftParen] := Closes.mark (m := .leftParen) (by decide)

theorem rightParen : Closes ")" [.mark .rightParen] := Closes.mark (m := .rightParen) (by decide)

theorem leftBracket : Closes "[" [.mark .leftBracket] := Closes.mark (m := .leftBracket) (by decide)

theorem rightBracket : Closes "]" [.mark .rightBracket] :=
  Closes.mark (m := .rightBracket) (by decide)

theorem rightBrace : Closes "\x7d" [.mark .rightBrace] := Closes.mark (m := .rightBrace) (by decide)

theorem spaceLeftBrace : Closes " \x7b" [.mark .leftBrace] :=
  (space.append (Closes.mark (m := .leftBrace) (by decide))).of_eq (by decide)

theorem leftBraceLine : Closes "\x7b\n" [.mark .leftBrace] :=
  ((Closes.mark (m := .leftBrace) (by decide)).append newline).of_eq (by decide)

theorem comma : Closes ", " [.mark .comma] :=
  ((Closes.mark (m := .comma) (by decide)).append space).of_eq (by decide)

theorem colon : Closes ": " [.mark .colon] :=
  ((Closes.mark (m := .colon) (by decide)).append space).of_eq (by decide)

theorem bar : Closes "| " [.mark .bar] :=
  ((Closes.mark (m := .bar) (by decide)).append space).of_eq (by decide)

theorem semicolon : Closes ";" [.mark .semicolon] := Closes.mark (m := .semicolon) (by decide)

theorem semicolonLine : Closes ";\n" [.mark .semicolon] :=
  (semicolon.append newline).of_eq (by decide)

theorem arrow : Closes " -> " [.mark .arrow] :=
  ((space.append (Closes.mark (m := .arrow) (by decide))).append space).of_eq (by decide)

theorem parenArrow : Closes ") -> " [.mark .rightParen, .mark .arrow] :=
  (rightParen.append arrow).of_eq (by decide)

theorem fatArrow : Closes " =>" [.mark .fatArrow] :=
  (space.append (Closes.mark (m := .fatArrow) (by decide))).of_eq (by decide)

theorem fatArrowSpace : Closes " => " [.mark .fatArrow] := (fatArrow.append space).of_eq (by decide)

theorem parenFatArrow : Closes ") => " [.mark .rightParen, .mark .fatArrow] :=
  (rightParen.append fatArrowSpace).of_eq (by decide)

/-- The one mark that begins another is written before a break. -/
theorem equal : Spells " =" [.mark .equal] :=
  (space.andThen (Spells.lexeme (Lexeme.isProper_mark .equal))).of_eq (by decide)

theorem equalSpace : Closes " = " [.mark .equal] := (equal.close space rfl).of_eq (by decide)

theorem externSpace : Closes "extern " [.keyword .kwExtern] :=
  ((Spells.keyword .kwExtern).close space rfl).of_eq (by decide)

theorem dataSpace : Closes "data " [.keyword .kwData] :=
  ((Spells.keyword .kwData).close space rfl).of_eq (by decide)

theorem typeSpace : Closes "type " [.keyword .kwType] :=
  ((Spells.keyword .kwType).close space rfl).of_eq (by decide)

theorem funSpace : Closes "fun " [.keyword .kwFun] :=
  ((Spells.keyword .kwFun).close space rfl).of_eq (by decide)

theorem letSpace : Closes "let " [.keyword .kwLet] :=
  ((Spells.keyword .kwLet).close space rfl).of_eq (by decide)

theorem caseSpace : Closes "case " [.keyword .kwCase] :=
  ((Spells.keyword .kwCase).close space rfl).of_eq (by decide)

theorem spaceOf : Spells " of" [.keyword .kwOf] :=
  (space.andThen (Spells.keyword .kwOf)).of_eq (by decide)

theorem beginLine : Closes "begin\n" [.keyword .kwBegin] :=
  ((Spells.keyword .kwBegin).close newline rfl).of_eq (by decide)

theorem endSemicolon : Closes "end;" [.keyword .kwEnd, .mark .semicolon] :=
  ((Spells.keyword .kwEnd).close semicolon rfl).of_eq (by decide)

theorem funParen : Closes "fun(" [.keyword .kwFun, .mark .leftParen] :=
  ((Spells.keyword .kwFun).close leftParen rfl).of_eq (by decide)

theorem fnParen : Closes "fn(" [.keyword .kwFn, .mark .leftParen] :=
  ((Spells.keyword .kwFn).close leftParen rfl).of_eq (by decide)

theorem colonFunParen : Closes " : fun(" [.mark .colon, .keyword .kwFun, .mark .leftParen] :=
  ((space.append colon).append funParen).of_eq (by decide)

end Chunk

namespace Spells

variable {s : String} {ls ms : List Lexeme} {texts : List String} {lss : List (List Lexeme)}

/-- Texts with commas between them. -/
theorem commas (h : List.Forall₂ Spells texts lss) :
    Spells (Node.commas texts) (commaSeparated lss) := by
  unfold Node.commas
  induction h with
  | nil =>
    rw [String.intercalate_nil]
    exact empty
  | @cons s ls texts lss hs hrest ih =>
    cases hrest with
    | nil =>
      rw [String.intercalate_singleton]
      exact hs.congr (by simp [commaSeparated])
    | @cons t ms texts lss ht hrest =>
      rw [String.intercalate_cons_cons]
      exact ((hs.close Chunk.comma rfl).andThen ih).congr (by simp [commaSeparated])

/-- Texts on lines of their own. -/
theorem lines (h : List.Forall₂ Spells texts lss) : Spells (Node.lines texts) lss.flatten := by
  unfold Node.lines
  induction h with
  | nil =>
    rw [String.intercalate_nil]
    exact empty
  | @cons s ls texts lss hs hrest ih =>
    cases hrest with
    | nil =>
      rw [String.intercalate_singleton]
      exact hs.congr (by simp)
    | @cons t ms texts lss ht hrest =>
      rw [String.intercalate_cons_cons]
      exact ((hs.close Chunk.newline rfl).andThen ih).congr (by simp)

end Spells

/-! ## Names and types -/

namespace Name

variable {n : Name}

theorem spells_text (h : n.isIdent = true) : Spells n.text [n.lexeme] := by
  cases n with
  | word s => exact Spells.lexeme (l := .ident s) h
  | other j => cases h

theorem eq_of_isWord {s : String} (h : n.isWord s = true) : n = .word s := by
  cases n with
  | word t => rw [eq_of_beq h]
  | other j => cases h

/-- A word that is no identifier is not the name of anything. -/
theorem isWord_eq_false {s : String} (h : n.isIdent = true)
    (hs : (Lexeme.ident s).isProper = false) : n.isWord s = false := by
  cases hword : n.isWord s with
  | false => rfl
  | true =>
    rw [eq_of_isWord hword] at h
    exact h.symm.trans hs

theorem spells_intrinsic (n : Name) (h : n.isSigilName = true) :
    Spells ("@" ++ n.text) [.intrinsic n.text] := by
  cases n with
  | word s => exact Spells.lexeme (l := .intrinsic s) h
  | other j => cases h

theorem spells_directive (n : Name) (h : n.isSigilName = true) :
    Spells ("#" ++ n.text) [.directive n.text] := by
  cases n with
  | word s => exact Spells.lexeme (l := .directive s) (Lexeme.isProper_directive h)
  | other j => cases h

theorem needWord_of_isIdent (h : n.isIdent = true) : n.needWord = .ok () := by
  cases n with
  | word s => rfl
  | other j => cases h

theorem forM_needWord {names : List Name} (h : ∀ n ∈ names, n.isIdent = true) :
    names.forM needWord = .ok () := by
  induction names with
  | nil => rfl
  | cons n names ih =>
    show (do n.needWord; names.forM needWord) = _
    rw [needWord_of_isIdent (h n List.mem_cons_self)]
    exact ih fun m hm => h m (List.mem_cons_of_mem n hm)

theorem forall₂_spells {names : List Name} (h : ∀ n ∈ names, n.isIdent = true) :
    List.Forall₂ Spells (names.map text) (names.map fun n => [n.lexeme]) := by
  induction names with
  | nil => exact .nil
  | cons n names ih =>
    exact .cons (spells_text (h n List.mem_cons_self))
      (ih fun m hm => h m (List.mem_cons_of_mem n hm))

theorem commas_spells {names : List Name} (h : ∀ n ∈ names, n.isIdent = true) :
    ∃ s, commas names = .ok s ∧ Spells s (commaSeparated (names.map fun n => [n.lexeme])) := by
  refine ⟨Node.commas (names.map text), ?_, Spells.commas (forall₂_spells h)⟩
  unfold commas
  rw [forM_needWord h]
  rfl

end Name

/-- The last of two lists of equal length that are related item by
item. -/
theorem forall₂_dropLast {α β : Type} {R : α → β → Prop} {as : List α} {bs : List β}
    (h : List.Forall₂ R as bs) (hne : bs ≠ []) (d : β) :
    List.Forall₂ R as.dropLast bs.dropLast
      ∧ ∃ a, as.getLast? = some a ∧ R a (bs.getLastD d) := by
  induction h with
  | nil => exact absurd rfl hne
  | @cons a b as bs hab hrest ih =>
    cases hrest with
    | nil => exact ⟨.nil, a, rfl, hab⟩
    | @cons a' b' as bs hab' hrest =>
      obtain ⟨hdrop, c, hc, hlast⟩ := ih (by simp)
      exact ⟨.cons hab hdrop, c, hc, hlast⟩

namespace TypeSpec

mutual

/-- **A type spells its lexemes.** -/
theorem text_spells (t : TypeSpec) (h : t.isWritten = true) :
    ∃ s, t.text = .ok s ∧ Spells s t.lexemes := by
  cases t with
  | mk kind args =>
    rw [isWritten, Bool.or_eq_true, Bool.or_eq_true, Bool.and_eq_true, Bool.and_eq_true,
      Bool.and_eq_true, Bool.and_eq_true] at h
    rcases h with (⟨hunit, hargs⟩ | ⟨⟨hfun, hne⟩, hargs⟩) | ⟨hident, hargs⟩
    · obtain rfl := Name.eq_of_isWord hunit
      obtain rfl := List.isEmpty_iff.1 hargs
      exact ⟨"()", rfl, (Chunk.leftParen.append Chunk.rightParen).spells⟩
    · obtain rfl := Name.eq_of_isWord hfun
      obtain ⟨ss, hss, hspells⟩ := texts_spell args hargs
      have hlexemes : lexemesAll args ≠ [] := by
        cases args with
        | nil => cases hne
        | cons t ts => simp [lexemesAll]
      obtain ⟨hdrop, result, hresult, hlast⟩ := forall₂_dropLast hspells hlexemes []
      refine ⟨"fun(" ++ Node.commas ss.dropLast ++ ") -> " ++ result, ?_, ?_⟩
      · rw [text, hss]
        show assemble (.word "fun") ss = _
        unfold assemble
        rw [if_pos hfun, hresult]
        rfl
      · have hparams := (Chunk.funParen.andThen (.commas hdrop)).close Chunk.parenArrow rfl
        exact (hparams.andThen hlast).congr (by simp [lexemes, parenthesized, Name.isWord])
    · obtain ⟨ss, hss, hspells⟩ := texts_spell args hargs
      have hfun := Name.isWord_eq_false hident (s := "fun") (by decide)
      have hunit := Name.isWord_eq_false hident (s := "()") (by decide)
      cases args with
      | nil =>
        obtain rfl : ss = [] := by cases hspells; rfl
        refine ⟨kind.text, ?_, ?_⟩
        · rw [text, hss]
          show assemble kind [] = _
          unfold assemble
          rw [if_neg (by simp [hfun]), if_pos List.isEmpty_nil, Name.needWord_of_isIdent hident]
          rfl
        · exact (Name.spells_text hident).congr (by simp [lexemes, hfun, hunit])
      | cons t ts =>
        obtain ⟨s, ss, rfl⟩ : ∃ s ss', ss = s :: ss' := by
          cases hspells
          exact ⟨_, _, rfl⟩
        refine ⟨kind.text ++ "[" ++ Node.commas (s :: ss) ++ "]", ?_, ?_⟩
        · rw [text, hss]
          show assemble kind (s :: ss) = _
          unfold assemble
          rw [if_neg (by simp [hfun]), if_neg (by simp)]
          rfl
        · have hname := (Name.spells_text hident).close Chunk.leftBracket rfl
          exact ((hname.andThen (.commas hspells)).close Chunk.rightBracket rfl).spells.congr
            (by simp [lexemes, bracketed, hfun, hunit])

theorem texts_spell (ts : List TypeSpec) (h : areWritten ts = true) :
    ∃ ss, texts ts = .ok ss ∧ List.Forall₂ Spells ss (lexemesAll ts) := by
  cases ts with
  | nil => exact ⟨[], rfl, .nil⟩
  | cons t ts =>
    rw [areWritten, Bool.and_eq_true] at h
    obtain ⟨s, hs, hspells⟩ := text_spells t h.1
    obtain ⟨ss, hss, hrest⟩ := texts_spell ts h.2
    refine ⟨s :: ss, ?_, .cons hspells hrest⟩
    rw [texts, hs, hss]
    rfl

end

end TypeSpec

namespace Node

/-! ## Parts of declarations -/

theorem shown_spells {n : Node} (h : n.isType = true) :
    ∃ s, n.shown = .ok s ∧ Spells s n.typeLexemes := by
  cases n with
  | typeSpec t =>
    obtain ⟨s, hs, hspells⟩ := t.text_spells h
    exact ⟨s, by rw [shown, hs], hspells⟩
  | _ => cases h

theorem shownAll_spell {ns : List Node} (h : ns.all isType = true) :
    ∃ ss, shownAll ns = .ok ss ∧ List.Forall₂ Spells ss (ns.map typeLexemes) := by
  induction ns with
  | nil => exact ⟨[], rfl, .nil⟩
  | cons n ns ih =>
    rw [List.all_cons, Bool.and_eq_true] at h
    obtain ⟨s, hs, hspells⟩ := shown_spells h.1
    obtain ⟨ss, hss, hrest⟩ := ih h.2
    refine ⟨s :: ss, ?_, .cons hspells hrest⟩
    rw [shownAll, hs, hss]
    rfl

/-- A type after a mark, or nothing. -/
theorem typeAfter_spells {mark : String} {m : Mark} (hmark : Closes mark [.mark m])
    (hopens : opens mark = true) {n : Node} (h : n.isOptionalType = true) :
    ∃ s, typeAfter mark n = .ok s ∧ Spells s (lexemesAfter m n) ∧ (s = "" ∨ opens s = true) := by
  cases n with
  | typeSpec t =>
    obtain ⟨s, hs, hspells⟩ := shown_spells (n := .typeSpec t) h
    refine ⟨mark ++ s, ?_, hmark.andThen hspells, .inr (opens_append hopens s)⟩
    rw [typeAfter, hs]
    · rfl
    · exact nofun
  | atom a =>
    cases a with
    | null => exact ⟨"", rfl, Spells.empty, .inl rfl⟩
    | _ => cases h
  | _ => cases h

theorem typeParamsText_spells {names : List Name} (h : names.all Name.isIdent = true) :
    ∃ s, typeParamsText names = .ok s ∧ Spells s (typeParamLexemes names)
      ∧ (s = "" ∨ opens s = true) := by
  unfold typeParamsText typeParamLexemes
  cases names with
  | nil => exact ⟨"", rfl, Spells.empty, .inl rfl⟩
  | cons n names =>
    obtain ⟨s, hs, hspells⟩ := Name.commas_spells (List.all_eq_true.1 h)
    refine ⟨"[" ++ s ++ "]", ?_, ?_, .inr (opens_append (opens_append rfl s) _)⟩
    · rw [if_neg (by simp), hs]
      rfl
    · rw [if_neg (by simp)]
      exact ((Chunk.leftBracket.andThen hspells).close Chunk.rightBracket rfl).spells

theorem paramText_spells {n : Node} (h : n.isParam = true) :
    ∃ s, paramText n = .ok s ∧ Spells s n.paramLexemes := by
  cases n with
  | param p name t =>
    rw [isParam, Bool.and_eq_true] at h
    obtain ⟨s, hs, hspells, hopens⟩ := typeAfter_spells Chunk.colon rfl h.2
    refine ⟨name.text ++ s, ?_, (Name.spells_text h.1).append hspells hopens⟩
    rw [paramText, paramParts?]
    dsimp only
    rw [hs]
    rfl
  | _ => cases h

theorem bareParam_isIdent {params : List Node} (h : params.all isParam = true) :
    ∀ n ∈ params.filterMap bareParam?, n.isIdent = true := by
  intro n hn
  obtain ⟨d, hd, hbare⟩ := List.mem_filterMap.1 hn
  have hparam := List.all_eq_true.1 h d hd
  cases d with
  | param p name t =>
    rw [isParam, Bool.and_eq_true] at hparam
    unfold bareParam? at hbare
    split at hbare
    · next name' heq =>
      obtain ⟨rfl, -⟩ := Prod.mk.inj (Option.some.inj heq)
      obtain rfl := Option.some.inj hbare
      exact hparam.1
    · cases hbare
  | _ => cases hparam

theorem paramList_spells {params : List Node} (h : params.all isParam = true) :
    ∃ s, paramList params = .ok s ∧ Spells s (commaSeparated (params.map paramLexemes)) := by
  have htexts : ∃ ss, paramTexts params = .ok ss
      ∧ List.Forall₂ Spells ss (params.map paramLexemes) := by
    induction params with
    | nil => exact ⟨[], rfl, .nil⟩
    | cons n ns ih =>
      rw [List.all_cons, Bool.and_eq_true] at h
      obtain ⟨s, hs, hspells⟩ := paramText_spells h.1
      obtain ⟨ss, hss, hrest⟩ := ih h.2
      refine ⟨s :: ss, ?_, .cons hspells hrest⟩
      rw [paramTexts, hs, hss]
      rfl
  obtain ⟨ss, hss, hspells⟩ := htexts
  refine ⟨commas ss, ?_, Spells.commas hspells⟩
  unfold paramList
  rw [hss]
  show (do (params.filterMap bareParam?).forM Name.needWord; pure (commas ss)) = _
  rw [Name.forM_needWord (bareParam_isIdent h)]
  rfl

theorem constructorText_spells {n : Node} (h : n.isConstructorDecl = true) :
    ∃ s, constructorText n = .ok s ∧ Spells s n.constructorLexemes := by
  cases n with
  | constructorDecl p name fieldTypes =>
    rw [isConstructorDecl, Bool.and_eq_true] at h
    obtain ⟨ss, hss, hspells⟩ := shownAll_spell h.2
    have hname := Name.spells_text h.1
    cases fieldTypes with
    | nil =>
      refine ⟨name.text, ?_, hname⟩
      obtain rfl : ss = [] := by cases hspells; rfl
      rw [constructorText, hss]
      rfl
    | cons t ts =>
      refine ⟨name.text ++ "(" ++ commas ss ++ ")", ?_, ?_⟩
      · rw [constructorText, hss]
        cases hspells
        rfl
      · have htext := ((hname.close Chunk.leftParen rfl).andThen (.commas hspells)).close
          Chunk.rightParen rfl
        exact htext.spells.congr (by simp [constructorLexemes, parenthesized])
  | _ => cases h

/-! ## Patterns -/

/-- **A vocabulary whose texts spell their lexemes**: its literals do, and
it has no constructors. -/
structure Vocabulary.Spelled (V : Vocabulary) : Prop where
  /-- The literals spell their lexemes. -/
  literal : ∀ v, V.literal v = true → ∃ s, v.text = .ok s ∧ Spells s [v.lexeme]
  /-- There are no constructors. -/
  construct : ∀ c, V.construct c = false

variable {V : Vocabulary}

theorem listText_eq {ns : List Node} (h : ∀ n ∈ ns.filterMap bareName?, n.isIdent = true)
    (texts : List String) : listText ns texts = .ok (commas texts) := by
  unfold listText
  rw [Name.forM_needWord h]
  rfl

/-- A pattern that is a bare name is an identifier. -/
theorem bareName_isIdent_of_arePatterns {ns : List Node} (h : arePatterns V ns = true) :
    ∀ n ∈ ns.filterMap bareName?, n.isIdent = true := by
  induction ns with
  | nil => simp
  | cons d ns ih =>
    rw [arePatterns, Bool.and_eq_true] at h
    intro n hn
    rcases List.mem_filterMap.1 hn with ⟨e, he, hbare⟩
    rcases List.mem_cons.1 he with rfl | he
    · cases e with
      | patternVar p name =>
        obtain rfl := Option.some.inj hbare
        rw [isPattern, Bool.and_eq_true] at h
        exact h.1.1
      | patternWild p => cases hbare
      | patternLit p v => cases hbare
      | patternCtor p c args => cases hbare
      | _ => cases h.1
    · exact ih h.2 n (List.mem_filterMap.2 ⟨e, he, hbare⟩)

mutual

/-- **A pattern spells its lexemes.** -/
theorem patternText_spells (hV : V.Spelled) (n : Node) (h : n.isPattern V = true) :
    ∃ s, n.patternText = .ok s ∧ Spells s n.patternLexemes := by
  cases n with
  | patternWild p => exact ⟨"_", rfl, Spells.lexeme (l := .ident "_") (by decide)⟩
  | patternVar p name =>
    rw [isPattern, Bool.and_eq_true] at h
    exact ⟨name.text, rfl, Name.spells_text h.1⟩
  | patternLit p v =>
    obtain ⟨s, hs, hspells⟩ := hV.literal v h
    exact ⟨s, by rw [patternText, hs], hspells⟩
  | patternCtor p c args =>
    rw [isPattern, Bool.and_eq_true, Bool.and_eq_true] at h
    obtain ⟨ss, hss, hspells⟩ := patternTexts_spell hV args h.2
    refine ⟨c.text ++ "(" ++ commas ss ++ ")", ?_, ?_⟩
    · rw [patternText, hss]
      show (do return c.text ++ "(" ++ (← listText args ss) ++ ")") = _
      rw [listText_eq (bareName_isIdent_of_arePatterns h.2)]
      rfl
    · have hname := (Name.spells_text h.1.1).close Chunk.leftParen rfl
      exact ((hname.andThen (.commas hspells)).close Chunk.rightParen rfl).spells.congr
        (by simp [patternLexemes, parenthesized])
  | _ => cases h

theorem patternTexts_spell (hV : V.Spelled) (ns : List Node) (h : arePatterns V ns = true) :
    ∃ ss, patternTexts ns = .ok ss ∧ List.Forall₂ Spells ss (patternsLexemes ns) := by
  cases ns with
  | nil => exact ⟨[], rfl, .nil⟩
  | cons n ns =>
    rw [arePatterns, Bool.and_eq_true] at h
    obtain ⟨s, hs, hspells⟩ := patternText_spells hV n h.1
    obtain ⟨ss, hss, hrest⟩ := patternTexts_spell hV ns h.2
    refine ⟨s :: ss, ?_, .cons hspells hrest⟩
    rw [patternTexts, hs, hss]
    rfl

end

/-! ## Expressions and declarations -/

namespace Place

variable {s : String} {ls : List Lexeme}

theorem put_spells (h : Spells s ls) (place : Place) (indent : Nat) :
    Spells (place.put indent s) ls := by
  cases place with
  | items => exact (Closes.pad indent).andThen h
  | _ => exact h

theorem enclose_spells (h : Spells s ls) (place : Place) (indent : Nat) :
    Spells (place.enclose indent s) (place.around ls) := by
  cases place with
  | operand =>
    have hlines := ((Chunk.beginLine.andThen h).close Chunk.newline rfl).append (Closes.pad indent)
    exact (hlines.andThen (Spells.keyword .kwEnd)).congr (by simp [around])
  | body =>
    have hlines := ((Chunk.leftBraceLine.andThen h).close Chunk.newline rfl).append
      (Closes.pad indent)
    exact (hlines.append Chunk.rightBrace).spells.congr (by simp [around])
  | items => exact h

end Place

theorem bareName_isIdent_of_areExpressions (hV : V.Spelled) {ns : List Node}
    (h : areExpressions V ns = true) : ∀ n ∈ ns.filterMap bareName?, n.isIdent = true := by
  induction ns with
  | nil => simp
  | cons d ns ih =>
    rw [areExpressions, Bool.and_eq_true] at h
    intro n hn
    rcases List.mem_filterMap.1 hn with ⟨e, he, hbare⟩
    rcases List.mem_cons.1 he with rfl | he
    · cases e with
      | var p name =>
        obtain rfl := Option.some.inj hbare
        rw [isExpression, Bool.and_eq_true] at h
        exact h.1.1
      | construct p c args =>
        rw [isExpression, hV.construct, Bool.and_false, Bool.false_and] at h
        cases h.1
      | patternVar p name => cases h.1
      | _ => cases hbare
    · exact ih h.2 n (List.mem_filterMap.2 ⟨e, he, hbare⟩)

theorem calleeText_spells {callee : Node} {s : String} {ls : List Lexeme} (h : Spells s ls) :
    Spells (calleeText callee s) (calleeLexemes callee ls) := by
  cases callee with
  | lambda p params body =>
    exact ((Chunk.leftParen.andThen h).close Chunk.rightParen rfl).spells
  | _ => exact h

/-- **What is applied to arguments spells its lexemes**, whatever is applied:
the text of the arguments comes after it in parentheses. -/
theorem application_spells (hV : V.Spelled) (place : Place) (indent : Nat) {s : String}
    {ls : List Lexeme} (hs : Spells s ls) {args : List Node} (h : areExpressions V args = true)
    {texts : List String} (hargs : List.Forall₂ Spells texts (lexemesAll args)) :
    ∃ text, (do return place.put indent (s ++ "(" ++ (← listText args texts) ++ ")")) = .ok text
      ∧ Spells text (ls ++ parenthesized (lexemesAll args)) := by
  rw [listText_eq (bareName_isIdent_of_areExpressions hV h)]
  refine ⟨_, rfl, place.put_spells ?_ indent⟩
  have hclosed := ((hs.close Chunk.leftParen rfl).andThen (.commas hargs)).close
    Chunk.rightParen rfl
  exact hclosed.spells.congr (by simp [parenthesized])

theorem externText_spells {name : Name} {tps : List Name} {paramTypes : List Node}
    {returnType : Node} (hname : name.isIdent = true) (htps : tps.all Name.isIdent = true)
    (hparams : paramTypes.all isType = true) (hresult : returnType.isType = true) :
    ∃ s, externText name tps paramTypes returnType = .ok s
      ∧ ∀ p, Spells s (declarationLexemes (.externDecl p name tps paramTypes returnType)) := by
  obtain ⟨tpsText, htpsText, htpsSpells, htpsOpens⟩ := typeParamsText_spells htps
  obtain ⟨params, hparamsText, hparamsSpell⟩ := shownAll_spell hparams
  obtain ⟨result, hresultText, hresultSpells⟩ := shown_spells hresult
  refine ⟨"extern " ++ name.text ++ tpsText ++ " : fun(" ++ commas params ++ ") -> " ++ result
    ++ ";", ?_, fun p => ?_⟩
  · unfold externText
    rw [htpsText, hparamsText, hresultText]
    rfl
  · have hhead := (Chunk.externSpace.andThen (Name.spells_text hname)).append htpsSpells htpsOpens
    have hparams := ((hhead.close Chunk.colonFunParen rfl).andThen (.commas hparamsSpell)).close
      Chunk.parenArrow rfl
    exact ((hparams.andThen hresultSpells).close Chunk.semicolon rfl).spells.congr
      (by simp [declarationLexemes, parenthesized])

theorem funHeader_spells {name : Name} {tps : List Name} {params : List Node}
    {returnType : Node} (hname : name.isIdent = true) (htps : tps.all Name.isIdent = true)
    (hparams : params.all isParam = true) (hresult : returnType.isOptionalType = true) :
    ∃ s, funHeader name tps params returnType = .ok s
      ∧ Closes s (.keyword .kwFun :: name.lexeme :: typeParamLexemes tps
        ++ parenthesized (params.map paramLexemes) ++ lexemesAfter .arrow returnType
        ++ [Lexeme.mark .fatArrow]) := by
  obtain ⟨tpsText, htpsText, htpsSpells, htpsOpens⟩ := typeParamsText_spells htps
  obtain ⟨ps, hps, hpsSpell⟩ := paramList_spells hparams
  obtain ⟨result, hresultText, hresultSpells, hresultOpens⟩ :=
    typeAfter_spells Chunk.arrow rfl hresult
  refine ⟨"fun " ++ name.text ++ tpsText ++ "(" ++ ps ++ ")" ++ result ++ " =>", ?_, ?_⟩
  · unfold funHeader
    rw [hps, hresultText, htpsText]
    rfl
  · have hhead := (Chunk.funSpace.andThen (Name.spells_text hname)).append htpsSpells htpsOpens
    have hparams := ((hhead.close Chunk.leftParen rfl).andThen hpsSpell).close
      Chunk.rightParen rfl
    exact ((hparams.andThen hresultSpells).close Chunk.fatArrow rfl).congr
      (by simp [parenthesized])

theorem constructorLines_spell (indent : Nat) {cs : List Node}
    (h : cs.all isConstructorDecl = true) :
    ∃ ss, constructorLines indent cs = .ok ss
      ∧ List.Forall₂ Spells ss (cs.map fun c => .mark .bar :: constructorLexemes c) := by
  induction cs with
  | nil => exact ⟨[], rfl, .nil⟩
  | cons c cs ih =>
    rw [List.all_cons, Bool.and_eq_true] at h
    obtain ⟨s, hs, hspells⟩ := constructorText_spells h.1
    obtain ⟨ss, hss, hrest⟩ := ih h.2
    refine ⟨(pad (indent + 1) ++ "| " ++ s) :: ss, ?_, .cons ?_ hrest⟩
    · rw [constructorLines, hs, hss]
      rfl
    · exact ((Closes.pad (indent + 1)).append Chunk.bar).andThen hspells

mutual

/-- **An expression spells its lexemes**, in every place and at every
indentation. -/
theorem phrase_spells (hV : V.Spelled) (place : Place) (indent : Nat) (n : Node)
    (h : n.isExpression V = true) :
    ∃ s, n.phrase place indent = .ok s ∧ Spells s (n.lexemes place) := by
  cases n with
  | literal p v =>
    obtain ⟨s, hs, hspells⟩ := hV.literal v h
    exact ⟨place.put indent s, by rw [phrase, hs]; rfl, place.put_spells hspells indent⟩
  | unit p =>
    exact ⟨place.put indent "()", by rw [phrase],
      place.put_spells (Chunk.leftParen.append Chunk.rightParen).spells indent⟩
  | var p name =>
    rw [isExpression, Bool.and_eq_true] at h
    exact ⟨place.put indent name.text, by rw [phrase],
      place.put_spells (Name.spells_text h.1) indent⟩
  | construct p c args =>
    rw [isExpression, hV.construct, Bool.and_false, Bool.false_and] at h
    cases h
  | call p callee args =>
    rw [isExpression, Bool.and_eq_true, Bool.and_eq_true] at h
    obtain ⟨s, hs, hspells⟩ := phrase_spells hV .operand indent callee h.1.2
    obtain ⟨ss, hss, hargs⟩ := phrases_spell hV indent args h.2
    rw [phrase, lexemes, hs, hss]
    exact application_spells hV place indent (calleeText_spells hspells) h.2 hargs
  | intrinsicCall p op args =>
    rw [isExpression, Bool.and_eq_true] at h
    obtain ⟨ss, hss, hargs⟩ := phrases_spell hV indent args h.2
    rw [phrase, lexemes, hss]
    exact application_spells hV place indent (op.spells_intrinsic h.1) h.2 hargs
  | directiveCall p name args =>
    rw [isExpression, Bool.and_eq_true] at h
    obtain ⟨ss, hss, hargs⟩ := phrases_spell hV indent args h.2
    rw [phrase, lexemes, hss]
    exact application_spells hV place indent (name.spells_directive h.1) h.2 hargs
  | caseOf p scrutinee arms =>
    rw [isExpression, Bool.and_eq_true, Bool.and_eq_true] at h
    obtain ⟨s, hs, hspells⟩ := phrase_spells hV .operand indent scrutinee h.1.1
    obtain ⟨ss, hss, harms⟩ := armLines_spell hV indent arms h.2
    refine ⟨place.put indent (lines (("case " ++ s ++ " of") :: ss ++ [pad indent ++ "end"])),
      ?_, ?_⟩
    · rw [phrase, hs, hss]
      rfl
    · have hhead := (Chunk.caseSpace.andThen hspells).append Chunk.spaceOf (.inr rfl)
      have hend := (Closes.pad indent).andThen (Spells.keyword .kwEnd)
      have hlines := Spells.lines (.cons hhead (List.rel_append harms (.cons hend .nil)))
      exact place.put_spells (hlines.congr (by simp [lexemes])) indent
  | letIn p name value body t =>
    rw [isExpression, Bool.and_eq_true, Bool.and_eq_true, Bool.and_eq_true] at h
    obtain ⟨ts, hts, htsSpells, htsOpens⟩ := typeAfter_spells Chunk.colon rfl h.1.1.2
    obtain ⟨s, hs, hspells⟩ := phrase_spells hV .operand (place.itemIndent indent) value h.1.2
    obtain ⟨rest, hrest, hrestSpells⟩ :=
      phrase_spells hV .items (place.itemIndent indent) body h.2
    refine ⟨place.enclose indent (pad (place.itemIndent indent) ++ "let " ++ name.text ++ ts
      ++ " = " ++ s ++ ";\n" ++ rest), ?_, ?_⟩
    · rw [phrase, hts, hs, hrest]
      rfl
    · have hpad := Closes.pad (place.itemIndent indent)
      have hname := ((hpad.append Chunk.letSpace).andThen
        (Name.spells_text h.1.1.1)).append htsSpells htsOpens
      have hvalue := ((hname.close Chunk.equalSpace rfl).andThen hspells).close
        Chunk.semicolonLine rfl
      rw [lexemes]
      exact place.enclose_spells ((hvalue.andThen hrestSpells).congr (by simp)) indent
  | seq p first rest =>
    rw [isExpression, Bool.and_eq_true] at h
    obtain ⟨s, hs, hspells⟩ := phrase_spells hV .operand (place.itemIndent indent) first h.1
    obtain ⟨more, hmore, hmoreSpells⟩ :=
      phrase_spells hV .items (place.itemIndent indent) rest h.2
    refine ⟨place.enclose indent (pad (place.itemIndent indent) ++ s ++ ";\n" ++ more), ?_, ?_⟩
    · rw [phrase, hs, hmore]
      rfl
    · have hpad := Closes.pad (place.itemIndent indent)
      have hfirst := (hpad.andThen hspells).close Chunk.semicolonLine rfl
      rw [lexemes]
      exact place.enclose_spells ((hfirst.andThen hmoreSpells).congr (by simp)) indent
  | lambda p params body =>
    rw [isExpression, Bool.and_eq_true] at h
    obtain ⟨ps, hps, hpsSpell⟩ := Name.commas_spells (List.all_eq_true.1 h.1)
    obtain ⟨s, hs, hspells⟩ := phrase_spells hV .body indent body h.2
    refine ⟨place.put indent ("fn(" ++ ps ++ ") => " ++ s), ?_, ?_⟩
    · rw [phrase, hps, hs]
      rfl
    · have hparams := (Chunk.fnParen.andThen hpsSpell).close Chunk.parenFatArrow rfl
      rw [lexemes]
      exact place.put_spells ((hparams.andThen hspells).congr (by simp [parenthesized])) indent
  | block p ds body =>
    rw [isExpression, Bool.and_eq_true, Bool.and_eq_true] at h
    obtain ⟨ss, hss, hds⟩ := declarationTexts_spell hV (indent + 1) ds h.1.2
    obtain ⟨s, hs, hspells⟩ := phrase_spells hV .items (indent + 1) body h.2
    refine ⟨place.put indent (lines ("begin" :: ss
      ++ [pad indent ++ "in", s, pad indent ++ "end"])), ?_, ?_⟩
    · rw [phrase, hss, hs]
      rfl
    · have hin := (Closes.pad indent).andThen (Spells.keyword .kwIn)
      have hend := (Closes.pad indent).andThen (Spells.keyword .kwEnd)
      have hlines := Spells.lines (.cons (Spells.keyword .kwBegin)
        (List.rel_append hds (.cons hin (.cons hspells (.cons hend .nil)))))
      exact place.put_spells (hlines.congr (by simp [lexemes])) indent
  | _ => cases h

theorem phrases_spell (hV : V.Spelled) (indent : Nat) (ns : List Node)
    (h : areExpressions V ns = true) :
    ∃ ss, phrases indent ns = .ok ss ∧ List.Forall₂ Spells ss (lexemesAll ns) := by
  cases ns with
  | nil => exact ⟨[], rfl, .nil⟩
  | cons n ns =>
    rw [areExpressions, Bool.and_eq_true] at h
    obtain ⟨s, hs, hspells⟩ := phrase_spells hV .operand indent n h.1
    obtain ⟨ss, hss, hrest⟩ := phrases_spell hV indent ns h.2
    refine ⟨s :: ss, ?_, .cons hspells hrest⟩
    rw [phrases, hs, hss]
    rfl

theorem armLines_spell (hV : V.Spelled) (indent : Nat) (ns : List Node)
    (h : areArms V ns = true) :
    ∃ ss, armLines indent ns = .ok ss ∧ List.Forall₂ Spells ss (armsLexemes ns) := by
  cases ns with
  | nil => exact ⟨[], rfl, .nil⟩
  | cons n ns =>
    rw [areArms, Bool.and_eq_true] at h
    obtain ⟨s, hs, hspells⟩ := armLine_spells hV indent n h.1
    obtain ⟨ss, hss, hrest⟩ := armLines_spell hV indent ns h.2
    refine ⟨s :: ss, ?_, .cons hspells hrest⟩
    rw [armLines, hs, hss]
    rfl

theorem armLine_spells (hV : V.Spelled) (indent : Nat) (n : Node) (h : n.isArm V = true) :
    ∃ s, armLine indent n = .ok s ∧ Spells s n.armLexemes := by
  cases n with
  | arm p pattern body =>
    rw [isArm, Bool.and_eq_true] at h
    obtain ⟨s, hs, hspells⟩ := patternText_spells hV pattern h.1
    obtain ⟨t, ht, htspells⟩ := phrase_spells hV .body (indent + 1) body h.2
    refine ⟨pad (indent + 1) ++ "| " ++ s ++ " => " ++ t, ?_, ?_⟩
    · rw [armLine, ht, hs]
      rfl
    · have hpattern := (((Closes.pad (indent + 1)).append Chunk.bar).andThen hspells).close
        Chunk.fatArrowSpace rfl
      exact (hpattern.andThen htspells).congr (by simp [armLexemes])
  | _ => cases h

/-- **A declaration spells its lexemes.** -/
theorem declarationText_spells (hV : V.Spelled) (indent : Nat) (n : Node)
    (h : n.isDeclaration V = true) :
    ∃ s, declarationText indent n = .ok s ∧ Spells s n.declarationLexemes := by
  cases n with
  | externDecl p name tps paramTypes returnType =>
    rw [isDeclaration, Bool.and_eq_true, Bool.and_eq_true, Bool.and_eq_true] at h
    obtain ⟨s, hs, hspells⟩ := externText_spells h.1.1.1 h.1.1.2 h.1.2 h.2
    exact ⟨pad indent ++ s, by rw [declarationText, hs]; rfl,
      (Closes.pad indent).andThen (hspells p)⟩
  | dataDecl p name tps constructors =>
    rw [isDeclaration, Bool.and_eq_true, Bool.and_eq_true, Bool.and_eq_true] at h
    obtain ⟨tpsText, htpsText, htpsSpells, htpsOpens⟩ := typeParamsText_spells h.1.1.2
    obtain ⟨ss, hss, hcs⟩ := constructorLines_spell indent h.2
    refine ⟨lines ((pad indent ++ "data " ++ name.text ++ tpsText ++ " =") :: ss
      ++ [pad indent ++ "end;"]), ?_, ?_⟩
    · rw [declarationText, htpsText, hss]
      rfl
    · have hname := (((Closes.pad indent).append Chunk.dataSpace).andThen
        (Name.spells_text h.1.1.1)).append htpsSpells htpsOpens
      have hhead := hname.append Chunk.equal (.inr rfl)
      have hend := ((Closes.pad indent).append Chunk.endSemicolon).spells
      exact (Spells.lines (.cons hhead (List.rel_append hcs (.cons hend .nil)))).congr
        (by simp [declarationLexemes, List.flatMap])
  | typeDecl p name tps t =>
    rw [isDeclaration, Bool.and_eq_true, Bool.and_eq_true] at h
    obtain ⟨tpsText, htpsText, htpsSpells, htpsOpens⟩ := typeParamsText_spells h.1.2
    obtain ⟨s, hs, hspells⟩ := shown_spells h.2
    refine ⟨pad indent ++ "type " ++ name.text ++ tpsText ++ " = " ++ s ++ ";", ?_, ?_⟩
    · rw [declarationText, htpsText, hs]
      rfl
    · have hname := (((Closes.pad indent).append Chunk.typeSpace).andThen
        (Name.spells_text h.1.1)).append htpsSpells htpsOpens
      have hall := ((hname.close Chunk.equalSpace rfl).andThen hspells).close Chunk.semicolon rfl
      exact hall.spells.congr (by simp [declarationLexemes])
  | funDecl p name tps params body returnType =>
    rw [isDeclaration, Bool.and_eq_true, Bool.and_eq_true, Bool.and_eq_true, Bool.and_eq_true] at h
    obtain ⟨header, hheader, hheaderCloses⟩ := funHeader_spells h.1.1.1.1 h.1.1.1.2 h.1.1.2 h.1.2
    obtain ⟨s, hs, hspells⟩ := phrase_spells hV .items (indent + 1) body h.2
    refine ⟨lines [pad indent ++ header ++ " \x7b", s, pad indent ++ "\x7d"], ?_, ?_⟩
    · rw [declarationText, hheader, hs]
      rfl
    · have hfirst := (((Closes.pad indent).append hheaderCloses).append
        Chunk.spaceLeftBrace).spells
      have hlast := ((Closes.pad indent).append Chunk.rightBrace).spells
      exact (Spells.lines (.cons hfirst (.cons hspells (.cons hlast .nil)))).congr
        (by simp [declarationLexemes])
  | _ => cases h

theorem declarationTexts_spell (hV : V.Spelled) (indent : Nat) (ns : List Node)
    (h : areDeclarations V ns = true) :
    ∃ ss, declarationTexts indent ns = .ok ss
      ∧ List.Forall₂ Spells ss (declarationsLexemes ns) := by
  cases ns with
  | nil => exact ⟨[], rfl, .nil⟩
  | cons n ns =>
    rw [areDeclarations, Bool.and_eq_true] at h
    obtain ⟨s, hs, hspells⟩ := declarationText_spells hV indent n h.1
    obtain ⟨ss, hss, hrest⟩ := declarationTexts_spell hV indent ns h.2
    refine ⟨s :: ss, ?_, .cons hspells hrest⟩
    rw [declarationTexts, hs, hss]
    rfl

end

/-- **A program spells its lexemes.** -/
theorem programText_spells (hV : V.Spelled) {root : Node} (h : root.isProgram V = true) :
    ∃ s, root.programText = .ok s ∧ Spells s root.programLexemes := by
  cases root with
  | program p ds body =>
    rw [isProgram, Bool.and_eq_true] at h
    obtain ⟨ss, hss, hds⟩ := declarationTexts_spell hV 1 ds h.1
    obtain ⟨s, hs, hspells⟩ := phrase_spells hV .items 1 body h.2
    refine ⟨lines ("begin" :: ss ++ ["in", s, "end"]) ++ "\n", ?_, ?_⟩
    · rw [programText, scope?]
      dsimp only
      rw [hss, hs]
      rfl
    · have hlines := Spells.lines (.cons (Spells.keyword .kwBegin) (List.rel_append hds
        (.cons (Spells.keyword .kwIn) (.cons hspells (.cons (Spells.keyword .kwEnd) .nil)))))
      exact (hlines.close Chunk.newline rfl).spells.congr (by simp [programLexemes])
  | _ => cases h

end Node

end EmberLang
