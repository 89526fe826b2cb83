import EmberLang.Proofs.Outline
import EmberLang.Proofs.Readers
import EmberLang.Proofs.RoundTrip

/-!
# What a text can hold

Every program that is read from a text has the shape of a program: its
parts stand where the grammar has them, its names are identifiers, and its
literals have texts. So what is proved about trees of that shape holds of
every program that was read.

The reason is that a reader makes names and literals only from the lexemes
it takes, and that the scanner gives proper lexemes only. What is asked of
the parts of a program is a shape, `Parser.proper`, and every way to build
a tree keeps it.
-/

namespace EmberLang

/-! ## Names and literals from lexemes -/

namespace Scan

/-- **Which rule gave a lexeme.** -/
theorem lexeme?_cases {cs rest : List Char} {l : Lexeme} (h : lexeme? cs = some (l, rest)) :
    (∃ k, l = .keyword k) ∨ (∃ s, l = .ident s) ∨ (∃ m, l = .mark m)
      ∨ (∃ negative ds, numeral (Decimal.signText negative) ds = some (l, rest))
      ∨ (∃ ds, character ds = some (l, rest)) ∨ (∃ ds, sigilName .intrinsic ds = some (l, rest))
      ∨ ∃ ds, sigilName .directive ds = some (l, rest) := by
  cases cs with
  | nil => cases h
  | cons c cs =>
    rw [lexeme?] at h
    split at h
    · obtain ⟨rfl, -⟩ := Prod.mk.inj (Option.some.inj h)
      unfold word
      split
      · next k _ => exact .inl ⟨k, rfl⟩
      · exact .inr (.inl ⟨_, rfl⟩)
    split at h
    · exact .inr (.inr (.inr (.inl ⟨false, c :: cs, h⟩)))
    split at h
    · exact .inr (.inr (.inr (.inr (.inl ⟨cs, h⟩))))
    split at h
    · exact .inr (.inr (.inr (.inr (.inr (.inl ⟨cs, h⟩)))))
    split at h
    · exact .inr (.inr (.inr (.inr (.inr (.inr ⟨cs, h⟩)))))
    split at h
    · next m _ _ =>
      obtain ⟨rfl, -⟩ := Prod.mk.inj (Option.some.inj h)
      exact .inr (.inr (.inl ⟨m, rfl⟩))
    split at h
    · exact .inr (.inr (.inr (.inl ⟨true, cs, h⟩)))
    · cases h

/-- A numeral gives an integer or a real. -/
theorem numeral_cases {sign cs rest : List Char} {l : Lexeme}
    (h : numeral sign cs = some (l, rest)) :
    (∃ whole, (∀ c ∈ whole, c.isDigit = true) ∧ l = .int (String.ofList (sign ++ whole)))
      ∨ ∃ s, l = .real s := by
  obtain ⟨whole, hwhole, hl⟩ := Option.map_eq_some_iff.1 h
  split at hl
  · exact .inr ⟨_, (Prod.mk.inj hl).1.symm⟩
  · exact .inl ⟨whole.1, digits1_digits hwhole, (Prod.mk.inj hl).1.symm⟩

/-- What stands between quotes is a character, or a backslash with a
character that may follow it. -/
theorem character_cases {cs rest : List Char} {l : Lexeme} (h : character cs = some (l, rest)) :
    (∃ c, escapable.contains c = true ∧ l = .char (String.ofList ['\\', c]))
      ∨ ∃ c, l = .char (String.ofList [c]) := by
  unfold character at h
  split at h
  · next c _ =>
    split at h
    · next hc => exact .inl ⟨c, hc, (Prod.mk.inj (Option.some.inj h)).1.symm⟩
    · cases h
  · next c _ _ =>
    split at h
    · cases h
    · exact .inr ⟨c, (Prod.mk.inj (Option.some.inj h)).1.symm⟩
  · cases h

theorem sigilName_cases {lexeme : String → Lexeme} {cs rest : List Char} {l : Lexeme}
    (h : sigilName lexeme cs = some (l, rest)) :
    ∃ s, l = lexeme s ∧ sigilName .intrinsic cs = some (.intrinsic s, rest) := by
  unfold sigilName at h ⊢
  split at h
  · next c cs =>
    dsimp only at h ⊢
    split at h
    · next hc =>
      obtain ⟨rfl, rfl⟩ := Prod.mk.inj (Option.some.inj h)
      rw [if_pos hc]
      exact ⟨_, rfl, rfl⟩
    · cases h
  · cases h

end Scan

namespace Lexeme

theorem isWritable_ofCharInner {c : Char} (h : Scan.escapable.contains c = true) :
    (Literal.ofCharInner (String.ofList ['\\', c])).isWritable = true := by
  simp only [Scan.escapable, List.contains_cons, List.contains_nil, Bool.or_false, Bool.or_eq_true,
    beq_iff_eq] at h
  rcases h with rfl | rfl | rfl | rfl | rfl | rfl <;> decide

theorem isWritable_ofCharInner_singleton (c : Char) :
    (Literal.ofCharInner (String.ofList [c])).isWritable = true := by
  have hinner : Literal.ofCharInner (String.ofList [c]) = .char (String.ofList [c]) := by
    unfold Literal.ofCharInner
    rw [String.toList_ofList]
    split
    · next h => cases h
    · rfl
  rw [hinner]
  show decide ((String.ofList [c]).length = 1) = true
  rw [String.length_ofList]
  rfl

/-- What is read from a proper lexeme that is a literal has a text. -/
theorem isWritable_of_literal? {l : Lexeme} (h : l.isProper = true) {v : Literal}
    (hv : Parser.literal? l = some (.ok v)) : v.isWritable = true := by
  rcases Scan.lexeme?_cases (eq_of_beq h) with
    ⟨k, rfl⟩ | ⟨s, rfl⟩ | ⟨m, rfl⟩ | ⟨negative, ds, hl⟩ | ⟨ds, hl⟩ | ⟨ds, hl⟩ | ⟨ds, hl⟩
  · cases k <;> cases hv <;> rfl
  · cases hv
  · cases hv
  · rcases Scan.numeral_cases hl with ⟨whole, hdigits, rfl⟩ | ⟨s, rfl⟩
    · have hv := Option.some.inj hv
      split at hv
      · next n hn =>
        obtain rfl := Except.ok.inj hv
        refine Decimal.isPrintable_of_readDigits hn ?_
        rw [String.toList_ofList, Decimal.splitMinus_signText _ hdigits]
        exact hdigits
      · cases hv
    · cases hv
      rfl
  · rcases Scan.character_cases hl with ⟨c, hc, rfl⟩ | ⟨c, rfl⟩
    · obtain rfl := Except.ok.inj (Option.some.inj hv)
      exact isWritable_ofCharInner hc
    · obtain rfl := Except.ok.inj (Option.some.inj hv)
      exact isWritable_ofCharInner_singleton c
  · obtain ⟨s, rfl, -⟩ := Scan.sigilName_cases hl
    cases hv
  · obtain ⟨s, rfl, -⟩ := Scan.sigilName_cases hl
    cases hv

/-- The name of a directive can stand after either sigil. -/
theorem isProper_intrinsic {s : String} (h : (Lexeme.directive s).isProper = true) :
    (Lexeme.intrinsic s).isProper = true := by
  rcases Scan.lexeme?_cases (eq_of_beq h) with
    ⟨k, hk⟩ | ⟨t, ht⟩ | ⟨m, hm⟩ | ⟨negative, ds, hl⟩ | ⟨ds, hl⟩ | ⟨ds, hl⟩ | ⟨ds, hl⟩
  · cases hk
  · cases ht
  · cases hm
  · rcases Scan.numeral_cases hl with ⟨_, _, h⟩ | ⟨_, h⟩ <;> cases h
  · rcases Scan.character_cases hl with ⟨_, _, h⟩ | ⟨_, h⟩ <;> cases h
  · obtain ⟨t, ht, -⟩ := Scan.sigilName_cases hl
    cases ht
  · obtain ⟨t, ht, hintrinsic⟩ := Scan.sigilName_cases hl
    obtain rfl := Lexeme.directive.inj ht
    exact isProper_of_lexeme?
      (show Scan.lexeme? ('@' :: ds) = some (.intrinsic s, []) from hintrinsic)

end Lexeme

namespace Parser

/-! ## The shape of what is read -/

theorem areWritten_of_isWritten {kind : Name} {args : List TypeSpec}
    (h : (TypeSpec.mk kind args).isWritten = true) : TypeSpec.areWritten args = true := by
  simp only [TypeSpec.isWritten, Bool.or_eq_true, Bool.and_eq_true] at h
  rcases h with (⟨_, hargs⟩ | ⟨_, hargs⟩) | ⟨_, hargs⟩
  · rw [List.isEmpty_iff.1 hargs]
    rfl
  · exact hargs
  · exact hargs

/-- The parameters of a type that has a text have texts. -/
theorem isWritten_params {t : TypeSpec} (h : t.isWritten = true) :
    ∀ u ∈ t.params, u.isWritten = true := by
  obtain ⟨kind, args⟩ := t
  have hargs := TypeSpec.areWritten_iff.1 (areWritten_of_isWritten h)
  unfold TypeSpec.params
  split
  · exact fun u hu => hargs u (List.dropLast_subset _ hu)
  · nofun

/-- And so has its result. -/
theorem isWritten_result {t : TypeSpec} (h : t.isWritten = true) :
    (t.result?.getD t).isWritten = true := by
  obtain ⟨kind, args⟩ := t
  have hargs := TypeSpec.areWritten_iff.1 (areWritten_of_isWritten h)
  unfold TypeSpec.result?
  split
  · cases hlast : (TypeSpec.mk kind args).args.getLast? with
    | none => exact h
    | some u => exact hargs u (List.mem_of_getLast? hlast)
  · exact h

/-- What may occur in a tree as it is read. -/
abbrev written : Node.Vocabulary := .source Literal.isWritable

/-- **The shape of a tree that is read from proper lexemes.** -/
def proper : Shape where
  lexeme l := l.isProper = true
  position _ := True
  name n := n.isIdent = true
  type t := t.isWritten = true
  pattern n := n.isPattern written = true
  expression n := n.isExpression written = true
  arm n := n.isArm written = true
  param n := n.isParam = true
  constructorDecl n := n.isConstructorDecl = true
  declaration n := n.isDeclaration written = true

theorem isType_of_typeNode {n : Node} (h : proper.TypeNode n) : n.isType = true := by
  obtain ⟨t, rfl, ht⟩ := h
  exact ht

theorem isOptionalType_of_optionalType {n : Node} (h : proper.OptionalType n) :
    n.isOptionalType = true := by
  rcases h with rfl | ⟨t, rfl, ht⟩
  · rfl
  · exact ht

/-- A bare name in a pattern that is no wildcard. -/
theorem isIdent_and_ne {n : String} (hn : (Name.word n).isIdent = true) (hwild : n ≠ "_") :
    ((Name.word n).isIdent && !(Name.word n).isWord "_") = true := by
  rw [hn, Bool.true_and, Bool.not_eq_true']
  exact beq_eq_false_iff_ne.2 hwild

theorem proper_closed : proper.Closed where
  ident h := h
  functionType := by
    intro params result hparams hresult
    have hall : TypeSpec.areWritten (params ++ [result]) = true := by
      rw [TypeSpec.areWritten_iff, List.forall_mem_append]
      exact ⟨hparams, List.forall_mem_singleton.2 hresult⟩
    show TypeSpec.isWritten (.mk "fun" (params ++ [result])) = true
    have hne : (params ++ [result]).isEmpty = false :=
      List.isEmpty_eq_false_iff.2 (List.append_ne_nil_of_right_ne_nil _ (List.cons_ne_nil _ _))
    rw [TypeSpec.isWritten, hall, hne]
    decide
  unitType := show TypeSpec.isWritten .unit = true by decide
  namedType := by
    intro n args hn hargs
    show TypeSpec.isWritten (.mk n args) = true
    rw [TypeSpec.isWritten, TypeSpec.areWritten_iff.2 hargs, show n.isIdent = true from hn]
    exact Bool.or_true _
  patternLit _ hl hv := Lexeme.isWritable_of_literal? hl hv
  patternWild _ := rfl
  patternVar _ hn hwild := isIdent_and_ne hn hwild
  patternCtor := by
    intro p n args _ hn hwild hargs
    show Node.isPattern written (.patternCtor p n args) = true
    rw [Node.isPattern, isIdent_and_ne hn hwild, Node.arePatterns_iff.2 hargs, Bool.true_and]
  paramOf := by
    intro p n t _ hn ht
    show Node.isParam (.param p n t) = true
    rw [Node.isParam, show n.isIdent = true from hn, isOptionalType_of_optionalType ht,
      Bool.true_and]
  constructor := by
    intro p n ts _ hn hts
    show Node.isConstructorDecl (.constructorDecl p n ts) = true
    rw [Node.isConstructorDecl, show n.isIdent = true from hn,
      List.all_eq_true.2 fun t ht => isType_of_typeNode (hts t ht), Bool.true_and]
  externDecl := by
    intro p n tps t _ hn htps ht
    have hparams : (t.params.map Node.typeSpec).all Node.isType = true := by
      rw [List.all_map, List.all_eq_true]
      exact isWritten_params ht
    show Node.isDeclaration written (.externDecl p n tps _ _) = true
    rw [Node.isDeclaration, show n.isIdent = true from hn, List.all_eq_true.2 htps, hparams]
    exact isWritten_result ht
  dataDecl := by
    intro p n tps c cs _ hn htps hc hcs
    show Node.isDeclaration written (.dataDecl p n tps (c :: cs)) = true
    rw [Node.isDeclaration, show n.isIdent = true from hn, List.all_eq_true.2 htps, List.all_cons,
      show c.isConstructorDecl = true from hc, List.all_eq_true.2 hcs]
    rfl
  typeDecl := by
    intro p n tps t _ hn htps ht
    show Node.isDeclaration written (.typeDecl p n tps t) = true
    rw [Node.isDeclaration, show n.isIdent = true from hn, List.all_eq_true.2 htps,
      isType_of_typeNode ht]
    rfl
  funDecl := by
    intro p n tps params body t _ hn htps hparams hbody ht
    show Node.isDeclaration written (.funDecl p n tps params body t) = true
    rw [Node.isDeclaration, show n.isIdent = true from hn, List.all_eq_true.2 htps,
      List.all_eq_true.2 hparams, isOptionalType_of_optionalType ht,
      show body.isExpression written = true from hbody]
    rfl
  literal _ hl hv := Lexeme.isWritable_of_literal? hl hv
  unit _ := rfl
  var _ hl := Bool.and_eq_true_iff.2 ⟨hl, rfl⟩
  intrinsicCall _ hl hargs := Bool.and_eq_true_iff.2 ⟨hl, Node.areExpressions_iff.2 hargs⟩
  directiveCall _ hl hargs :=
    Bool.and_eq_true_iff.2 ⟨Lexeme.isProper_intrinsic hl, Node.areExpressions_iff.2 hargs⟩
  call := by
    intro p callee args _ hcallee hargs
    show Node.isExpression written (.call _ callee args) = true
    rw [Node.isExpression, show callee.isExpression written = true from hcallee,
      Node.areExpressions_iff.2 hargs]
    rfl
  armOf _ hpattern hbody := Bool.and_eq_true_iff.2 ⟨hpattern, hbody⟩
  caseOf := by
    intro p scrutinee arms _ hscrutinee hne harms
    show Node.isExpression written (.caseOf p scrutinee arms) = true
    rw [Node.isExpression, show scrutinee.isExpression written = true from hscrutinee,
      List.isEmpty_eq_false_iff.2 hne, Node.areArms_iff.2 harms]
    rfl
  letIn := by
    intro p n value body t _ hn hvalue hbody ht
    show Node.isExpression written (.letIn p n value body t) = true
    rw [Node.isExpression, show n.isIdent = true from hn, isOptionalType_of_optionalType ht,
      show value.isExpression written = true from hvalue,
      show body.isExpression written = true from hbody]
    rfl
  seq _ hfirst hrest := Bool.and_eq_true_iff.2 ⟨hfirst, hrest⟩
  lambda := by
    intro p params body _ hparams hbody
    -- Of its parameters, a function without a name keeps the names alone.
    have hnames : (params.filterMap Node.name?).all Name.isIdent = true := by
      rw [List.all_eq_true]
      intro name hname
      obtain ⟨n, hn, hnamed⟩ := List.mem_filterMap.1 hname
      have hparam : n.isParam = true := hparams n hn
      cases n with
      | param q name t =>
        obtain rfl := Option.some.inj hnamed
        exact (Bool.and_eq_true_iff.1 hparam).1
      | _ => cases hparam
    exact Bool.and_eq_true_iff.2 ⟨hnames, hbody⟩
  block := by
    intro p ds body _ hds hbody
    show Node.isExpression written (.block p ds body) = true
    rw [Node.isExpression, List.all_eq_true.2 fun d hd => (hds d hd).2,
      Node.areDeclarations_iff.2 fun d hd => (hds d hd).1,
      show body.isExpression written = true from hbody]
    rfl

end Parser

/-! ## Programs that are read -/

theorem Scan.isProper_of_mem_pieces {cs : List Char} {l : Lexeme} (h : .lexeme l ∈ pieces cs) :
    l.isProper = true := by
  fun_induction pieces cs with
  | case1 => cases h
  | case2 c more s hg ih => exact ih h
  | case3 c more hg l' rest hl ih =>
    rcases List.mem_cons.1 h with h | h
    · obtain rfl := Piece.lexeme.inj h
      exact Lexeme.isProper_of_lexeme? hl
    · exact ih h
  | case4 c more hg hl ih =>
    rcases List.mem_cons.1 h with h | h
    · cases h
    · exact ih h

/-- **Every token of a scanned text is proper.** -/
theorem proper_of_scan {text : String} {s : Scanned} (h : scan text = .ok s) :
    Parser.proper.Fit s.tokens := by
  intro t ht
  refine ⟨?_, trivial⟩
  have hmem : Scan.Piece.lexeme t.lexeme ∈ Scan.pieces text.toList := by
    rw [pieces_of_scan h]
    exact List.mem_map_of_mem (List.mem_map_of_mem ht)
  exact Scan.isProper_of_mem_pieces hmem

namespace Node

theorem isProgram_of_ofTokens {levels : Nat} {s : Scanned} {q : Node}
    (hs : Parser.proper.Fit s.tokens) (h : ofTokens levels s = .ok q) :
    q.isProgram (.source Literal.isWritable) = true := by
  unfold ofTokens at h
  split at h
  · next r rest hrun =>
    obtain rfl := Except.ok.inj h
    obtain ⟨p, ds, body, rfl, -, hds, hbody⟩ :=
      ((Parser.program_gives Parser.proper_closed levels s.tokens hs).1 r rest hrun).1
    exact Bool.and_eq_true_iff.2 ⟨areDeclarations_iff.2 hds, hbody⟩
  · cases h

/-- **The shape of every program that is read from a text.** Its
declarations pass the check, and its parts are what a text can hold. -/
theorem isProgram_of_ofSource {text : String} {frames : Int} {root : Node}
    (h : ofSource text frames = .ok root) :
    ∃ t, root.checkDeclarations = .ok t
      ∧ root.isProgram (.resolved t Literal.isWritable true) = true := by
  unfold ofSource at h
  split at h
  · cases h
  · next s hscan =>
    obtain ⟨q, hq, hroot⟩ := bind_eq_ok h
    have hprogram := isProgram_of_ofTokens (proper_of_scan hscan) hq
    have hcheck : ∃ t, q.checkDeclarations = .ok t := by
      obtain ⟨t, ht, -⟩ := bind_eq_ok hroot
      exact ⟨t, ht⟩
    obtain ⟨t, ht⟩ := hcheck
    rw [resolveProgram_eq hprogram ht] at hroot
    obtain rfl := Except.ok.inj hroot
    exact ⟨t, checkDeclarations_resolvedProgram hprogram ht, isProgram_resolvedProgram hprogram⟩

end Node

end EmberLang
