import EmberLang.Proofs.ParsingComplete
import EmberLang.Proofs.Taking

/-!
# What is read is in the grammar

The tree that a reader builds is derived from the lexemes it has taken,
with its positions left out (`Parser.level_derives`). Here the grammar is
the lenient one, as the reader lets two things pass that the grammar of
the language does not have. Every reader is followed along its own text,
with the rules of `Parser.Takes`, and what it has taken is put together by
the production of its phrase.
-/

namespace EmberLang

theorem Lexeme.literal?_of_read {l : Lexeme} {v : Literal}
    (h : Parser.literal? l = some (.ok v)) : l.literal? = some v := by
  cases l with
  | int numeral =>
    have hread : Decimal.readDigits numeral = none ∨ Decimal.readDigits numeral
        = some (Decimal.signed (Decimal.splitMinus numeral.toList).1
          (Decimal.ofDigits ((Decimal.splitMinus numeral.toList).2.map Decimal.asciiDigit))) := by
      unfold Decimal.readDigits
      dsimp only
      split
      · exact .inr rfl
      · exact .inl rfl
    rw [Parser.literal?] at h
    rcases hread with hread | hread
    · rw [hread] at h
      cases h
    · rw [hread] at h
      cases h
      rfl
  | real numeral =>
    cases h
    rfl
  | char inner =>
    cases h
    rfl
  | keyword k => cases k <;> first | cases h; rfl | cases h
  | _ => cases h

namespace Node

/-- The tree of a phrase, once its positions are left out. -/
abbrev Parsed (phrase : Phrase) (ls : List Lexeme) (n : Node) : Prop :=
  Derives true phrase ls n.erase

/-- A derivation of the same lexemes, written in another way. -/
theorem Derives.cast {lenient : Bool} {phrase : Phrase} {ls ms : List Lexeme} {n m : Node}
    (h : Derives lenient phrase ls n) (hls : ms = ls) (hn : m = n) :
    Derives lenient phrase ms m := by
  subst hls hn
  exact h

theorem row_eraseAll {P : List Lexeme → Node → Prop} {join : List (List Lexeme) → List Lexeme}
    {ls : List Lexeme} {ns : List Node} (h : Row (fun ls n => P ls n.erase) join ls ns) :
    Row P join ls (eraseAll ns) := by
  rw [eraseAll_eq_map]
  exact h.map

theorem eraseAll_map_typeSpec (ts : List TypeSpec) :
    eraseAll (ts.map typeSpec) = ts.map typeSpec := by
  rw [eraseAll_eq_map, List.map_map]
  rfl

end Node

namespace Parser

open Node (Parsed Derives DerivesPattern DerivesAfter DerivesParam DerivesConstructor erase
  eraseAll eraseAll_eq_map)

/-! ## Types and patterns -/

theorem typeSpecIn_takes {inner : Parser TypeSpec} (h : Takes inner TypeSpec.Derives) :
    Takes (typeSpecIn inner) TypeSpec.Derives := by
  refine .peek fun o => ?_
  split
  · refine .skip (h.parenthesized.bind ?_)
    rintro _ _ ⟨items, rfl, rfl, hitems⟩
    exact .take fun _ => h.map fun ls t ht => .function hitems ht
  · exact .skip (.take fun _ => .pure .unit)
  · refine Takes.name (fun n _ => ?_) _
    dsimp only
    refine .isNext ?_ (.pure (.named n))
    rw [if_pos rfl]
    refine (h.enclosed .leftBracket .rightBracket).map ?_ _
    rintro _ _ ⟨hne, items, rfl, rfl, hitems⟩
    exact .applied n (by rintro rfl; exact hne rfl) hitems

theorem patternIn_takes {inner : Parser Node}
    (h : Takes inner fun ls n => DerivesPattern ls n.erase) :
    Takes (patternIn inner) fun ls n => DerivesPattern ls n.erase := by
  intro o
  refine .here fun p => .peek ?_
  split
  · next value hvalue =>
    obtain ⟨l, rfl, hl⟩ := Option.bind_eq_some_iff.1 hvalue
    refine .skip (.value ?_)
    rintro v rfl
    exact .pure (.literal (Lexeme.literal?_of_read hl))
  · refine Takes.name (fun n _ => ?_) _
    dsimp only
    refine .ite (fun hn => .pure (hn ▸ .wild)) fun hn => .isNext ?_ (.pure (.var hn))
    rw [if_pos rfl]
    refine h.parenthesized.map ?_ _
    intro _ args hargs
    obtain ⟨items, rfl, hargs, hitems⟩ := Node.row_eraseAll hargs
    rw [erase, hargs]
    exact .constructor hn hitems

/-! ## Levels -/

namespace Level

/-- **What the readers of a level build is derived** from what they take. -/
structure Deriving (inner : Level) : Prop where
  /-- Types. -/
  typeSpec : Takes inner.typeSpec TypeSpec.Derives
  /-- Patterns. -/
  pattern : Takes inner.pattern fun ls n => DerivesPattern ls n.erase
  /-- Expressions. -/
  expression : Takes inner.expression (Parsed .expression)
  /-- Sequences. -/
  sequence : Takes inner.sequence (Parsed .sequence)

variable {inner : Level} (h : inner.Deriving)

include h

theorem typeNode_takes :
    Takes inner.typeNode fun ls n => ∃ t, n = .typeSpec t ∧ TypeSpec.Derives ls t :=
  h.typeSpec.map fun _ t ht => ⟨t, rfl, ht⟩

theorem typeAfterColon_takes :
    Takes inner.typeAfterColon fun ls n => DerivesAfter [.colon] ls n.erase := by
  refine .isNext (Takes.take (fun _ => (typeNode_takes h).mono ?_) _) (.pure .absent)
  rintro ls _ ⟨t, rfl, ht⟩
  exact .typed (by decide) ht

theorem braced_takes : Takes inner.braced fun ls n =>
    ∃ ms, ls = .mark .leftBrace :: ms ++ [Lexeme.mark .rightBrace] ∧ Parsed .sequence ms n :=
  .take fun _ => h.sequence.bind fun ms _ hn => .take fun _ => .pure ⟨ms, rfl, hn⟩

theorem body_takes : Takes inner.body (Parsed (.body true)) := by
  refine .isNext ((braced_takes h).mono ?_ _) (h.expression.mono fun _ _ hn => .bare hn)
  rintro _ n ⟨ms, rfl, hn⟩
  exact .braced hn

theorem param_takes : Takes inner.param fun ls n => DerivesParam ls n.erase :=
  .name fun n _ => (typeAfterColon_takes h).map fun _ _ ht => .named n ht

omit h in
theorem typeParams_takes : Takes typeParams fun ls tps =>
    ∃ names : List String, tps = names.map Name.word ∧ ls = Node.typeParamLexemes tps := by
  refine .isNext ?_ (.pure ⟨[], rfl, rfl⟩)
  rw [if_pos rfl]
  have hname : Takes (do return ((← Parser.name).1 : Name)) fun ls n =>
      ∃ s, n = .word s ∧ ls = [n.lexeme] := .name fun s _ => .pure ⟨s, rfl, rfl⟩
  refine (hname.enclosed .leftBracket .rightBracket).mono ?_ _
  rintro _ _ ⟨hne, items, rfl, rfl, hitems⟩
  have hspelled : spellings items = (trees items).map fun n => [n.lexeme] := by
    rw [spellings, trees, List.map_map]
    exact List.map_congr_left fun i hi => by obtain ⟨-, -, h⟩ := hitems i hi; exact h
  refine ⟨(trees items).map Name.text, ?_, ?_⟩
  · rw [List.map_map]
    refine (List.map_id _).symm.trans (List.map_congr_left fun n hn => ?_)
    obtain ⟨i, hi, rfl⟩ := List.mem_map.1 hn
    obtain ⟨s, hs, -⟩ := hitems i hi
    rw [hs]
    rfl
  · rw [Node.typeParamLexemes, if_neg (by simpa using hne), hspelled]
    rfl

/-! ### Declarations -/

theorem externDecl_takes : Takes inner.externDecl (Parsed (.declaration true)) := by
  refine .take fun p => .name fun n _ => typeParams_takes.bind ?_
  rintro _ _ ⟨names, rfl, rfl⟩
  refine .take fun _ => .isNext ?_ ((Takes.needed (Q := fun _ _ => False) _).bind nofun)
  have htype := h.typeSpec.head (by rintro t ⟨⟩) (.keyword .kwFun)
  refine htype.bind ?_
  rintro _ t ⟨ms, rfl, ht⟩
  refine .take fun _ => .pure ?_
  -- Of the types only that of a function starts with `fun`.
  cases ht with
  | function hparams hresult =>
    refine (Derives.externDecl n names hparams hresult).cast (by simp [Node.heading]) ?_
    rw [TypeSpec.params_function, TypeSpec.result?_function, erase, Node.eraseAll_map_typeSpec]
    rfl

theorem constructorDecl_takes :
    Takes inner.constructorDecl fun ls n => DerivesConstructor ls n.erase := by
  refine .name fun n _ => .isNext ?_ (.isNext ?_ (.pure (.plain n)))
  · rw [if_pos rfl]
    refine ((typeNode_takes h).enclosed .leftParen .rightParen).map ?_ _
    rintro _ _ ⟨hne, hrow⟩
    obtain ⟨_, rfl, items, rfl, rfl, hitems⟩ := hrow.image
    rw [erase, Node.eraseAll_map_typeSpec]
    exact .inParens n (by rintro rfl; exact hne rfl) hitems
  · rw [if_pos rfl]
    refine ((typeNode_takes h).enclosed .leftBracket .rightBracket).map ?_ _
    rintro _ _ ⟨hne, hrow⟩
    obtain ⟨_, rfl, items, rfl, rfl, hitems⟩ := hrow.image
    rw [erase, Node.eraseAll_map_typeSpec]
    exact .inBrackets n (by rintro rfl; exact hne rfl) hitems

theorem dataDecl_takes (foreign : Bool) :
    Takes inner.dataDecl (Parsed (.declaration foreign)) := by
  refine .take fun p => .name fun n _ => typeParams_takes.bind ?_
  rintro _ _ ⟨names, rfl, rfl⟩
  refine .take fun _ => .optionalMark fun bar => (constructorDecl_takes h).bind fun fs c hc => ?_
  refine Takes.bind (Takes.many (.mark .bar :: ·) fun l _ => Takes.take (fun _ =>
    (constructorDecl_takes h).mono fun ms a ha => ⟨ms, rfl, ha⟩) _) ?_
  intro _ cs hcs
  obtain ⟨items, rfl, hcs, hitems⟩ := Node.row_eraseAll hcs
  refine .take fun _ => .optionalMark fun semicolon => .pure ?_
  have hall : ∀ i ∈ (fs, c.erase) :: items, DerivesConstructor i.1 i.2 :=
    List.forall_mem_cons.2 ⟨hc, hitems⟩
  refine (Derives.dataDecl foreign n names bar semicolon hall).cast
    (by simp [Node.heading, List.flatMap_map]) ?_
  rw [erase, eraseAll, hcs]
  rfl

theorem typeDecl_takes (foreign : Bool) :
    Takes inner.typeDecl (Parsed (.declaration foreign)) := by
  refine .take fun p => .name fun n _ => typeParams_takes.bind ?_
  rintro _ _ ⟨names, rfl, rfl⟩
  refine .take fun _ => (typeNode_takes h).bind ?_
  rintro _ _ ⟨t, rfl, ht⟩
  exact .take fun _ => .pure
    ((Derives.typeDecl foreign n names ht).cast (by simp [Node.heading]) rfl)

theorem resultType_takes :
    Takes inner.resultType fun ls n => DerivesAfter [.arrow, .colon] ls n.erase := by
  have htyped (m : Mark) (hm : m ∈ [Mark.arrow, .colon]) : TakesAt (some (.mark m))
      (skip >>= fun _ => inner.typeNode) fun ls n => DerivesAfter [.arrow, .colon] ls n.erase := by
    refine .skip ((typeNode_takes h).mono ?_)
    rintro ls _ ⟨t, rfl, ht⟩
    exact .typed hm ht
  refine .isNext (.isNext (htyped .arrow (by decide))) (.isNext (htyped .colon (by decide)) ?_)
  exact .pure .absent

theorem funBody_takes : Takes inner.funBody (Parsed .funBody) := by
  refine .isNext (Takes.take (fun _ => (braced_takes h).mono ?_) _) ?_
  · rintro _ n ⟨ms, rfl, hn⟩
    exact .funBraced hn
  · refine .isNext (Takes.take (fun _ => h.expression.mono fun _ _ hn => .funEqual hn) _) ?_
    exact .needed _

theorem params_take : Takes (parenthesized inner.param) fun ls params =>
    Row DerivesParam EmberLang.parenthesized ls (eraseAll params) :=
  (param_takes h).parenthesized.mono fun _ _ hparams => Node.row_eraseAll hparams

theorem funDecl_takes (foreign : Bool) :
    Takes inner.funDecl (Parsed (.declaration foreign)) := by
  refine .take fun p => .name fun n _ => typeParams_takes.bind ?_
  rintro _ _ ⟨names, rfl, rfl⟩
  refine (params_take h).bind ?_
  rintro _ params ⟨items, rfl, hparams, hitems⟩
  refine (resultType_takes h).bind fun rs r hr => (funBody_takes h).bind fun bs b hb => ?_
  refine .optionalMark fun semicolon => .pure ?_
  refine (Derives.funDecl foreign n names semicolon hitems hr hb).cast
    (by simp [Node.heading]) ?_
  rw [erase, hparams]

/-- A declaration of a block does not start with `extern`. -/
theorem declaration_takes {foreign : Bool} {w : Keyword} (hw : w ∈ Node.Phrase.words foreign) :
    TakesAt (some (.keyword w)) inner.declaration (Parsed (.declaration foreign)) := by
  refine .peek ?_
  split
  · next hextern =>
    obtain rfl := Lexeme.keyword.inj (Option.some.inj hextern)
    cases foreign with
    | true => exact externDecl_takes h _
    | false => exact absurd hw (by decide)
  · exact dataDecl_takes h foreign _
  · exact typeDecl_takes h foreign _
  · exact funDecl_takes h foreign _
  · exact Takes.needed _ _

theorem declarations_take (foreign : Bool) :
    Takes (inner.declarations (Node.Phrase.words foreign)) fun ls ds =>
      ∃ items : List (Spelled Node), ls = (spellings items).flatten ++ [Lexeme.keyword .kwIn]
        ∧ eraseAll ds = trees items ∧ ∀ i ∈ items, Derives true (.declaration foreign) i.1 i.2 := by
  have hmany : Takes (many (fun l => (Node.Phrase.words foreign).any fun k => l == .keyword k)
      inner.declaration) (Row (Parsed (.declaration foreign)) (·.flatMap id)) := by
    refine .many id fun l hl => ?_
    obtain ⟨w, hw, hlw⟩ := List.any_eq_true.1 hl
    obtain rfl := eq_of_beq hlw
    exact (declaration_takes h hw).mono fun ls n hn => ⟨ls, rfl, hn⟩
  refine hmany.bind ?_
  intro _ ds hds
  obtain ⟨items, rfl, hds, hitems⟩ := Node.row_eraseAll hds
  refine .isNext ?_ ((Takes.needed (Q := fun _ _ => False) _).bind nofun)
  refine Takes.take (fun _ => .pure ⟨items, ?_, hds, hitems⟩) _
  simp

/-! ### Expressions -/

theorem arguments_take : Takes inner.arguments fun ls args =>
    Row (Derives true .expression) EmberLang.parenthesized ls (eraseAll args) :=
  h.expression.parenthesized.mono fun _ _ hargs => Node.row_eraseAll hargs

theorem letIn_takes : Takes inner.letIn (Parsed .letItem) := by
  refine .take fun p => .name fun n _ => (typeAfterColon_takes h).bind fun ts t ht => ?_
  refine .take fun _ => h.expression.bind fun vs v hv => .take fun _ => ?_
  exact h.sequence.map fun ls b hb => (Derives.letItem n ht hv hb).cast (by simp) rfl

theorem lambda_takes : Takes inner.lambda (Parsed .primary) := by
  refine .take fun p => (params_take h).bind ?_
  rintro _ params ⟨items, rfl, hparams, hitems⟩
  refine .take fun _ => (body_takes h).map fun ls b hb => ?_
  refine (Derives.lambda hitems hb).cast rfl ?_
  have hnames : params.filterMap Node.name? = (trees items).filterMap Node.name? := by
    refine Node.filterMap_name?_of_eraseAll ?_
    rw [← hparams, Node.eraseAll_eraseAll]
  rw [erase, hnames]

theorem arm_takes : Takes inner.arm (Parsed .arm) := by
  refine .take fun p => h.pattern.bind fun ps pattern hp => .take fun _ => ?_
  exact (body_takes h).map fun ls b hb => .arm hp hb

theorem caseOf_takes : Takes inner.caseOf (Parsed .primary) := by
  refine .take fun p => h.expression.bind fun ls s hs => .take fun _ => ?_
  refine .isNext ?_ ((Takes.needed (Q := fun _ _ => False) _).bind nofun)
  have harms : TakesAt (some (.mark .bar)) (many (· == .mark .bar) inner.arm)
      fun ls as => as ≠ [] ∧ Row (Parsed .arm) (·.flatMap id) ls as :=
    .many id (fun l _ => ((arm_takes h) _).mono fun ls n hn => ⟨ls, rfl, hn⟩) (by decide)
  refine harms.bind ?_
  rintro _ arms ⟨hne, hrow⟩
  obtain ⟨items, rfl, harms, hitems⟩ := Node.row_eraseAll hrow
  have hitems' : items ≠ [] := by
    rintro rfl
    exact hne (Node.eraseAll_eq_nil harms)
  refine .take fun _ => .pure ?_
  refine (Derives.caseOf hitems' hs hitems).cast (by simp [List.flatMap_id]) ?_
  rw [erase, harms]

theorem block_takes : Takes inner.block (Parsed .primary) := by
  refine .take fun p => (declarations_take h false).bind ?_
  rintro _ ds ⟨items, rfl, hds, hitems⟩
  refine h.sequence.bind fun ls b hb => .take fun _ => .pure ?_
  refine (Derives.block hitems hb).cast (by simp) ?_
  rw [erase, hds]

theorem primary_takes : Takes inner.primary (Parsed .primary) := by
  intro o
  -- One case for each way a primary can begin, in the order in which the
  -- reader tries them.
  refine .here fun p => .peek ?_
  split
  · next value hvalue =>
    obtain ⟨l, rfl, hl⟩ := Option.bind_eq_some_iff.1 hvalue
    refine .skip (.value ?_)
    rintro v rfl
    exact .pure (.literal (Lexeme.literal?_of_read hl))
  split
  · next n _ => exact .skip (.pure (.var n))
  · next op _ =>
    refine .skip ((arguments_take h).map ?_)
    rintro _ args ⟨items, rfl, hargs, hitems⟩
    exact (Derives.intrinsicCall op hitems).cast rfl (by rw [erase, hargs])
  · next n _ =>
    refine .skip ((arguments_take h).map ?_)
    rintro _ args ⟨items, rfl, hargs, hitems⟩
    exact (Derives.directiveCall n hitems).cast rfl (by rw [erase, hargs])
  · refine .skip (.isNext (Takes.take (fun _ => .pure .unit) _) ?_)
    exact h.expression.bind fun ls e he => .take fun _ => .pure (.grouped he)
  · exact caseOf_takes h _
  · exact (letIn_takes h _).mono fun _ _ hn => .letPrimary rfl hn
  · exact lambda_takes h _
  · refine .peekSecond fun second => ?_
    split
    · exact block_takes h _
    · exact .skip (h.sequence.bind fun ls b hb => .take fun _ => .pure (.grouping hb))
  · exact Takes.needed _ _

/-- Each list of arguments makes a call of what was read before it. -/
theorem applications_take (room : Nat) {ls : List Lexeme} {callee : Node}
    (hcallee : Parsed .expression ls callee) :
    Takes (inner.applications room callee) fun ms n => Parsed .expression (ls ++ ms) n := by
  have hend : Parsed .expression (ls ++ []) callee := by rwa [List.append_nil]
  -- What has been read is the callee of the next round, so it changes with
  -- the induction.
  induction room generalizing ls callee with
  | zero => exact .isNext (Takes.tooDeep _) (.pure hend)
  | succ room ih =>
    refine .isNext (.here fun p => (arguments_take h _).bind ?_) (.pure hend)
    rintro _ args ⟨items, rfl, hargs, hitems⟩
    have hcall : Parsed .expression (ls ++ EmberLang.parenthesized (spellings items))
        (.call (callee.position?.or p) callee args) :=
      (Derives.call hcallee hitems).cast rfl (by rw [erase, hargs])
    refine (ih hcall (by rwa [List.append_nil])).mono fun ms n hn => ?_
    rwa [← List.append_assoc]

theorem expressionIn_takes : Takes inner.expressionIn (Parsed .expression) :=
  (primary_takes h).bind fun _ _ he => applications_take h _ (.primary he)

theorem sequenceIn_takes : Takes inner.sequenceIn (Parsed .sequence) := by
  refine .isNext ((letIn_takes h _).mono fun _ _ hn => .definition hn) ?_
  refine (expressionIn_takes h).bind fun ls first hfirst => .isNext ?_ ?_
  · refine Takes.take (fun p => .peek fun o => ?_) _
    split
    · exact h.sequence.map (fun ms rest hrest => .more hfirst hrest) _
    · exact Takes.pure (.last true hfirst) _
  · exact .pure (.last false hfirst)

end Level

/-- **What is read is derived**, at every number of levels: by induction
on the levels inside. -/
theorem level_derives (n : Nat) : (level n).Deriving := by
  induction n with
  | zero => exact ⟨.tooDeep, .tooDeep, .tooDeep, .tooDeep⟩
  | succ n ih =>
    exact ⟨typeSpecIn_takes ih.typeSpec, patternIn_takes ih.pattern,
      Level.expressionIn_takes ih, Level.sequenceIn_takes ih⟩

theorem program_takes (levels : Nat) : Takes (program (level levels)) (Parsed .program) := by
  have h := level_derives levels
  refine .take fun p => (Level.declarations_take h true).bind ?_
  rintro _ ds ⟨items, rfl, hds, hitems⟩
  refine h.sequence.bind fun ls b hb => .take fun _ => .peek fun o => ?_
  -- A lexeme after the last keyword is an error, which gives no tree.
  refine Takes.ite (fun _ => ?_) (fun _ => .pure ?_) o
  · exact (Takes.needed (Q := fun _ _ => False) _).bind nofun
  · refine (Derives.program hitems hb).cast (by simp) ?_
    rw [erase, hds]

end Parser

/-! ## Derived trees have no positions -/

namespace Node

variable {lenient : Bool} {phrase : Phrase} {ls : List Lexeme} {n : Node}

theorem eraseAll_trees {items : List (Spelled Node)} (h : ∀ i ∈ items, i.2.erase = i.2) :
    eraseAll (trees items) = trees items := by
  rw [eraseAll_eq_map, trees, List.map_map]
  exact List.map_congr_left h

theorem DerivesPattern.erase_eq (h : DerivesPattern ls n) : n.erase = n := by
  induction h with
  | constructor _ _ ih => rw [erase, eraseAll_trees ih]
  | _ => rfl

theorem DerivesAfter.erase_eq {marks : List Mark} (h : DerivesAfter marks ls n) : n.erase = n := by
  cases h <;> rfl

theorem DerivesParam.erase_eq (h : DerivesParam ls n) : n.erase = n := by
  cases h with
  | named _ type => rw [erase, type.erase_eq]

theorem DerivesConstructor.erase_eq (h : DerivesConstructor ls n) : n.erase = n := by
  cases h with
  | plain _ => rfl
  | inParens _ _ _ => rw [erase, eraseAll_map_typeSpec]
  | inBrackets _ _ _ => rw [erase, eraseAll_map_typeSpec]

theorem Derives.erase_eq (h : Derives lenient phrase ls n) : n.erase = n := by
  induction h with
  | externDecl _ _ _ _ => rw [erase, eraseAll_map_typeSpec, erase]
  | dataDecl _ _ _ _ _ cs => rw [erase, eraseAll_trees fun i hi => (cs i hi).erase_eq]
  | typeDecl _ _ _ _ => rw [erase, erase]
  | funDecl _ _ _ _ params result _ ih =>
    rw [erase, eraseAll_trees fun i hi => (params i hi).erase_eq, result.erase_eq, ih]
  | literal _ | unit | var _ => rfl
  | intrinsicCall _ _ ih | directiveCall _ _ ih => rw [erase, eraseAll_trees ih]
  | caseOf _ _ _ ih ihArms => rw [erase, ih, eraseAll_trees ihArms]
  | lambda _ _ ih => rw [erase, ih]
  | block _ _ ihDecls ih | program _ _ ihDecls ih => rw [erase, eraseAll_trees ihDecls, ih]
  | call _ _ ih ihArgs => rw [erase, ih, eraseAll_trees ihArgs]
  | arm pattern _ ih => rw [erase, pattern.erase_eq, ih]
  | letItem _ type _ _ ihValue ih => rw [erase, ihValue, ih, type.erase_eq]
  | more _ _ ih ihRest => rw [erase, ih, ihRest]
  | funBraced _ ih | funEqual _ ih | grouped _ ih | grouping _ ih | letPrimary _ _ ih
  | primary _ ih | braced _ ih | bare _ ih | definition _ ih | last _ _ ih => exact ih

end Node

/-! ## Programs -/

namespace Parser

/-- The reader leaves no tokens. -/
def Ends {α : Type} (p : Parser α) : Prop := ∀ ts a rest, p ts = .ok (a, rest) → rest = []

theorem Ends.bind {α β : Type} {p : Parser α} {f : α → Parser β} (h : ∀ a, Ends (f a)) :
    Ends (p >>= f) := by
  intro ts b rest hread
  replace hread : (p ts >>= fun s => f s.1 s.2) = .ok (b, rest) := hread
  cases hp : p ts with
  | error stuck =>
    rw [hp] at hread
    cases hread
  | ok s =>
    rw [hp] at hread
    exact h s.1 s.2 b rest hread

theorem program_ends (outer : Level) : Ends (program outer) := by
  refine .bind fun p => .bind fun ds => .bind fun b => .bind fun _ => ?_
  intro ts a rest hread
  cases ts with
  | nil =>
    cases hread
    rfl
  | cons t ts => cases hread

end Parser

namespace Node

/-- Tokens that are read as a program are derived as one. -/
theorem derives_of_ofTokens {levels : Nat} {s : Scanned} {q : Node}
    (h : ofTokens levels s = .ok q) :
    Derives true .program (s.tokens.map Token.lexeme) q.erase := by
  unfold ofTokens at h
  split at h
  · next r rest hrun =>
    obtain rfl := Except.ok.inj h
    obtain ⟨us, hus, hderives⟩ := Parser.program_takes levels _ s.tokens r rest rfl hrun
    rw [Parser.program_ends _ _ _ _ hrun, List.append_nil] at hus
    rwa [hus]
  · cases h

/-- Tokens that are derived as a program are read as one. -/
theorem ofTokens_of_derives {s : Scanned} {t : Node}
    (h : Derives false .program (s.tokens.map Token.lexeme) t)
    (hs : Legible (s.tokens.map Token.lexeme)) :
    ∀ᶠ levels in Filter.atTop, ∃ q, ofTokens levels s = .ok q ∧ q.erase = t := by
  have hread : ∀ᶠ k in Filter.atTop, Parser.Reads (Parser.program (Parser.level k))
      (s.tokens.map Token.lexeme) (· = none) t.Alike := h.isRead hs
  filter_upwards [hread] with levels hlevels
  obtain ⟨q, hq, halike⟩ := hlevels s.tokens [] rfl rfl
  rw [List.append_nil] at hq
  refine ⟨q, ?_, halike.trans h.erase_eq⟩
  unfold ofTokens
  rw [show (Parser.program (Parser.level levels)).run s.tokens = .ok (q, []) from hq]

/-- **The reader of programs accepts exactly its grammar**, up to the two
things it lets pass. Of tokens whose numerals are short enough: the tree
that the grammar derives from them is the tree that is read, given enough
levels; and the tree that is read, with however many levels, is one that
the lenient grammar derives. -/
theorem ofTokens_accepts_grammar {s : Scanned}
    (hs : ∀ t ∈ s.tokens, t.lexeme.digitCount ≤ Decimal.maxDigits) :
    (∀ t, Derives false .program (s.tokens.map Token.lexeme) t →
      ∃ enough, ∀ levels ≥ enough, ∃ q, ofTokens levels s = .ok q ∧ q.erase = t)
    ∧ ∀ levels q, ofTokens levels s = .ok q →
      Derives true .program (s.tokens.map Token.lexeme) q.erase := by
  refine ⟨fun t ht => ?_, fun levels q hq => derives_of_ofTokens hq⟩
  have hlegible : Legible (s.tokens.map Token.lexeme) := by
    intro l hl
    obtain ⟨t, ht, rfl⟩ := List.mem_map.1 hl
    exact hs t ht
  exact Filter.eventually_atTop.1 (ofTokens_of_derives ht hlegible)

/-- A program with a typed function and a local definition, whose sequence
ends with a semicolon. -/
def twelveText : String := "begin fun f(x : int) -> int = x in let y = f(-12); y; end"

/-- Its lexemes. -/
def twelveLexemes : List Lexeme :=
  [.keyword .kwBegin, .keyword .kwFun, .ident "f", .mark .leftParen, .ident "x", .mark .colon,
    .ident "int", .mark .rightParen, .mark .arrow, .ident "int", .mark .equal, .ident "x",
    .keyword .kwIn, .keyword .kwLet, .ident "y", .mark .equal, .ident "f", .mark .leftParen,
    .int "-12", .mark .rightParen, .mark .semicolon, .ident "y", .mark .semicolon, .keyword .kwEnd]

/-- Its tree. -/
def twelveProgram : Node :=
  program none
    [funDecl none "f" [] [param none "x" (typeSpec (.mk "int" []))] (var none "x")
      (typeSpec (.mk "int" []))]
    (letIn none "y" (call none (var none "f") [literal none (.int (-12))]) (var none "y") absent)

theorem derives_twelveProgram : Derives false .program twelveLexemes twelveProgram := by
  have hint : TypeSpec.Derives [.ident "int"] (.mk "int" []) := .named "int"
  have hparam : ∀ i ∈ [([Lexeme.ident "x", .mark .colon, .ident "int"],
      param none "x" (typeSpec (.mk "int" [])))], DerivesParam i.1 i.2 :=
    List.forall_mem_singleton.2 (.named "x" (.typed (by decide) hint))
  have hfun : ∀ i ∈ [([.keyword .kwFun, .ident "f", .mark .leftParen, .ident "x", .mark .colon,
      .ident "int", .mark .rightParen, .mark .arrow, .ident "int", .mark .equal, .ident "x"], _)],
      Derives false (.declaration true) i.1 i.2 :=
    List.forall_mem_singleton.2 (.funDecl true "f" [] false hparam (.typed (by decide) hint)
      (.funEqual (.primary (.var "x"))))
  have harg : ∀ i ∈ [([.int "-12"], literal none (.int (-12)))],
      Derives false .expression i.1 i.2 :=
    List.forall_mem_singleton.2 (.primary (.literal (by cbv)))
  exact .program hfun (.definition (.letItem "y" .absent (.call (.primary (.var "f")) harg)
    (.last true (.primary (.var "y")))))

/-- The tree that the grammar gives is read. -/
theorem ofTokens_twelveText :
    ∃ s, scan twelveText = .ok s ∧ (∀ t ∈ s.tokens, t.lexeme.digitCount ≤ Decimal.maxDigits)
      ∧ Derives false .program (s.tokens.map Token.lexeme) twelveProgram
      ∧ ∃ enough, ∀ levels ≥ enough, ∃ q, ofTokens levels s = .ok q ∧ q.erase = twelveProgram := by
  have hscan : (scan twelveText).map (fun s => s.tokens.map Token.lexeme) = .ok twelveLexemes := by
    cbv
  cases hs : scan twelveText with
  | error e =>
    rw [hs] at hscan
    cases hscan
  | ok s =>
    rw [hs] at hscan
    have hlexemes : s.tokens.map Token.lexeme = twelveLexemes := Except.ok.inj hscan
    have hderives : Derives false .program (s.tokens.map Token.lexeme) twelveProgram :=
      hlexemes ▸ derives_twelveProgram
    have hshort : ∀ l ∈ twelveLexemes, l.digitCount ≤ Decimal.maxDigits := by decide +kernel
    have htokens : ∀ t ∈ s.tokens, t.lexeme.digitCount ≤ Decimal.maxDigits := fun t ht =>
      hshort _ (hlexemes ▸ List.mem_map_of_mem ht)
    exact ⟨s, rfl, htokens, hderives, (ofTokens_accepts_grammar htokens).1 _ hderives⟩

end Node

end EmberLang
