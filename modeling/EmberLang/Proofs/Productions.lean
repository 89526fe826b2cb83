import EmberLang.Proofs.Grammar
import EmberLang.Proofs.Positions
import EmberLang.Proofs.Reading

/-!
# Reading by productions

For each production of the grammar: if the parts of a phrase are read by
the readers of one level, the phrase is read by the reader of its kind on
that level. Nothing is assumed about the lexemes of the parts beyond what
a reader has to see of them, and nothing about the level.

Two statements rest on these lemmas, with different parts in mind: the
lexemes of a printed tree are read as the tree, and whatever the grammar
derives is read as it derives it.
-/

open EmberLang.Parser (Reads notNext follow anything Level)

namespace EmberLang

section Lists

variable {ι α : Type} {items : List ι}

theorem eq_map_of_forall₂ {f : ι → α} {as : List α}
    (h : List.Forall₂ (fun i a => a = f i) items as) : as = items.map f := by
  induction h with
  | nil => rfl
  | cons ha _ ih => rw [ha, ih, List.map_cons]

theorem Node.eraseAll_of_forall₂ {f : ι → Node} {as : List Node}
    (h : List.Forall₂ (fun i a => (f i).Alike a) items as) :
    eraseAll as = eraseAll (items.map f) := by
  induction h with
  | nil => rfl
  | cons ha _ ih => rw [eraseAll, ih, List.map_cons, eraseAll, ha]

/-- Positions have no part in the names of parameters. -/
theorem Node.filterMap_name?_of_eraseAll {as bs : List Node} (h : eraseAll as = eraseAll bs) :
    as.filterMap name? = bs.filterMap name? := by
  have hnames (ns : List Node) : (eraseAll ns).filterMap name? = ns.filterMap name? := by
    induction ns with
    | nil => rfl
    | cons n ns ih => rw [eraseAll, List.filterMap_cons, List.filterMap_cons, name?_erase, ih]
  rw [← hnames as, h, hnames bs]

end Lists

theorem TypeSpec.params_function (params : List TypeSpec) (t : TypeSpec) :
    (TypeSpec.function params t).params = params := List.dropLast_concat

theorem TypeSpec.result?_function (params : List TypeSpec) (t : TypeSpec) :
    (TypeSpec.function params t).result? = some t := List.getLast?_concat

namespace Production

variable {ι : Type} {items : List ι} {lexemes : ι → List Lexeme}

/-! ## Types -/

section Types

variable {inner : Parser TypeSpec} {type : ι → TypeSpec}

/-- What may come after a type. -/
abbrev afterName : Option Lexeme → Prop := notNext (.mark .leftBracket)

theorem namedType (n : String) :
    Reads (Parser.typeSpecIn inner) [.ident n] afterName (· = .mk n []) := by
  unfold Parser.typeSpecIn
  refine Reads.peek (Reads.name fun _ => ?_)
  refine Reads.isNext false (fun o ho => beq_eq_false_iff_ne.2 ho) ?_
  rw [if_neg Bool.false_ne_true]
  exact Reads.pure rfl

theorem appliedType (n : String) (hne : items ≠ [])
    (h : ∀ i ∈ items, Reads inner (lexemes i) afterName (· = type i)) :
    Reads (Parser.typeSpecIn inner) (.ident n :: bracketed (items.map lexemes)) anything
      (· = .mk n (items.map type)) := by
  unfold Parser.typeSpecIn
  refine Reads.peek (Reads.name fun _ => ?_)
  refine Reads.isNext true (fun _ _ => rfl) ?_
  rw [if_pos rfl]
  refine (Reads.enclosed .leftBracket .rightBracket (by decide) h hne (by decide)
    (by decide)).map fun as has => ?_
  rw [eq_map_of_forall₂ has]

theorem unitType :
    Reads (Parser.typeSpecIn inner) [.mark .leftParen, .mark .rightParen] anything (· = .unit) := by
  unfold Parser.typeSpecIn
  exact Reads.peek (Reads.skip (Reads.take fun _ => Reads.pure rfl))

theorem functionType {ls : List Lexeme} {t : TypeSpec}
    (hstart : ∀ i ∈ items, ∃ l ls, lexemes i = l :: ls ∧ l ≠ .mark .rightParen)
    (h : ∀ i ∈ items, Reads inner (lexemes i) afterName (· = type i))
    (hresult : Reads inner ls afterName (· = t)) :
    Reads (Parser.typeSpecIn inner)
      (.keyword .kwFun :: parenthesized (items.map lexemes) ++ .mark .arrow :: ls) afterName
      (· = .function (items.map type) t) := by
  unfold Parser.typeSpecIn
  refine Reads.peek (Reads.skip ?_)
  refine (Reads.parenthesized h hstart (by decide) (by decide)).bind (fun _ _ => trivial)
    fun as has => Reads.take fun _ => ?_
  refine hresult.map fun r hr => ?_
  rw [hr, eq_map_of_forall₂ has]

end Types

/-! ## Patterns -/

section Patterns

variable {inner : Parser Node} {tree : ι → Node}

theorem patternWild :
    Reads (Parser.patternIn inner) [.ident "_"] anything (Node.patternWild none).Alike := by
  unfold Parser.patternIn
  exact Reads.here fun _ => Reads.peek (Reads.name fun _ => Reads.pure rfl)

theorem patternLit {l : Lexeme} {v : Literal} (h : Parser.literal? l = some (.ok v)) :
    Reads (Parser.patternIn inner) [l] anything (Node.patternLit none v).Alike := by
  unfold Parser.patternIn
  refine Reads.here fun _ => Reads.peek ?_
  rw [Option.bind_some, h]
  exact Reads.skip (Reads.value (Reads.pure rfl))

theorem patternVar {n : String} (h : n ≠ "_") :
    Reads (Parser.patternIn inner) [.ident n] (notNext (.mark .leftParen))
      (Node.patternVar none n).Alike := by
  unfold Parser.patternIn
  refine Reads.here fun _ => Reads.peek (Reads.name fun _ => ?_)
  dsimp only
  rw [if_neg h]
  refine Reads.isNext false (fun _ ho => beq_eq_false_iff_ne.2 ho) ?_
  rw [if_neg Bool.false_ne_true]
  exact Reads.pure rfl

theorem patternCtor {n : String} (h : n ≠ "_")
    (hstart : ∀ i ∈ items, ∃ l ls, lexemes i = l :: ls ∧ l ≠ .mark .rightParen)
    (hargs : ∀ i ∈ items, Reads inner (lexemes i) (notNext (.mark .leftParen)) (tree i).Alike) :
    Reads (Parser.patternIn inner) (.ident n :: parenthesized (items.map lexemes)) anything
      (Node.patternCtor none n (items.map tree)).Alike := by
  unfold Parser.patternIn
  refine Reads.here fun _ => Reads.peek (Reads.name fun _ => ?_)
  dsimp only
  rw [if_neg h]
  refine Reads.isNext true (fun _ _ => rfl) ?_
  rw [if_pos rfl]
  refine (Reads.parenthesized hargs hstart (by decide) (by decide)).map fun as has => ?_
  show Node.erase _ = Node.erase _
  rw [Node.erase, Node.erase, Node.eraseAll_of_forall₂ has]

end Patterns

variable {L : Level} {tree : ι → Node}

/-! ## Parts of declarations -/

/-- What may come after a type or after the want of one. -/
def afterType (m : Mark) (o : Option Lexeme) : Prop :=
  notNext (.mark .leftBracket) o ∧ notNext (.mark m) o

theorem typeNode {ls : List Lexeme} {t : TypeSpec}
    (h : Reads L.typeSpec ls afterName (· = t)) :
    Reads L.typeNode ls afterName (· = .typeSpec t) :=
  h.map fun _ ht => congrArg Node.typeSpec ht

theorem colonType {ls : List Lexeme} {t : TypeSpec}
    (h : Reads L.typeSpec ls afterName (· = t)) :
    Reads L.typeAfterColon (.mark .colon :: ls) afterName (· = .typeSpec t) := by
  unfold Level.typeAfterColon
  refine Reads.isNext true (fun _ _ => rfl) ?_
  rw [if_pos rfl]
  exact Reads.take fun _ => typeNode h

theorem noColon : Reads L.typeAfterColon [] (notNext (.mark .colon)) (· = .absent) := by
  unfold Level.typeAfterColon
  refine Reads.isNext false (fun _ ho => beq_eq_false_iff_ne.2 ho) ?_
  rw [if_neg Bool.false_ne_true]
  exact Reads.pure rfl

theorem param (n : String) {ls : List Lexeme} {t : Node} {ok : Option Lexeme → Prop}
    (h : Reads L.typeAfterColon ls ok (· = t)) :
    Reads L.param (.ident n :: ls) ok (Node.param none n t).Alike := by
  unfold Level.param
  refine Reads.name fun q => h.map fun a ha => ?_
  rw [ha]
  rfl

theorem typeParams (names : List String) :
    Reads Level.typeParams (Node.typeParamLexemes (names.map Name.word)) afterName
      (· = names.map Name.word) := by
  have hname (n : String) : Reads (do return (← Parser.name).1 : Parser Name) [(Name.word n).lexeme]
      anything (· = .word n) := Reads.name fun _ => Reads.pure rfl
  unfold Level.typeParams
  cases names with
  | nil =>
    refine Reads.isNext false (fun _ ho => beq_eq_false_iff_ne.2 ho) ?_
    rw [if_neg Bool.false_ne_true]
    exact Reads.pure rfl
  | cons n names =>
    have hlist := Reads.enclosed .leftBracket .rightBracket (by decide)
      (fun m (_ : m ∈ n :: names) => hname m) (List.cons_ne_nil n names) trivial trivial
    refine Reads.isNext true (fun _ _ => rfl) ?_
    rw [if_pos rfl]
    rw [Node.typeParamLexemes, if_neg (by simp), List.map_map]
    exact hlist.mono (fun _ _ => trivial) fun _ has => eq_map_of_forall₂ has

/-- What may come after a constructor. -/
abbrev afterConstructor : Option Lexeme → Prop := afterType .leftParen

theorem plainConstructor (n : String) :
    Reads L.constructorDecl [.ident n] afterConstructor (Node.constructorDecl none n []).Alike := by
  unfold Level.constructorDecl
  refine Reads.name fun q => ?_
  refine Reads.isNext false (fun _ ho => beq_eq_false_iff_ne.2 ho.2) ?_
  rw [if_neg Bool.false_ne_true]
  refine Reads.isNext false (fun _ ho => beq_eq_false_iff_ne.2 ho.1) ?_
  rw [if_neg Bool.false_ne_true]
  exact Reads.pure rfl

theorem constructorInParens (n : String) {type : ι → TypeSpec} (hne : items ≠ [])
    (h : ∀ i ∈ items, Reads L.typeSpec (lexemes i) afterName (· = type i)) :
    Reads L.constructorDecl (.ident n :: parenthesized (items.map lexemes)) anything
      (Node.constructorDecl none n ((items.map type).map .typeSpec)).Alike := by
  unfold Level.constructorDecl
  refine Reads.name fun q => ?_
  refine Reads.isNext true (fun _ _ => rfl) ?_
  rw [if_pos rfl]
  refine (Reads.enclosed .leftParen .rightParen (by decide) (fun i hi => typeNode (h i hi))
    hne (by decide) (by decide)).map fun as has => ?_
  rw [eq_map_of_forall₂ has, List.map_map]
  rfl

theorem constructorInBrackets (n : String) {type : ι → TypeSpec} (hne : items ≠ [])
    (h : ∀ i ∈ items, Reads L.typeSpec (lexemes i) afterName (· = type i)) :
    Reads L.constructorDecl (.ident n :: bracketed (items.map lexemes)) anything
      (Node.constructorDecl none n ((items.map type).map .typeSpec)).Alike := by
  unfold Level.constructorDecl
  refine Reads.name fun q => ?_
  refine Reads.isNext false (fun _ _ => rfl) ?_
  rw [if_neg Bool.false_ne_true]
  refine Reads.isNext true (fun _ _ => rfl) ?_
  rw [if_pos rfl]
  refine (Reads.enclosed .leftBracket .rightBracket (by decide)
    (fun i hi => typeNode (h i hi)) hne (by decide) (by decide)).map fun as has => ?_
  rw [eq_map_of_forall₂ has, List.map_map]
  rfl

theorem resultType {m : Mark} (hm : m ∈ [Mark.arrow, .colon]) {ls : List Lexeme}
    {t : TypeSpec} (h : Reads L.typeSpec ls afterName (· = t)) :
    Reads L.resultType (.mark m :: ls) afterName (· = .typeSpec t) := by
  unfold Level.resultType
  refine Reads.isNext (m == .arrow) (fun _ _ => ?_) (Reads.isNext (m == .colon) (fun _ _ => ?_) ?_)
  · simp
  · simp
  · have hor : ((m == .arrow) || (m == .colon)) = true := by
      rcases List.mem_cons.1 hm with rfl | hm
      · rfl
      · obtain rfl := List.mem_singleton.1 hm
        rfl
    rw [if_pos hor]
    exact Reads.skip (typeNode h)

theorem noResultType : Reads L.resultType []
    (fun o => notNext (.mark .arrow) o ∧ notNext (.mark .colon) o) (· = .absent) := by
  unfold Level.resultType
  refine Reads.isNext false (fun _ ho => beq_eq_false_iff_ne.2 ho.1)
    (Reads.isNext false (fun _ ho => beq_eq_false_iff_ne.2 ho.2) ?_)
  rw [if_neg (by decide)]
  exact Reads.pure rfl

/-! ## Expressions -/

/-- The lexemes start as those of an expression do, and not with a local
definition. -/
def StartsOperand (ls : List Lexeme) : Prop :=
  ∃ l ms, ls = l :: ms ∧ Level.startsExpression l = true ∧ l ≠ .keyword .kwLet

/-- The lexemes start as those of a sequence do. -/
def StartsItems (ls : List Lexeme) : Prop :=
  ∃ l ms, ls = l :: ms ∧ Level.startsExpression l = true

theorem StartsOperand.startsItems {ls : List Lexeme} (h : StartsOperand ls) : StartsItems ls := by
  obtain ⟨l, ms, hl, hstarts, -⟩ := h
  exact ⟨l, ms, hl, hstarts⟩

theorem StartsOperand.append {ls : List Lexeme} (h : StartsOperand ls) (ms : List Lexeme) :
    StartsOperand (ls ++ ms) := by
  obtain ⟨l, ls', rfl, hstarts⟩ := h
  exact ⟨l, ls' ++ ms, rfl, hstarts⟩

theorem StartsItems.ne_mark {ls : List Lexeme} (h : StartsItems ls) {m : Mark}
    (hm : m ≠ .leftParen) : ∃ l ms, ls = l :: ms ∧ l ≠ .mark m := by
  obtain ⟨l, ms, hl, hstarts⟩ := h
  refine ⟨l, ms, hl, ?_⟩
  rintro rfl
  exact hm (of_decide_eq_true hstarts)

/-- What may come after an expression. -/
abbrev afterOperand : Option Lexeme → Prop := notNext (.mark .leftParen)

/-- What may come after a sequence. -/
def afterItems (o : Option Lexeme) : Prop := afterOperand o ∧ notNext (.mark .semicolon) o

theorem afterItems_end : afterItems (some (.keyword .kwEnd)) := ⟨by decide, by decide⟩

theorem afterItems_rightBrace : afterItems (some (.mark .rightBrace)) := ⟨by decide, by decide⟩

/-- Arguments are read one by one. -/
theorem arguments (hstart : ∀ i ∈ items, StartsOperand (lexemes i))
    (h : ∀ i ∈ items, Reads L.expression (lexemes i) afterOperand (tree i).Alike) :
    Reads L.arguments (parenthesized (items.map lexemes)) anything
      fun as => Node.eraseAll as = Node.eraseAll (items.map tree) :=
  (Reads.parenthesized h (fun i hi => (hstart i hi).startsItems.ne_mark (by decide)) (by decide)
    (by decide)).mono (fun _ ho => ho) fun _ has => Node.eraseAll_of_forall₂ has

theorem literal {l : Lexeme} {v : Literal} (h : Parser.literal? l = some (.ok v)) :
    Reads L.primary [l] anything (Node.literal none v).Alike := by
  unfold Level.primary
  refine Reads.here fun q => Reads.peek ?_
  rw [Option.bind_some, h]
  exact Reads.skip (Reads.value (Reads.pure rfl))

theorem unit : Reads L.primary [.mark .leftParen, .mark .rightParen] anything
    (Node.unit none).Alike := by
  unfold Level.primary
  refine Reads.here fun q => Reads.peek (Reads.skip ?_)
  refine Reads.isNext true (fun _ _ => rfl) ?_
  rw [if_pos rfl]
  exact Reads.take fun _ => Reads.pure rfl

theorem grouped {ls : List Lexeme} {n : Node} (hstart : StartsOperand ls)
    (h : Reads L.expression ls afterOperand n.Alike) :
    Reads L.primary (.mark .leftParen :: ls ++ [Lexeme.mark .rightParen]) anything n.Alike := by
  obtain ⟨l, ms, rfl, hne⟩ := hstart.startsItems.ne_mark (m := .rightParen) (by decide)
  unfold Level.primary
  refine Reads.here fun q => Reads.peek (Reads.skip ?_)
  refine Reads.isNext false (fun _ _ => beq_eq_false_iff_ne.2 fun e => hne (Option.some.inj e)) ?_
  rw [if_neg Bool.false_ne_true]
  refine h.bind (fun _ _ => by simp [notNext]) fun a ha => ?_
  exact Reads.take fun _ => Reads.pure ha

theorem var (n : String) : Reads L.primary [.ident n] anything (Node.var none n).Alike := by
  unfold Level.primary
  exact Reads.here fun q => Reads.peek (Reads.skip (Reads.pure rfl))

theorem intrinsicCall (op : String) {as : List Lexeme} {args : List Node}
    {ok : Option Lexeme → Prop}
    (h : Reads L.arguments as ok fun ns => Node.eraseAll ns = Node.eraseAll args) :
    Reads L.primary (.intrinsic op :: as) ok (Node.intrinsicCall none op args).Alike := by
  unfold Level.primary
  refine Reads.here fun q => Reads.peek (Reads.skip ?_)
  refine h.map fun ns hns => ?_
  show Node.erase _ = Node.erase _
  rw [Node.erase, Node.erase, hns]

theorem directiveCall (name : String) {as : List Lexeme} {args : List Node}
    {ok : Option Lexeme → Prop}
    (h : Reads L.arguments as ok fun ns => Node.eraseAll ns = Node.eraseAll args) :
    Reads L.primary (.directive name :: as) ok (Node.directiveCall none name args).Alike := by
  unfold Level.primary
  refine Reads.here fun q => Reads.peek (Reads.skip ?_)
  refine h.map fun ns hns => ?_
  show Node.erase _ = Node.erase _
  rw [Node.erase, Node.erase, hns]

/-! ### Bodies, cases and functions -/

theorem bracedSequence {ls : List Lexeme} {n : Node} {ok : Option Lexeme → Prop}
    (hok : ok (some (.mark .rightBrace))) (h : Reads L.sequence ls ok n.Alike) :
    Reads L.braced (.mark .leftBrace :: ls ++ [Lexeme.mark .rightBrace]) anything n.Alike := by
  unfold Level.braced
  refine Reads.take fun _ => h.bind (fun _ _ => hok) fun a ha => ?_
  exact Reads.take fun _ => Reads.pure ha

theorem bracedBody {ls : List Lexeme} {n : Node} {ok : Option Lexeme → Prop}
    (hok : ok (some (.mark .rightBrace))) (h : Reads L.sequence ls ok n.Alike) :
    Reads L.body (.mark .leftBrace :: ls ++ [Lexeme.mark .rightBrace]) anything n.Alike := by
  unfold Level.body
  refine Reads.isNext true (fun _ _ => rfl) ?_
  rw [if_pos rfl]
  exact bracedSequence hok h

theorem bareBody {ls : List Lexeme} {n : Node} (hstart : StartsOperand ls)
    {ok : Option Lexeme → Prop} (h : Reads L.expression ls ok n.Alike) :
    Reads L.body ls ok n.Alike := by
  obtain ⟨l, ms, rfl, hne⟩ := hstart.startsItems.ne_mark (m := .leftBrace) (by decide)
  unfold Level.body
  refine Reads.isNext false (fun _ _ => beq_eq_false_iff_ne.2 fun e => hne (Option.some.inj e)) ?_
  rw [if_neg Bool.false_ne_true]
  exact h

theorem arm {ps ls : List Lexeme} {p n : Node} {ok : Option Lexeme → Prop}
    (hp : Reads L.pattern ps (notNext (.mark .leftParen)) p.Alike)
    (hb : Reads L.body ls ok n.Alike) :
    Reads L.arm (.mark .bar :: ps ++ .mark .fatArrow :: ls) ok (Node.arm none p n).Alike := by
  unfold Level.arm
  refine Reads.take fun q => hp.bind (fun _ _ => by simp [notNext]) fun t ht => ?_
  refine Reads.take fun _ => hb.map fun a ha => ?_
  show Node.erase _ = Node.erase _
  rw [Node.erase, Node.erase, ht, ha]

theorem caseOf {ls : List Lexeme} {n : Node} (hs : Reads L.expression ls afterOperand n.Alike)
    (hne : items ≠ []) (hstart : ∀ i ∈ items, ∃ ms, lexemes i = .mark .bar :: ms)
    (harms : ∀ i ∈ items, Reads L.arm (lexemes i) afterOperand (tree i).Alike) :
    Reads L.primary
      (.keyword .kwCase :: ls ++ .keyword .kwOf :: (items.map lexemes).flatten
        ++ [Lexeme.keyword .kwEnd]) anything (Node.caseOf none n (items.map tree)).Alike := by
  have hmany : Reads (Parser.many (· == .mark .bar) L.arm) (items.flatMap lexemes)
      (· = some (.keyword .kwEnd)) (List.Forall₂ (fun i a => (tree i).Alike a) items) := by
    refine Reads.many _ harms (fun i hi => ?_) ?_ ?_
    · obtain ⟨ms, hms⟩ := hstart i hi
      exact ⟨_, ms, hms, by simp⟩
    · intro l hl
      rw [eq_of_beq hl]
      decide
    · rintro o rfl
      exact ⟨by decide, fun l hl => by cases hl; rfl⟩
  have hbar : ∃ ms, items.flatMap lexemes = .mark .bar :: ms := by
    cases items with
    | nil => exact absurd rfl hne
    | cons i items =>
      obtain ⟨ms, hms⟩ := hstart i List.mem_cons_self
      exact ⟨ms ++ items.flatMap lexemes, by rw [List.flatMap_cons, hms]; rfl⟩
  rw [← List.flatMap_def]
  simp only [List.cons_append, List.append_assoc]
  unfold Level.primary Level.caseOf
  refine Reads.here fun q => Reads.peek (Reads.take fun q' => ?_)
  refine hs.bind (fun _ _ => by simp [notNext]) fun s' hs' => Reads.take fun _ => ?_
  refine Reads.isNext true (fun _ _ => ?_) ?_
  · obtain ⟨ms, hms⟩ := hbar
    rw [hms]
    rfl
  · refine hmany.bind (fun _ _ => rfl) fun as has => Reads.take fun _ => Reads.pure ?_
    show Node.erase _ = Node.erase _
    rw [Node.erase, Node.erase, hs', Node.eraseAll_of_forall₂ has]

/-- A function without a name keeps the names of its parameters only. -/
theorem lambda {ps ls : List Lexeme} {parameters : List Node} {n : Node}
    {ok : Option Lexeme → Prop}
    (hp : Reads (Parser.parenthesized L.param) ps anything
      fun as => Node.eraseAll as = Node.eraseAll parameters)
    (hb : Reads L.body ls ok n.Alike) :
    Reads L.primary (.keyword .kwFn :: ps ++ .mark .fatArrow :: ls) ok
      (Node.lambda none (parameters.filterMap Node.name?) n).Alike := by
  unfold Level.primary
  refine Reads.here fun q => Reads.peek (Reads.take fun q' => ?_)
  refine hp.bind (fun _ _ => trivial) fun as has => Reads.take fun _ => ?_
  refine hb.map fun a ha => ?_
  show Node.erase _ = Node.erase _
  rw [Node.erase, Node.erase, ha, Node.filterMap_name?_of_eraseAll has]

/-! ### Sequences -/

theorem letIn (name : String) {ts vs ls : List Lexeme} {t v n : Node} {ok : Option Lexeme → Prop}
    (ht : Reads L.typeAfterColon ts (afterType .colon) (· = t))
    (hv : Reads L.expression vs afterOperand v.Alike) (hb : Reads L.sequence ls ok n.Alike) :
    Reads L.letIn
      (.keyword .kwLet :: .ident name :: ts ++ .mark .equal :: vs ++ .mark .semicolon :: ls) ok
      (Node.letIn none name v n t).Alike := by
  simp only [List.cons_append, List.append_assoc]
  unfold Level.letIn
  refine Reads.take fun q => Reads.name fun _ => ?_
  refine ht.bind (fun _ _ => ⟨by simp [notNext], by simp [notNext]⟩) fun t' ht' =>
    Reads.take fun _ => ?_
  refine hv.bind (fun _ _ => by simp [notNext]) fun v' hv' => Reads.take fun _ => ?_
  refine hb.map fun a ha => ?_
  show Node.erase _ = Node.erase _
  rw [Node.erase, Node.erase, hv', ha, ht']

theorem letSequence {ls : List Lexeme} {Q : Node → Prop} {ok : Option Lexeme → Prop}
    (h : Reads L.letIn (.keyword .kwLet :: ls) ok Q) :
    Reads L.sequenceIn (.keyword .kwLet :: ls) ok Q := by
  unfold Level.sequenceIn
  refine Reads.isNext true (fun _ _ => rfl) ?_
  rw [if_pos rfl]
  exact h

/-- A sequence that starts with an expression. -/
theorem itemSequence {ls ms : List Lexeme} {n : Node} (hstart : StartsOperand ls)
    (h : Reads L.expressionIn ls afterOperand n.Alike) {ok : Option Lexeme → Prop}
    {Q : Node → Prop} (hnext : ∀ o, ok o → afterOperand (follow ms o))
    (hrest : ∀ first, n.Alike first → Reads (do
      if ← Parser.isNext (.mark .semicolon) then
        let p ← Parser.mark .semicolon
        if (← Parser.peek).any Level.startsExpression then
          return .seq p first (← L.sequence)
        else return first
      else return first) ms ok Q) :
    Reads L.sequenceIn (ls ++ ms) ok Q := by
  obtain ⟨l, ls', rfl, -, hne⟩ := hstart
  unfold Level.sequenceIn
  refine Reads.isNext false (fun _ _ => beq_eq_false_iff_ne.2 fun e => hne (Option.some.inj e)) ?_
  rw [if_neg Bool.false_ne_true]
  exact h.bind hnext hrest

theorem lastItem {ls : List Lexeme} {n : Node} (hstart : StartsOperand ls)
    (h : Reads L.expressionIn ls afterOperand n.Alike) :
    Reads L.sequenceIn ls afterItems n.Alike := by
  rw [← List.append_nil ls]
  refine itemSequence hstart h (fun _ ho => ho.1) fun first hfirst => ?_
  refine Reads.isNext false (fun _ ho => beq_eq_false_iff_ne.2 ho.2) ?_
  rw [if_neg Bool.false_ne_true]
  exact Reads.pure hfirst

/-- After a semicolon at the end no expression can start. -/
theorem lastItemSemicolon {ls : List Lexeme} {n : Node} (hstart : StartsOperand ls)
    (h : Reads L.expressionIn ls afterOperand n.Alike) :
    Reads L.sequenceIn (ls ++ [Lexeme.mark .semicolon])
      (fun o => o.any Level.startsExpression = false) n.Alike := by
  refine itemSequence hstart h (fun _ _ => by simp [notNext]) fun first hfirst => ?_
  refine Reads.isNext true (fun _ _ => rfl) ?_
  rw [if_pos rfl]
  refine Reads.take fun q => ?_
  intro ts rest hts hrest
  obtain rfl := List.map_eq_nil_iff.1 hts
  refine ⟨first, ?_, hfirst⟩
  show (if (rest.head?.map Token.lexeme).any Level.startsExpression = true then _
    else pure first : Parser Node) rest = _
  rw [hrest]
  rfl

theorem moreItems {ls ms : List Lexeme} {n m : Node} {ok : Option Lexeme → Prop}
    (hstart : StartsOperand ls) (h : Reads L.expressionIn ls afterOperand n.Alike)
    (hmstart : StartsItems ms) (hm : Reads L.sequence ms ok m.Alike) :
    Reads L.sequenceIn (ls ++ .mark .semicolon :: ms) ok (Node.seq none n m).Alike := by
  obtain ⟨l, ms', rfl, hl⟩ := hmstart
  refine itemSequence hstart h (fun _ _ => by simp [notNext]) fun first hfirst => ?_
  refine Reads.isNext true (fun _ _ => rfl) ?_
  rw [if_pos rfl]
  refine Reads.take fun q => Reads.peek ?_
  rw [show (some l).any Level.startsExpression = true from hl, if_pos rfl]
  refine hm.map fun a ha => ?_
  show Node.erase _ = Node.erase _
  rw [Node.erase, Node.erase, hfirst, ha]

theorem startsBlock_of_startsExpression {l : Lexeme} (h : Level.startsExpression l = true) :
    Level.startsBlock (some l) = false := by
  cases l with
  | keyword k => cases k <;> first | rfl | cases h
  | _ => rfl

/-- A sequence between `begin` and `end`. -/
theorem grouping {ls : List Lexeme} {n : Node} {ok : Option Lexeme → Prop}
    (hok : ok (some (.keyword .kwEnd))) (hstart : StartsItems ls)
    (h : Reads L.sequence ls ok n.Alike) :
    Reads L.primary (.keyword .kwBegin :: ls ++ [Lexeme.keyword .kwEnd]) anything n.Alike := by
  obtain ⟨l, ms, rfl, hl⟩ := hstart
  unfold Level.primary
  refine Reads.here fun q => Reads.peek ?_
  show Reads (Parser.peekSecond >>= _)
    (.keyword .kwBegin :: l :: (ms ++ [Lexeme.keyword .kwEnd])) _ _
  refine Reads.peekSecond ?_
  rw [startsBlock_of_startsExpression hl, if_neg Bool.false_ne_true]
  refine Reads.skip ?_
  show Reads _ ((l :: ms) ++ [Lexeme.keyword .kwEnd]) _ _
  refine h.bind (fun _ _ => hok) fun a ha => ?_
  exact Reads.take fun _ => Reads.pure ha

/-! ### Calls -/

/-- Where no parenthesis follows, there is no further call. -/
theorem applicationsEnd (room : Nat) (a : Node) :
    Reads (L.applications room a) [] afterOperand (· = a) := by
  cases room with
  | zero =>
    unfold Level.applications
    refine Reads.isNext false (fun _ ho => beq_eq_false_iff_ne.2 ho) ?_
    rw [if_neg Bool.false_ne_true]
    exact Reads.pure rfl
  | succ room =>
    unfold Level.applications
    refine Reads.isNext false (fun _ ho => beq_eq_false_iff_ne.2 ho) ?_
    rw [if_neg Bool.false_ne_true]
    exact Reads.pure rfl

/-- A further list of arguments. -/
theorem applicationsCall {c : Node} {as : List Lexeme} {args : List Node}
    (hargs : Reads L.arguments (.mark .leftParen :: as) anything
      fun ns => Node.eraseAll ns = Node.eraseAll args)
    {room : Nat} {ms : List Lexeme} {ok : Option Lexeme → Prop} {Q : Node → Prop}
    (h : ∀ call, (Node.call none c args).Alike call → Reads (L.applications room call) ms ok Q) :
    Reads (L.applications (room + 1) c) (.mark .leftParen :: as ++ ms) ok Q := by
  unfold Level.applications
  refine Reads.isNext true (fun _ _ => rfl) ?_
  rw [if_pos rfl]
  refine Reads.here fun q => hargs.bind (fun _ _ => trivial) fun ns hns => h _ ?_
  show Node.erase _ = Node.erase _
  rw [Node.erase, Node.erase, hns]

/-! ## Declarations -/

/-- A foreign function, whose type is read as one function type. -/
theorem externDecl (n : String) (tps : List String) {fs : List Lexeme} {params : List TypeSpec}
    {t : TypeSpec}
    (h : Reads L.typeSpec (.keyword .kwFun :: fs) afterName (· = .function params t)) :
    Reads L.declaration
      (Node.heading .kwExtern n tps ++ .mark .colon :: .keyword .kwFun :: fs
        ++ [Lexeme.mark .semicolon])
      anything
      (Node.externDecl none n (tps.map Name.word) (params.map .typeSpec) (.typeSpec t)).Alike := by
  simp only [Node.heading, List.cons_append, List.append_assoc]
  unfold Level.declaration Level.externDecl
  refine Reads.peek (Reads.take fun q => Reads.name fun _ => ?_)
  refine (typeParams tps).bind (fun _ _ => by simp [notNext]) fun tps' htps =>
    Reads.take fun _ => ?_
  refine Reads.isNext true (fun _ _ => rfl) ?_
  refine h.bind (fun _ _ => by simp [notNext]) fun signature hsignature =>
    Reads.take fun _ => Reads.pure ?_
  rw [hsignature, TypeSpec.params_function, TypeSpec.result?_function, htps]
  rfl

/-- Constructors after the first, each after its bar. -/
theorem constructors
    (h : ∀ i ∈ items, Reads L.constructorDecl (lexemes i) afterConstructor (tree i).Alike) :
    Reads (Parser.many (· == .mark .bar) do
        let _ ← Parser.mark .bar
        L.constructorDecl) (items.flatMap fun i => .mark .bar :: lexemes i)
      (· = some (.keyword .kwEnd))
      fun cs => Node.eraseAll cs = Node.eraseAll (items.map tree) := by
  refine (Reads.many afterConstructor (fun i hi => Reads.take fun _ => h i hi)
    (fun _ _ => ⟨_, _, rfl, by simp⟩) ?_ ?_).mono (fun _ ho => ho)
    fun _ hcs => Node.eraseAll_of_forall₂ hcs
  · intro l hl
    rw [eq_of_beq hl]
    exact ⟨by decide, by decide⟩
  · rintro o rfl
    exact ⟨⟨by decide, by decide⟩, fun l hl => by cases hl; rfl⟩

/-- The mark that may be left out, where what follows is another one. -/
theorem markOption {α : Type} {f : Unit → Parser α} {m : Mark} {ls : List Lexeme}
    {ok : Option Lexeme → Prop} {Q : α → Prop} (present : Bool)
    (hm : ∀ o, ok o → notNext (.mark m) (follow ls o)) (h : Reads (f ()) ls ok Q) :
    Reads (Parser.optionalMark m >>= f) (optionalMark present m ++ ls) ok Q := by
  cases present with
  | true => exact Reads.optionalMark h
  | false => exact Reads.noMark hm h

theorem dataDecl (n : String) (tps : List String) (bar semicolon : Bool) {fs : List Lexeme}
    {first : Node} (hstart : ∃ l ls, fs = l :: ls ∧ l ≠ .mark .bar)
    (hfirst : Reads L.constructorDecl fs afterConstructor first.Alike)
    (h : ∀ i ∈ items, Reads L.constructorDecl (lexemes i) afterConstructor (tree i).Alike) :
    Reads L.declaration
      (Node.heading .kwData n tps ++ .mark .equal :: optionalMark bar .bar ++ fs
        ++ items.flatMap (fun i => .mark .bar :: lexemes i)
        ++ .keyword .kwEnd :: optionalMark semicolon .semicolon)
      (notNext (.mark .semicolon))
      (Node.dataDecl none n (tps.map Name.word) (first :: items.map tree)).Alike := by
  have hnext : ∀ o, afterConstructor (follow (items.flatMap (fun i => .mark .bar :: lexemes i)
      ++ .keyword .kwEnd :: optionalMark semicolon .semicolon) o) := by
    intro o
    cases items with
    | nil => exact ⟨by simp [notNext], by simp [notNext]⟩
    | cons i items => exact ⟨by simp [notNext], by simp [notNext]⟩
  simp only [Node.heading, List.cons_append, List.append_assoc]
  unfold Level.declaration Level.dataDecl
  refine Reads.peek (Reads.take fun q => Reads.name fun _ => ?_)
  refine (typeParams tps).bind (fun _ _ => by simp [notNext]) fun tps' htps =>
    Reads.take fun _ => markOption bar (fun o _ => ?_) ?_
  · obtain ⟨l, ls, rfl, hl⟩ := hstart
    exact fun e => hl (Option.some.inj e)
  refine hfirst.bind (fun o _ => hnext o) fun c hc => ?_
  refine (constructors h).bind (fun _ _ => rfl) fun cs hcs => Reads.take fun _ => ?_
  rw [← List.append_nil (optionalMark semicolon .semicolon)]
  refine markOption semicolon (fun _ ho => ho) (Reads.pure ?_)
  show Node.erase _ = Node.erase _
  rw [Node.erase, Node.erase, Node.eraseAll, Node.eraseAll, hc, hcs, htps]

theorem typeDecl (n : String) (tps : List String) {ls : List Lexeme} {t : TypeSpec}
    (h : Reads L.typeSpec ls afterName (· = t)) :
    Reads L.declaration
      (Node.heading .kwType n tps ++ .mark .equal :: ls ++ [Lexeme.mark .semicolon]) anything
      (Node.typeDecl none n (tps.map Name.word) (.typeSpec t)).Alike := by
  simp only [Node.heading, List.cons_append, List.append_assoc]
  unfold Level.declaration Level.typeDecl
  refine Reads.peek (Reads.take fun q => Reads.name fun _ => ?_)
  refine (typeParams tps).bind (fun _ _ => by simp [notNext]) fun tps' htps =>
    Reads.take fun _ => ?_
  refine (typeNode h).bind (fun _ _ => by simp [notNext]) fun t' ht =>
    Reads.take fun _ => Reads.pure ?_
  rw [htps, ht]
  rfl

theorem funBraced {ls : List Lexeme} {n : Node} {ok : Option Lexeme → Prop}
    (hok : ok (some (.mark .rightBrace))) (h : Reads L.sequence ls ok n.Alike) :
    Reads L.funBody
      (.mark .fatArrow :: .mark .leftBrace :: ls ++ [Lexeme.mark .rightBrace]) anything
      n.Alike := by
  unfold Level.funBody
  refine Reads.isNext true (fun _ _ => rfl) ?_
  rw [if_pos rfl]
  exact Reads.take fun _ => bracedSequence hok h

theorem funEqual {ls : List Lexeme} {n : Node} {ok : Option Lexeme → Prop}
    (h : Reads L.expression ls ok n.Alike) : Reads L.funBody (.mark .equal :: ls) ok n.Alike := by
  unfold Level.funBody
  refine Reads.isNext false (fun _ _ => rfl) ?_
  rw [if_neg Bool.false_ne_true]
  refine Reads.isNext true (fun _ _ => rfl) ?_
  rw [if_pos rfl]
  exact Reads.take fun _ => h

/-- Parameters are read one by one. -/
theorem params (hstart : ∀ i ∈ items, ∃ l ls, lexemes i = l :: ls ∧ l ≠ .mark .rightParen)
    (h : ∀ i ∈ items, Reads L.param (lexemes i) (afterType .colon) (tree i).Alike) :
    Reads (Parser.parenthesized L.param) (parenthesized (items.map lexemes)) anything
      fun as => Node.eraseAll as = Node.eraseAll (items.map tree) :=
  (Reads.parenthesized h hstart ⟨by decide, by decide⟩ ⟨by decide, by decide⟩).mono
    (fun _ ho => ho) fun _ has => Node.eraseAll_of_forall₂ has

/-- What may come after the parameters and the result's type of a
function. -/
def startsFunBody (o : Option Lexeme) : Prop :=
  o = some (.mark .fatArrow) ∨ o = some (.mark .equal)

/-- What may come after a declaration. -/
abbrev afterDeclaration : Option Lexeme → Prop := afterItems

theorem funDecl (n : String) (tps : List String) (semicolon : Bool) {rs bs : List Lexeme}
    {parameters : List Node} {ps : List Lexeme} {r b : Node} {ok : Option Lexeme → Prop}
    (hok : ok (some (.mark .semicolon)))
    (hps : Reads (Parser.parenthesized L.param) (.mark .leftParen :: ps) anything
      fun as => Node.eraseAll as = Node.eraseAll parameters)
    (hr : Reads L.resultType rs startsFunBody (· = r)) (hstart : startsFunBody bs.head?)
    (hb : Reads L.funBody bs ok b.Alike) :
    Reads L.declaration
      (Node.heading .kwFun n tps ++ .mark .leftParen :: ps ++ rs ++ bs
        ++ optionalMark semicolon .semicolon)
      (fun o => ok o ∧ notNext (.mark .semicolon) o)
      (Node.funDecl none n (tps.map Name.word) parameters b r).Alike := by
  simp only [Node.heading, List.cons_append, List.append_assoc]
  unfold Level.declaration Level.funDecl
  refine Reads.peek (Reads.take fun q => Reads.name fun _ => ?_)
  refine (typeParams tps).bind (fun _ _ => by simp [notNext]) fun tps' htps => ?_
  rw [← List.cons_append]
  refine hps.bind (fun _ _ => trivial) fun ps' hps' => ?_
  refine hr.bind (fun o _ => ?_) fun r' hr' => ?_
  · cases bs with
    | nil => rcases hstart with h | h <;> cases h
    | cons l bs => exact hstart
  refine hb.bind (fun o ho => ?_) fun b' hb' => ?_
  · cases semicolon with
    | true => exact hok
    | false => exact ho.1
  rw [← List.append_nil (optionalMark semicolon .semicolon)]
  refine markOption semicolon (fun _ ho => ho.2) (Reads.pure ?_)
  show Node.erase _ = Node.erase _
  rw [Node.erase, Node.erase, hb', hps', hr', htps]

/-- **Declarations**, up to and with the `in` after them. -/
theorem declarations {words : List Keyword} (hin : Keyword.kwIn ∉ words)
    (hstart : ∀ i ∈ items, ∃ w ∈ words, ∃ ls, lexemes i = .keyword w :: ls)
    (h : ∀ i ∈ items, Reads L.declaration (lexemes i) afterDeclaration (tree i).Alike) :
    Reads (L.declarations words) ((items.map lexemes).flatten ++ [Lexeme.keyword .kwIn]) anything
      fun ds => Node.eraseAll ds = Node.eraseAll (items.map tree) := by
  have hmany : Reads (Parser.many (fun l => words.any fun w => l == .keyword w) L.declaration)
      (items.flatMap lexemes) (· = some (.keyword .kwIn))
      (List.Forall₂ (fun i d => (tree i).Alike d) items) := by
    refine Reads.many _ h (fun i hi => ?_) ?_ ?_
    · obtain ⟨w, hw, ls, hls⟩ := hstart i hi
      exact ⟨_, ls, hls, List.any_eq_true.2 ⟨w, hw, beq_self_eq_true _⟩⟩
    · intro l hl
      obtain ⟨w, -, hw⟩ := List.any_eq_true.1 hl
      rw [eq_of_beq hw]
      exact ⟨by simp [notNext], by simp [notNext]⟩
    · rintro o rfl
      refine ⟨⟨by decide, by decide⟩, fun l hl => ?_⟩
      cases hl
      refine List.any_eq_false.2 fun w hw he => hin ?_
      rw [Lexeme.keyword.inj (eq_of_beq he)]
      exact hw
  rw [← List.flatMap_def]
  unfold Level.declarations
  refine hmany.bind (fun _ _ => rfl) fun ds hds => ?_
  refine Reads.isNext true (fun _ _ => rfl) ?_
  exact Reads.take fun _ => Reads.pure (Node.eraseAll_of_forall₂ hds)

/-- The lexemes of a scope, by the readers that take them: `begin`, the
declarations with the `in` that ends them, and the rest. -/
theorem scope_lexemes (ds ls : List Lexeme) :
    .keyword .kwBegin :: ds ++ .keyword .kwIn :: ls ++ [Lexeme.keyword .kwEnd]
      = .keyword .kwBegin
        :: ((ds ++ [Lexeme.keyword .kwIn]) ++ (ls ++ [Lexeme.keyword .kwEnd])) := by
  simp

/-- **Local declarations over a sequence.** The lexeme after `begin`
tells that there are declarations. -/
theorem block {ls : List Lexeme} {n : Node} {ok : Option Lexeme → Prop}
    (hok : ok (some (.keyword .kwEnd)))
    (hstart : ∀ i ∈ items, ∃ w ∈ Level.localWords, ∃ ls, lexemes i = .keyword w :: ls)
    (h : ∀ i ∈ items, Reads L.declaration (lexemes i) afterDeclaration (tree i).Alike)
    (hb : Reads L.sequence ls ok n.Alike) :
    Reads L.primary
      (.keyword .kwBegin :: (items.map lexemes).flatten ++ .keyword .kwIn :: ls
        ++ [Lexeme.keyword .kwEnd])
      anything (Node.block none (items.map tree) n).Alike := by
  have hblock : ∃ w ms, (items.map lexemes).flatten ++ [Lexeme.keyword .kwIn]
      = .keyword w :: ms ∧ Level.startsBlock (some (.keyword w)) = true := by
    cases items with
    | nil => exact ⟨_, _, rfl, by decide⟩
    | cons i items =>
      obtain ⟨w, hw, ls, hls⟩ := hstart i List.mem_cons_self
      refine ⟨w, _, by rw [List.map_cons, hls]; rfl, ?_⟩
      exact List.contains_iff_mem.2 (List.mem_append_left _ hw)
  have hds := declarations (by decide) hstart h
  obtain ⟨w, ms, hms, hstarts⟩ := hblock
  rw [scope_lexemes]
  unfold Level.primary Level.block
  refine Reads.here fun q => Reads.peek ?_
  rw [hms] at hds ⊢
  refine Reads.peekSecond ?_
  rw [hstarts, if_pos rfl]
  refine Reads.take fun q' => hds.bind (fun _ _ => trivial) fun ds hds => ?_
  refine hb.bind (fun _ _ => hok) fun a ha => Reads.take fun _ => Reads.pure ?_
  show Node.erase _ = Node.erase _
  rw [Node.erase, Node.erase, ha, hds]

/-- **A whole program**, after which nothing follows. -/
theorem program {ls : List Lexeme} {n : Node} {ok : Option Lexeme → Prop}
    (hok : ok (some (.keyword .kwEnd)))
    (hstart : ∀ i ∈ items, ∃ w ∈ Level.declarationWords, ∃ ls, lexemes i = .keyword w :: ls)
    (h : ∀ i ∈ items, Reads L.declaration (lexemes i) afterDeclaration (tree i).Alike)
    (hb : Reads L.sequence ls ok n.Alike) :
    Reads (Parser.program L)
      (.keyword .kwBegin :: (items.map lexemes).flatten ++ .keyword .kwIn :: ls
        ++ [Lexeme.keyword .kwEnd])
      (· = none) (Node.program none (items.map tree) n).Alike := by
  rw [scope_lexemes]
  unfold Parser.program
  refine Reads.take fun q => (declarations (by decide) hstart h).bind (fun _ _ => trivial)
    fun ds hds => ?_
  refine hb.bind (fun _ _ => hok) fun a ha => Reads.take fun _ => ?_
  refine Reads.peekEnd (Reads.pure ?_)
  show Node.erase _ = Node.erase _
  rw [Node.erase, Node.erase, ha, hds]

end Production

end EmberLang
