import EmberLang.Proofs.Viable

/-!
# The first token at fault

A parse error is at the first token at which a text stops being the
beginning of a program. The tokens before it can be completed to a program;
the tokens up to and with it cannot, and whatever comes after them, the
error is the same.

That reading stops at the first such token is not a matter of course. A
reader that looks ahead, or that takes a wrong turn, may stop late; one that
gives up a phrase too soon may stop early, at a token that could still be
right. Here all readers of the language are gone through once and found to
be viable, each with a short phrase that it reads. Types, patterns and
expressions are completed before whatever closes them (`Parser.Closes`): no
phrase goes on with a comma, a closing bracket, an arrow `=>` or the like. A
sequence may have a semicolon at its end, so its short phrase has one, and
another semicolon after it closes it.

The token after `begin`, which tells a block from a sequence, is looked at
before `begin` is taken. It is the next token once `begin` is taken, and both
readers take `begin` first (`Parser.Level.beginning_cons`), so reading never
depends on more than one token that it has not taken.
-/

namespace EmberLang

namespace Parser

variable {more : Prop}

/-! ## What may follow a phrase -/

/-- **Whether no phrase goes on** with what comes next: a type, a pattern or
an expression that is complete before it ends there, and so does a sequence
after a semicolon. -/
def closes (o : Option Lexeme) : Bool :=
  o.all fun l => !(Level.startsExpression l
    || [Lexeme.mark .leftBracket, .mark .leftBrace, .mark .colon, .mark .arrow].contains l)

/-- What comes next ends a phrase. -/
def Closes (o : Option Lexeme) : Prop := closes o = true

/-- What a phrase may go on with does not come next. -/
theorem Closes.ne {o : Option Lexeme} {l : Lexeme} (h : Closes o) (hl : closes (some l) = false) :
    (o == some l) = false := by
  refine beq_eq_false_iff_ne.2 ?_
  rintro rfl
  exact Bool.false_ne_true (hl.symm.trans h)

theorem Closes.not_startsExpression {o : Option Lexeme} (h : Closes o) :
    o.any Level.startsExpression = false := by
  cases o with
  | none => rfl
  | some l =>
    have hl := Bool.not_eq_true' _ |>.mp h
    exact (Bool.or_eq_false_iff.1 hl).1

/-! ## Types and patterns -/

/-- A name, which is a type, a pattern and an expression. -/
abbrev aName : List Lexeme := [.ident "x"]

/-- The type of functions without parameters. -/
abbrev aFunctionType : List Lexeme :=
  [.keyword .kwFun, .mark .leftParen, .mark .rightParen, .mark .arrow, .ident "x"]

theorem typeSpecIn_reads (inner : Parser TypeSpec) :
    Reads (typeSpecIn inner) aName Closes fun _ => True := by
  refine .peek (.name fun _ => ?_)
  exact .isNext false (fun o ho => ho.ne rfl) (.pure trivial)

theorem typeSpecIn_reads_function {inner : Parser TypeSpec}
    (h : Reads inner aName Closes fun _ => True) :
    Reads (typeSpecIn inner) aFunctionType Closes fun _ => True := by
  have hinner : Phrase True tooDeep inner aName Closes := ⟨.tooDeep, fun _ => h⟩
  refine .peek (.skip ?_)
  refine ((hinner.parenthesized rfl).reads trivial).bind (fun _ _ => trivial) fun params _ => ?_
  exact .take fun _ => h.map fun _ _ => trivial

theorem typeSpecIn_phrase {inner inner' : Parser TypeSpec}
    (h : Phrase more inner inner' aName Closes) :
    Phrase more (typeSpecIn inner) (typeSpecIn inner') aName Closes := by
  refine ⟨.peek fun o => ?_, fun _ => typeSpecIn_reads inner'⟩
  have hnamed (o : Option Lexeme) : ViableAt more o
      (do
        let n ← name
        if ← isNext (.mark .leftBracket) then
          return TypeSpec.mk n.1 (← enclosed .leftBracket .rightBracket inner)
        else return .mk n.1 [])
      (do
        let n ← name
        if ← isNext (.mark .leftBracket) then
          return TypeSpec.mk n.1 (← enclosed .leftBracket .rightBracket inner')
        else return .mk n.1 []) Closes := by
    refine Viable.at_next (Phrase.name.viable.andThen [] fun n => ?_) o
    have hargs := h.enclosed .leftBracket .rightBracket (by decide) rfl
    exact .isNext false (fun o ho => ho.ne rfl) (.pure _) (hargs.map _).anywhere.viable
  cases o with
  | none => exact hnamed _
  | some l =>
    cases l with
    | keyword k =>
      cases k with
      | kwFun =>
        have harrow (params : List TypeSpec) :=
          (Phrase.mark .arrow).andThen fun _ => h.map (TypeSpec.function params)
        exact Viable.at_next ((Phrase.skip (.keyword .kwFun)).viable.andThen _ fun _ =>
          (h.parenthesized rfl).andThen harrow) _
      | _ => exact hnamed _
    | mark m =>
      cases m with
      | leftParen =>
        exact Viable.at_next ((Phrase.skip (.mark .leftParen)).viable.andThen _ fun _ =>
          ((Phrase.mark .rightParen).map _).anywhere) _
      | _ => exact hnamed _
    | _ => exact hnamed _

theorem patternIn_reads (inner : Parser Node) :
    Reads (patternIn inner) aName Closes fun _ => True := by
  refine .here fun _ => .peek (.name fun _ => ?_)
  dsimp only
  rw [if_neg (by decide)]
  exact .isNext false (fun o ho => ho.ne rfl) (.pure trivial)

theorem patternIn_phrase {inner inner' : Parser Node} (h : Phrase more inner inner' aName Closes) :
    Phrase more (patternIn inner) (patternIn inner') aName Closes := by
  refine ⟨.here fun p => .peek fun o => ?_, fun _ => patternIn_reads inner'⟩
  have hnamed (o : Option Lexeme) : ViableAt more o
      (do
        let n ← name
        if n.1 = "_" then return Node.patternWild p
        else if ← isNext (.mark .leftParen) then return .patternCtor p n.1 (← parenthesized inner)
        else return .patternVar p n.1)
      (do
        let n ← name
        if n.1 = "_" then return Node.patternWild p
        else if ← isNext (.mark .leftParen) then return .patternCtor p n.1 (← parenthesized inner')
        else return .patternVar p n.1) Closes := by
    refine Viable.at_next (Phrase.name.viable.andThen [] fun n => ?_) o
    split
    · exact .pure _
    · exact .isNext false (fun o ho => ho.ne rfl) (.pure _)
        ((h.parenthesized rfl).map _).anywhere.viable
  cases o with
  | none => exact hnamed _
  | some l =>
    cases l with
    | int s => exact (Viable.literal (.int s) rfl _).at_next _
    | real s => exact (Viable.literal (.real s) rfl _).at_next _
    | char s => exact (Viable.literal (.char s) rfl _).at_next _
    | keyword k =>
      cases k with
      | kwTrue => exact (Viable.literal (.keyword .kwTrue) rfl _).at_next _
      | kwFalse => exact (Viable.literal (.keyword .kwFalse) rfl _).at_next _
      | _ => exact hnamed _
    | _ => exact hnamed _

/-! ## Levels -/

namespace Level

/-- A name and a semicolon, which is a sequence whatever closes it. -/
abbrev aSequence : List Lexeme := [.ident "x", .mark .semicolon]

/-- **The readers of one level and of another**, which has at least as many
levels further in, and more if `more` says so. -/
structure Phrases (more : Prop) (inner inner' : Level) : Prop where
  /-- There is as much room. -/
  room_le : inner.room ≤ inner'.room
  /-- Types. -/
  typeSpec : Phrase more inner.typeSpec inner'.typeSpec aName Closes
  /-- The types of functions. -/
  functionType : more → Reads inner'.typeSpec aFunctionType Closes fun _ => True
  /-- Patterns. -/
  pattern : Phrase more inner.pattern inner'.pattern aName Closes
  /-- Expressions. -/
  expression : Phrase more inner.expression inner'.expression aName Closes
  /-- Sequences. -/
  sequence : Phrase more inner.sequence inner'.sequence aSequence Closes

variable {inner inner' : Level} (h : inner.Phrases more inner')

include h

theorem typeNode_phrase : Phrase more inner.typeNode inner'.typeNode aName Closes :=
  h.typeSpec.map _

theorem typeAfterColon_phrase :
    Phrase more inner.typeAfterColon inner'.typeAfterColon [] Closes :=
  .isNext false (fun _ ho => ho.ne rfl) (.pure _)
    ((Phrase.mark .colon).viable.andThen _ fun _ => typeNode_phrase h)

theorem braced_phrase : Phrase more inner.braced inner'.braced
    (.mark .leftBrace :: aSequence ++ [Lexeme.mark .rightBrace]) anything := by
  refine (Phrase.mark .leftBrace).andThen fun _ => ?_
  exact h.sequence.bind (fun _ _ => rfl) fun body => (Phrase.mark .rightBrace).map _

theorem body_phrase : Phrase more inner.body inner'.body aName Closes :=
  .isNext false (fun _ _ => rfl) h.expression (braced_phrase h).anywhere.viable

theorem param_phrase : Phrase more inner.param inner'.param aName Closes :=
  Phrase.name.andThen fun _ => (typeAfterColon_phrase h).map _

/-! ### Declarations -/

omit h in
theorem typeParams_phrase :
    Phrase more typeParams typeParams [] (notNext (.mark .leftBracket)) := by
  refine .isNext false (fun o ho => beq_eq_false_iff_ne.2 ho) (.pure _) ?_
  exact ((Phrase.name.map _).enclosed .leftBracket .rightBracket (by decide) trivial)
    |>.anywhere.viable

theorem externDecl_viable : Viable more inner.externDecl inner'.externDecl anything
    ∧ Eager inner.externDecl := by
  have hsignature : Phrase more inner.typeSpec inner'.typeSpec aFunctionType Closes :=
    ⟨h.typeSpec.viable, h.functionType⟩
  refine Viable.begun (.keyword .kwExtern)
    (.ident "x" :: .mark .colon :: aFunctionType ++ [Lexeme.mark .semicolon]) fun p => ?_
  refine Phrase.name.andThen fun n => typeParams_phrase.bind (fun _ _ e => by cases e) fun tps => ?_
  refine (Phrase.mark .colon).andThen fun _ => .isNext true (fun _ _ => rfl) ?_ (.needed_bind _)
  exact hsignature.bind (fun _ _ => rfl) fun t => (Phrase.mark .semicolon).map _

theorem constructorDecl_phrase :
    Phrase more inner.constructorDecl inner'.constructorDecl aName Closes := by
  have hfields (left right : Mark) (hright : right ≠ .comma) (hend : Closes (some (.mark right))) :=
    (typeNode_phrase h).enclosed left right hright hend
  refine Phrase.name.andThen fun n => .isNext false (fun _ ho => ho.ne rfl) ?_ ?_
  · refine .isNext false (fun _ ho => ho.ne rfl) (.pure _) ?_
    exact ((hfields .leftBracket .rightBracket (by decide) rfl).map _).anywhere.viable
  · exact ((hfields .leftParen .rightParen (by decide) rfl).map _).anywhere.viable

theorem dataDecl_viable : Viable more inner.dataDecl inner'.dataDecl anything
    ∧ Eager inner.dataDecl := by
  have hconstructor := constructorDecl_phrase h
  have hmore : Phrase more
      (many (· == .mark .bar) do let _ ← mark .bar; inner.constructorDecl)
      (many (· == .mark .bar) do let _ ← mark .bar; inner'.constructorDecl) []
      (· = some (.keyword .kwEnd)) := by
    refine .many ((Phrase.mark .bar).viable.andThen _ fun _ => hconstructor)
      (.take fun _ => hconstructor.viable) ?_
    rintro _ rfl
    exact ⟨rfl, by rintro _ ⟨⟩; rfl⟩
  refine Viable.begun (.keyword .kwData) [.ident "x", .mark .equal, .mark .bar, .ident "x",
    .keyword .kwEnd, .mark .semicolon] fun p => ?_
  refine Phrase.name.andThen fun n => typeParams_phrase.bind (fun _ _ e => by cases e) fun tps => ?_
  refine (Phrase.mark .equal).andThen fun _ => (Phrase.optionalMark .bar).andThen fun _ => ?_
  refine hconstructor.bind (fun _ _ => rfl) fun c => hmore.bind (fun _ _ => rfl) fun cs => ?_
  exact (Phrase.word .kwEnd).andThen fun _ => (Phrase.optionalMark .semicolon).map _

theorem typeDecl_viable : Viable more inner.typeDecl inner'.typeDecl anything
    ∧ Eager inner.typeDecl := by
  refine Viable.begun (.keyword .kwType) [.ident "x", .mark .equal, .ident "x", .mark .semicolon]
    fun p => ?_
  refine Phrase.name.andThen fun n => typeParams_phrase.bind (fun _ _ e => by cases e) fun tps => ?_
  refine (Phrase.mark .equal).andThen fun _ => (typeNode_phrase h).bind (fun _ _ => rfl) fun t => ?_
  exact (Phrase.mark .semicolon).map _

theorem resultType_phrase : Phrase more inner.resultType inner'.resultType [] Closes := by
  have htype : Viable more (do skip; inner.typeNode) (do skip; inner'.typeNode) Closes :=
    (Phrase.skip (.mark .arrow)).viable.andThen _ fun _ => typeNode_phrase h
  refine .isNext false (fun _ ho => ho.ne rfl) ?_ (.isNext fun _ => htype)
  exact .isNext false (fun _ ho => ho.ne rfl) (.pure _) htype

theorem funBody_phrase :
    Phrase more inner.funBody inner'.funBody (.mark .equal :: aName) Closes := by
  refine .isNext false (fun _ _ => rfl) ?_ ?_
  · refine .isNext true (fun _ _ => rfl) ?_ (.needed _)
    exact (Phrase.mark .equal).andThen fun _ => h.expression
  · exact (Phrase.mark .fatArrow).viable.andThen _ fun _ => (braced_phrase h).anywhere

theorem funDecl_viable : Viable more inner.funDecl inner'.funDecl anything
    ∧ Eager inner.funDecl := by
  refine Viable.begun (.keyword .kwFun) [.ident "x", .mark .leftParen, .mark .rightParen,
    .mark .equal, .ident "x", .mark .semicolon] fun p => ?_
  refine Phrase.name.andThen fun n => typeParams_phrase.bind (fun _ _ e => by cases e) fun tps => ?_
  refine ((param_phrase h).parenthesized rfl).andThen fun params => ?_
  refine (resultType_phrase h).bind (fun _ _ => rfl) fun t => ?_
  exact (funBody_phrase h).bind (fun _ _ => rfl) fun body => (Phrase.optionalMark .semicolon).map _

theorem declaration_viable : Viable more inner.declaration inner'.declaration anything
    ∧ Eager inner.declaration := by
  refine ⟨.peek fun o => ?_, .peek fun o => ?_⟩
  · cases o with
    | none => exact (Viable.needed _).at_next _
    | some l =>
      cases l with
      | keyword k =>
        cases k with
        | kwExtern => exact (externDecl_viable h).1.at_next _
        | kwData => exact (dataDecl_viable h).1.at_next _
        | kwType => exact (typeDecl_viable h).1.at_next _
        | kwFun => exact (funDecl_viable h).1.at_next _
        | _ => exact (Viable.needed _).at_next _
      | _ => exact (Viable.needed _).at_next _
  · split
    · exact (externDecl_viable h).2
    · exact (dataDecl_viable h).2
    · exact (typeDecl_viable h).2
    · exact (funDecl_viable h).2
    · exact .needed _

theorem declarations_phrase {words : List Keyword} (hwords : .kwIn ∉ words) :
    Phrase more (inner.declarations words) (inner'.declarations words) [.keyword .kwIn]
      anything := by
  have hmany : Phrase more
      (many (fun l => words.any fun k => l == .keyword k) inner.declaration)
      (many (fun l => words.any fun k => l == .keyword k) inner'.declaration) []
      (· = some (.keyword .kwIn)) := by
    refine .many (declaration_viable h).1 (declaration_viable h).2 ?_
    rintro _ rfl
    refine ⟨trivial, ?_⟩
    rintro _ ⟨⟩
    refine List.any_eq_false.2 fun k hk he => hwords ?_
    obtain rfl := Lexeme.keyword.inj (eq_of_beq he)
    exact hk
  refine hmany.bind (fun _ _ => rfl) fun ds => .isNext true (fun _ _ => rfl) ?_ (.needed_bind _)
  exact (Phrase.word .kwIn).map _

/-! ### Expressions -/

theorem arguments_phrase : Phrase more inner.arguments inner'.arguments
    [.mark .leftParen, .mark .rightParen] anything :=
  h.expression.parenthesized rfl

theorem letIn_viable : Viable more inner.letIn inner'.letIn Closes := by
  refine (Viable.begun (.keyword .kwLet)
    ([Lexeme.ident "x", .mark .equal, .ident "x", .mark .semicolon] ++ aSequence) fun p => ?_).1
  refine Phrase.name.andThen fun n => (typeAfterColon_phrase h).bind (fun _ _ => rfl) fun t => ?_
  refine (Phrase.mark .equal).andThen fun _ => h.expression.bind (fun _ _ => rfl) fun value => ?_
  exact (Phrase.mark .semicolon).andThen fun _ => h.sequence.map _

theorem lambda_viable : Viable more inner.lambda inner'.lambda Closes := by
  refine (Viable.begun (.keyword .kwFn)
    [.mark .leftParen, .mark .rightParen, .mark .fatArrow, .ident "x"] fun p => ?_).1
  refine ((param_phrase h).parenthesized rfl).andThen fun params => ?_
  exact (Phrase.mark .fatArrow).andThen fun _ => (body_phrase h).map _

/-- An arm. -/
abbrev anArm : List Lexeme := [.mark .bar, .ident "x", .mark .fatArrow, .ident "x"]

theorem arm_phrase : Phrase more inner.arm inner'.arm anArm Closes ∧ Eager inner.arm := by
  have hrest (p : Position) : Phrase more
      (do
        let pattern ← inner.pattern
        let _ ← mark .fatArrow
        return Node.arm p pattern (← inner.body))
      (do
        let pattern ← inner'.pattern
        let _ ← mark .fatArrow
        return Node.arm p pattern (← inner'.body))
      [.ident "x", .mark .fatArrow, .ident "x"] Closes := by
    refine h.pattern.bind (fun _ _ => rfl) fun pattern => ?_
    exact (Phrase.mark .fatArrow).andThen fun _ => (body_phrase h).map _
  exact ⟨(Phrase.mark .bar).andThen hrest, .take fun p => (hrest p).viable⟩

theorem caseOf_viable : Viable more inner.caseOf inner'.caseOf Closes := by
  have hmany : Phrase more (many (· == .mark .bar) inner.arm) (many (· == .mark .bar) inner'.arm) []
      (· = some (.keyword .kwEnd)) := by
    refine .many (arm_phrase h).1.viable (arm_phrase h).2 ?_
    rintro _ rfl
    exact ⟨rfl, by rintro _ ⟨⟩; rfl⟩
  have hone (hmore : more) : Reads (many (· == .mark .bar) inner'.arm)
      ([()].flatMap fun _ => anArm) (· = some (.keyword .kwEnd))
      (List.Forall₂ (fun _ _ => True) [()]) := by
    refine .many Closes (fun _ _ => (arm_phrase h).1.reads hmore) ?_ ?_ ?_
    · exact fun _ _ => ⟨_, _, rfl, rfl⟩
    · intro l hl
      obtain rfl := eq_of_beq hl
      rfl
    · rintro _ rfl
      exact ⟨rfl, by rintro _ ⟨⟩; rfl⟩
  have harms : Phrase more (many (· == .mark .bar) inner.arm) (many (· == .mark .bar) inner'.arm)
      anArm (· = some (.keyword .kwEnd)) :=
    ⟨hmany.viable, fun hmore => (hone hmore).mono (fun _ ho => ho) fun _ _ => trivial⟩
  refine (Viable.begun (.keyword .kwCase)
    (.ident "x" :: .keyword .kwOf :: anArm ++ [Lexeme.keyword .kwEnd]) fun p => ?_).1
  refine h.expression.bind (fun _ _ => rfl) fun scrutinee => (Phrase.word .kwOf).andThen fun _ => ?_
  refine .isNext true (fun _ _ => rfl) ?_ (.needed_bind _)
  exact harms.bind (fun _ _ => rfl) fun arms => ((Phrase.word .kwEnd).map _).anywhere

omit h

/-- The reader of a phrase that begins with `begin`. -/
def beginning (inner : Level) : Parser Node := do
  if startsBlock (← peekSecond) then inner.block
  else
    skip
    let body ← inner.sequence
    let _ ← word .kwEnd
    return body

/-- What it reads after the `begin` at the given position. -/
def afterBegin (inner : Level) (p : Position) : Parser Node := do
  if startsBlock (← peek) then
    let ds ← inner.declarations localWords
    let body ← inner.sequence
    let _ ← word .kwEnd
    return .block p ds body
  else
    let body ← inner.sequence
    let _ ← word .kwEnd
    return body

/-- The lexeme that tells a block from a sequence is the next one after
`begin`, and both begin with `begin`. -/
theorem beginning_cons (inner : Level) (t : Token) (ts : List Token)
    (ht : t.lexeme = .keyword .kwBegin) :
    inner.beginning (t :: ts) = inner.afterBegin t.position ts := by
  have hblock : inner.block (t :: ts) = (do
      let ds ← inner.declarations localWords
      let body ← inner.sequence
      let _ ← word .kwEnd
      return .block t.position ds body : Parser Node) ts :=
    bind_of_ok (if_pos ht)
  show (if startsBlock (ts.head?.map Token.lexeme) = true then _ else _ : Parser Node) (t :: ts)
    = (if startsBlock (ts.head?.map Token.lexeme) = true then _ else _ : Parser Node) ts
  split
  · exact hblock
  · rfl

include h

theorem afterBegin_phrase (p : Position) : Phrase more (inner.afterBegin p) (inner'.afterBegin p)
    (aSequence ++ [Lexeme.keyword .kwEnd]) Closes := by
  have hsequence : Phrase more (do let body ← inner.sequence; let _ ← word .kwEnd; return body)
      (do let body ← inner'.sequence; let _ ← word .kwEnd; return body)
      (aSequence ++ [Lexeme.keyword .kwEnd]) Closes :=
    h.sequence.bind (fun _ _ => rfl) fun body => ((Phrase.word .kwEnd).map _).anywhere
  refine ⟨.peek fun o => ?_, fun hmore => .peek (hsequence.reads hmore)⟩
  cases startsBlock o with
  | false => exact hsequence.viable.at_next o
  | true =>
    refine Viable.at_next ((declarations_phrase h (by decide)).viable.andThen
      (aSequence ++ [Lexeme.keyword .kwEnd]) fun ds => ?_) o
    exact h.sequence.bind (fun _ _ => rfl) fun body => ((Phrase.word .kwEnd).map _).anywhere

theorem beginning_viable :
    ViableAt more (some (.keyword .kwBegin)) inner.beginning inner'.beginning Closes :=
  .cons (afterBegin_phrase h) (beginning_cons inner) (beginning_cons inner')

theorem applications_phrase {room room' : Nat} (hroom : room ≤ room') (callee : Node) :
    Phrase more (inner.applications room callee) (inner'.applications room' callee) [] Closes := by
  induction room generalizing room' callee with
  | zero =>
    cases room' with
    | zero => exact .isNext false (fun _ ho => ho.ne rfl) (.pure _) .tooDeep
    | succ room' => exact .isNext false (fun _ ho => ho.ne rfl) (.pure _) .tooDeep
  | succ room ih =>
    cases room' with
    | zero => cases hroom
    | succ room' =>
      refine .isNext false (fun _ ho => ho.ne rfl) (.pure _) (.here fun p => ?_)
      exact (arguments_phrase h).viable.andThen _ fun args => ih (Nat.le_of_succ_le_succ hroom) _

theorem primary_viable : Viable more inner.primary inner'.primary Closes := by
  refine .here fun p => .peek fun o => ?_
  have harguments (l : Lexeme) (g : List Node → Node) :
      Viable more (do skip; return g (← inner.arguments)) (do skip; return g (← inner'.arguments))
        Closes :=
    (Phrase.skip l).viable.andThen _ fun _ => ((arguments_phrase h).map g).anywhere
  cases o with
  | none => exact (Viable.needed _).at_next _
  | some l =>
    cases l with
    | ident n =>
      exact Viable.at_next ((Phrase.skip (.ident n)).viable.andThen [] fun _ => .pure _) _
    | int s => exact (Viable.literal (.int s) rfl _).at_next _
    | real s => exact (Viable.literal (.real s) rfl _).at_next _
    | char s => exact (Viable.literal (.char s) rfl _).at_next _
    | intrinsic op => exact (harguments (.intrinsic op) _).at_next _
    | directive n => exact (harguments (.directive n) _).at_next _
    | keyword k =>
      cases k with
      | kwTrue => exact (Viable.literal (.keyword .kwTrue) rfl _).at_next _
      | kwFalse => exact (Viable.literal (.keyword .kwFalse) rfl _).at_next _
      | kwCase => exact (caseOf_viable h).at_next _
      | kwLet => exact (letIn_viable h).at_next _
      | kwFn => exact (lambda_viable h).at_next _
      | kwBegin => exact beginning_viable h
      | _ => exact (Viable.needed _).at_next _
    | mark m =>
      cases m with
      | leftParen =>
        refine Viable.at_next ((Phrase.skip (.mark .leftParen)).viable.andThen
          [.mark .rightParen] fun _ => ?_) _
        refine .isNext true (fun _ _ => rfl) ((Phrase.mark .rightParen).map _).anywhere ?_
        exact h.expression.viable.bind [.mark .rightParen] (fun _ _ => rfl) fun e =>
          ((Phrase.mark .rightParen).map _).anywhere
      | _ => exact (Viable.needed _).at_next _

omit h in
theorem primary_reads (inner : Level) : Reads inner.primary aName Closes fun _ => True :=
  .here fun _ => .peek (.skip (.pure trivial))

omit h in
theorem expressionIn_reads (inner : Level) :
    Reads inner.expressionIn aName Closes fun _ => True := by
  have hcall (room : Nat) (e : Node) :
      Reads (inner.applications room e) [] Closes fun _ => True := by
    cases room with
    | zero => exact .isNext false (fun _ ho => ho.ne rfl) (.pure trivial)
    | succ room => exact .isNext false (fun _ ho => ho.ne rfl) (.pure trivial)
  exact (primary_reads inner).bind (fun _ ho => ho) fun e _ => hcall inner.room e

theorem expressionIn_phrase :
    Phrase more inner.expressionIn inner'.expressionIn aName Closes :=
  ⟨(primary_viable h).bind [] (fun _ ho => ho) fun e => applications_phrase h h.room_le e,
    fun _ => expressionIn_reads inner'⟩

omit h

/-- What a sequence reads after the first of its semicolons. -/
def afterSemicolon (inner : Level) (first : Node) (p : Position) : Parser Node := do
  if (← peek).any startsExpression then return .seq p first (← inner.sequence)
  else return first

theorem afterSemicolon_reads (inner : Level) (first : Node) (p : Position) :
    Reads (inner.afterSemicolon first p) [] Closes fun _ => True := by
  intro ts rest hts hrest
  obtain rfl := List.map_eq_nil_iff.1 hts
  refine ⟨first, ?_, trivial⟩
  show (if (rest.head?.map Token.lexeme).any startsExpression = true then _ else _ : Parser Node)
    rest = _
  rw [hrest.not_startsExpression]
  rfl

theorem sequenceIn_reads (inner : Level) :
    Reads inner.sequenceIn aSequence Closes fun _ => True := by
  refine .isNext false (fun _ _ => rfl) ?_
  refine (expressionIn_reads inner).bind (fun _ _ => rfl) fun first _ => ?_
  exact .isNext true (fun _ _ => rfl) (.take fun p => afterSemicolon_reads inner first p)

include h

theorem afterSemicolon_phrase (first : Node) (p : Position) :
    Phrase more (inner.afterSemicolon first p) (inner'.afterSemicolon first p) [] Closes := by
  refine ⟨.peek fun o => ?_, fun _ => afterSemicolon_reads inner' first p⟩
  cases o.any startsExpression with
  | true => exact (h.sequence.map _).viable.at_next o
  | false => exact (Phrase.pure first).viable.at_next o

/-- The semicolon after an item may be the last, or another item follows. -/
theorem sequenceIn_phrase :
    Phrase more inner.sequenceIn inner'.sequenceIn aSequence Closes := by
  refine ⟨.isNext fun b => ?_, fun _ => sequenceIn_reads inner'⟩
  cases b with
  | true => exact letIn_viable h
  | false =>
    refine (expressionIn_phrase h).viable.bind [.mark .semicolon] (fun _ _ => rfl) fun first => ?_
    refine .isNext true (fun _ _ => rfl) ?_ (Phrase.pure first).viable
    exact (Phrase.mark .semicolon).andThen fun p => afterSemicolon_phrase h first p

end Level

/-- **The readers of any level**, and of a level with more inside it. Two
more are enough to complete whatever was read. -/
theorem level_phrases {n m : Nat} (hnm : n ≤ m) : (level n).Phrases (n + 2 ≤ m) (level m) := by
  induction n generalizing m with
  | zero =>
    have hroom : (level 0).room ≤ (level m).room := Nat.zero_le _
    match m, hroom with
    | 0, hroom | 1, hroom =>
      refine ⟨hroom, ⟨.tooDeep, ?_⟩, ?_, ⟨.tooDeep, ?_⟩, ⟨.tooDeep, ?_⟩, ⟨.tooDeep, ?_⟩⟩ <;>
        exact fun hmore => absurd hmore (by decide)
    | m + 2, hroom =>
      exact ⟨hroom, ⟨.tooDeep, fun _ => typeSpecIn_reads _⟩,
        fun _ => typeSpecIn_reads_function (typeSpecIn_reads _),
        ⟨.tooDeep, fun _ => patternIn_reads _⟩, ⟨.tooDeep, fun _ => Level.expressionIn_reads _⟩,
        ⟨.tooDeep, fun _ => Level.sequenceIn_reads _⟩⟩
  | succ n ih =>
    cases m with
    | zero => cases hnm
    | succ m =>
      have h := ih (Nat.le_of_succ_le_succ hnm)
      have hmore : n + 1 + 2 ≤ m + 1 ↔ n + 2 ≤ m := by omega
      rw [hmore]
      exact ⟨hnm, typeSpecIn_phrase h.typeSpec,
        fun hmore => typeSpecIn_reads_function (h.typeSpec.reads hmore),
        patternIn_phrase h.pattern, Level.expressionIn_phrase h, Level.sequenceIn_phrase h⟩

/-- **Whole programs.** -/
theorem program_phrase {outer outer' : Level} (h : outer.Phrases more outer') :
    Phrase more (program outer) (program outer')
      (.keyword .kwBegin :: .keyword .kwIn :: Level.aSequence ++ [Lexeme.keyword .kwEnd])
      (· = none) := by
  refine (Phrase.word .kwBegin).andThen fun p => ?_
  refine (Level.declarations_phrase h (by decide)).andThen fun ds => ?_
  refine h.sequence.bind (fun _ _ => rfl) fun body => (Phrase.word .kwEnd).andThen fun _ => ?_
  refine ⟨.peek fun o => ?_, fun _ => .peekEnd (.pure trivial)⟩
  cases o with
  | none => exact (Phrase.pure _).viable.at_next none
  | some l => exact (Viable.needed_bind _).at_next (some l)

/-- What is read with some levels is read with more. -/
theorem program_mono {n m : Nat} (hnm : n ≤ m) {ts : List Token} {r : Node × List Token}
    (h : program (level n) ts = .ok r) : program (level m) ts = .ok r := by
  obtain ⟨us, rfl, hsettles, -⟩ :=
    (program_phrase (level_phrases hnm)).viable ts (.ok r.1) r.2 h
  exact hsettles r.2 rfl

/-- **Where reading a program stops.** The tokens before begin a program, and
with the token it stopped at, and whatever comes after it, reading stops
there again, and no number of levels makes it a program. -/
theorem program_stops {n : Nat} {ts rest : List Token} {expected : List String}
    (h : program (level n) ts = .error (.unexpected expected rest)) :
    ∃ us, ts = us ++ rest
      ∧ (∃ vs root, program (level (n + 2)) (us ++ vs) = .ok (root, []))
      ∧ ∀ rest' : List Token, rest'.head? = rest.head? → ∀ m,
        (n ≤ m → program (level m) (us ++ rest') = .error (.unexpected expected rest'))
          ∧ ∀ r, program (level m) (us ++ rest') ≠ .ok r := by
  have hstop {m : Nat} (hnm : n ≤ m) :=
    (program_phrase (level_phrases hnm)).viable ts (.error expected) rest h
  obtain ⟨us, rfl, -, hcomplete⟩ := hstop (Nat.le_add_right n 2)
  have hagain {rest' : List Token} (hrest' : rest'.head? = rest.head?) {m : Nat} (hnm : n ≤ m) :
      program (level m) (us ++ rest') = .error (.unexpected expected rest') := by
    obtain ⟨us', hus', hsettles, -⟩ := hstop hnm
    obtain rfl := List.append_cancel_right hus'
    exact hsettles rest' hrest'
  refine ⟨us, rfl, ?_, fun rest' hrest' m => ⟨hagain hrest', fun r hr => ?_⟩⟩
  · have hlexemes (ms : List Lexeme) :
        (ms.map fun l => (⟨l, .start⟩ : Token)).map Token.lexeme = ms := by
      rw [List.map_map]
      exact List.map_id ms
    -- That tokens can be completed is only known where there are some. None at
    -- all begin every program.
    by_cases hus : us = []
    · subst hus
      have hprogram := (program_phrase (level_phrases (Nat.le_add_right n 2))).reads le_rfl
      obtain ⟨root, hroot, -⟩ := hprogram _ [] (hlexemes _) rfl
      rw [List.append_nil] at hroot
      exact ⟨_, root, hroot⟩
    · obtain ⟨ms, hms⟩ := hcomplete le_rfl hus
      obtain ⟨root, hroot⟩ := hms _ [] (hlexemes ms) rfl
      rw [List.append_nil] at hroot
      exact ⟨_, root, hroot⟩
  -- With few levels reading may stop for depth. But a program that is read stays
  -- one with more levels, and there the same token is in the way.
  · have hread := program_mono (Nat.le_add_right m n) hr
    rw [hagain hrest' (Nat.le_add_left n m)] at hread
    cases hread

end Parser

/-! ## Positions tell tokens apart -/

namespace Position

/-- **One place before another** in a text. -/
def Precedes (p q : Position) : Prop := p.line < q.line ∨ p.line = q.line ∧ p.column < q.column

instance : Std.Irrefl Precedes := ⟨fun _ h => h.elim (Int.lt_irrefl _) fun h => Int.lt_irrefl _ h.2⟩

theorem Precedes.trans {p q r : Position} (hpq : p.Precedes q) (hqr : q.Precedes r) :
    p.Precedes r := by
  unfold Precedes at *
  omega

theorem precedes_next (p : Position) (c : Char) : p.Precedes (p.next c) := by
  unfold next
  split
  · exact .inl (Int.lt_succ _)
  · exact .inr ⟨rfl, Int.lt_succ _⟩

theorem precedes_after (p : Position) {cs : List Char} (h : cs ≠ []) : p.Precedes (p.after cs) := by
  induction cs generalizing p with
  | nil => exact absurd rfl h
  | cons c cs ih =>
    rw [after_cons]
    by_cases hcs : cs = []
    · subst hcs
      exact p.precedes_next c
    · exact (p.precedes_next c).trans (ih (p.next c) hcs)

end Position

/-- **The tokens of a text and its end**, each with its position. The end has
no lexeme. -/
def Scanned.items (s : Scanned) : List (Option Lexeme × Position) :=
  s.tokens.map (fun t => (some t.lexeme, t.position)) ++ [(none, s.stop)]

namespace Scan

/-- Every token stands behind the tokens before it, and the end behind all of
them. -/
theorem loop_positions {done : List Token} {p : Position} {cs : List Char} {s : Scanned}
    (h : loop done p cs = .ok s) :
    ∃ ts, s.tokens = done.reverse ++ ts
      ∧ (ts.map Token.position ++ [s.stop]).Pairwise Position.Precedes
      ∧ ∀ q ∈ ts.map Token.position ++ [s.stop], p = q ∨ p.Precedes q := by
  fun_induction loop done p cs with
  | case1 done p =>
    obtain rfl := Except.ok.inj h
    exact ⟨[], (List.append_nil _).symm, List.pairwise_singleton _ _, by simp⟩
  | case2 done p c more g hg ih =>
    obtain ⟨ts, hts, hpairs, hafter⟩ := ih h
    have hgap := p.precedes_after (gap?_eq hg).2
    refine ⟨ts, hts, hpairs, fun q hq => .inr ?_⟩
    rcases hafter q hq with rfl | hq
    · exact hgap
    · exact hgap.trans hq
  | case3 done p c more hg l rest hl ih =>
    obtain ⟨ts, hts, hpairs, hafter⟩ := ih h
    have hlexeme := p.precedes_after (lexeme?_eq hl).2
    have hbefore : ∀ q ∈ ts.map Token.position ++ [s.stop], p.Precedes q := by
      intro q hq
      rcases hafter q hq with rfl | hq
      · exact hlexeme
      · exact hlexeme.trans hq
    refine ⟨⟨l, p⟩ :: ts, by rw [hts, List.reverse_cons, List.append_assoc]; rfl,
      List.pairwise_cons.2 ⟨hbefore, hpairs⟩, fun q hq => ?_⟩
    rcases List.mem_cons.1 hq with rfl | hq
    · exact .inl rfl
    · exact .inr (hbefore q hq)
  | case4 done p c more hg hl => cases h

end Scan

namespace Scanned

/-- **At each position there is one token**, or the end. -/
theorem items_index_unique {text : String} {s : Scanned} (h : scan text = .ok s) {i j : Nat}
    {l m : Option Lexeme} {p : Position} (hi : s.items[i]? = some (l, p))
    (hj : s.items[j]? = some (m, p)) : j = i := by
  obtain ⟨ts, hts, hpairs, -⟩ := Scan.loop_positions h
  have hpositions : s.items.map Prod.snd = ts.map Token.position ++ [s.stop] := by
    simp [items, hts]
  have hnodup : (s.items.map Prod.snd).Nodup := hpositions ▸ hpairs.nodup
  have hlt : j < (s.items.map Prod.snd).length := by
    rw [List.length_map]
    exact (List.getElem?_eq_some_iff.1 hj).1
  refine (List.getElem?_inj hlt hnodup).1 ?_
  rw [List.getElem?_map, List.getElem?_map, hi, hj]
  rfl

/-- Tokens that a list of items begins with are its first tokens. -/
theorem tokens_of_items {ts : List Token} {s : Scanned}
    (h : ts.map (fun t => (some t.lexeme, t.position)) <+: s.items) : ts <+: s.tokens := by
  obtain ⟨tokens, stop⟩ := s
  induction ts generalizing tokens with
  | nil => exact List.nil_prefix
  | cons t ts ih =>
    cases tokens with
    | nil => cases (List.cons_prefix_cons.1 h).1
    | cons u us =>
      obtain ⟨hhead, htail⟩ := List.cons_prefix_cons.1 h
      obtain ⟨hl, hp⟩ := Prod.mk.inj hhead
      have htu : t = u := by
        cases t
        cases u
        exact congrArg₂ Token.mk (Option.some.inj hl) hp
      exact List.cons_prefix_cons.2 ⟨htu, ih us htail⟩

/-- After the end nothing comes. -/
theorem eq_of_items {s s' : Scanned} (h : s.items <+: s'.items) : s' = s := by
  have htokens : s.tokens <+: s'.tokens :=
    tokens_of_items ((List.prefix_append _ _).trans h)
  obtain ⟨tokens, stop⟩ := s
  obtain ⟨tokens', stop'⟩ := s'
  obtain ⟨more, rfl⟩ := htokens
  have hend : [((none : Option Lexeme), stop)]
      <+: more.map (fun t => (some t.lexeme, t.position)) ++ [(none, stop')] := by
    have hitems := h
    simp only [items, List.map_append, List.append_assoc] at hitems
    exact (List.prefix_append_right_inj _).1 hitems
  cases more with
  | nil =>
    obtain rfl := (Prod.mk.inj (List.cons_prefix_cons.1 hend).1).2
    simp
  | cons t more => cases (List.cons_prefix_cons.1 hend).1

theorem items_of_tokens {s : Scanned} {us rest : List Token} (h : s.tokens = us ++ rest) :
    s.items = us.map (fun t => (some t.lexeme, t.position))
      ++ items ⟨rest, s.stop⟩ := by
  rw [items, items, h, List.map_append, List.append_assoc]

/-- **What it means that a text begins in the same way**, up to the token
after `us`: this token comes next again, or the text is the same. -/
theorem begins_of_take_items {s s' : Scanned} {us rest : List Token} (hs : s.tokens = us ++ rest)
    (h : s.items.take (us.length + 1) <+: s'.items) :
    ∃ rest', s'.tokens = us ++ rest' ∧ rest'.head? = rest.head?
      ∧ (rest = [] → s'.stop = s.stop) := by
  have hlength : (us.map fun t => (some t.lexeme, t.position)).length = us.length :=
    List.length_map _
  rw [items_of_tokens hs, ← hlength, List.take_length_add_append] at h
  cases rest with
  | nil =>
    have heq : s' = s := by
      refine eq_of_items ?_
      rw [items_of_tokens hs]
      exact h
    subst heq
    exact ⟨[], hs, rfl, fun _ => rfl⟩
  | cons t rest =>
    have htokens : us ++ [t] <+: s'.tokens := by
      refine tokens_of_items ?_
      rw [List.map_append]
      exact h
    obtain ⟨rest', hrest'⟩ := htokens
    refine ⟨t :: rest', ?_, rfl, fun hnil => by cases hnil⟩
    rw [← hrest', List.append_assoc]
    rfl

end Scanned

/-- How a message names what was found: a lexeme, or the end. -/
def foundText : Option Lexeme → String
  | some l => l.describe
  | none => "end of input"

theorem Stuck.failure_unexpected (stop : Position) (expected : List String) (rest : List Token) :
    (Stuck.unexpected expected rest).failure stop = .of
      (.unexpectedToken expected (foundText (rest.head?.map Token.lexeme)))
      (some ((rest.head?.map Token.position).getD stop)) := by
  cases rest <;> rfl

namespace Node

theorem ofTokens_of_ok {levels : Nat} {s : Scanned} {root : Node} {rest : List Token}
    (h : Parser.program (Parser.level levels) s.tokens = .ok (root, rest)) :
    ofTokens levels s = .ok root := by
  unfold ofTokens
  rw [show (Parser.program (Parser.level levels)).run s.tokens = .ok (root, rest) from h]

theorem ofTokens_of_error {levels : Nat} {s : Scanned} {stuck : Stuck}
    (h : Parser.program (Parser.level levels) s.tokens = .error stuck) :
    ofTokens levels s = .error (stuck.failure s.stop) := by
  unfold ofTokens
  rw [show (Parser.program (Parser.level levels)).run s.tokens = .error stuck from h]

/-- A parse error comes from where the reader stopped. -/
theorem program_of_ofTokens_unexpected {levels : Nat} {s : Scanned} {expected : List String}
    {found : String} {p : Position}
    (h : ofTokens levels s = .error (.of (.unexpectedToken expected found) (some p))) :
    ∃ rest, Parser.program (Parser.level levels) s.tokens = .error (.unexpected expected rest)
      ∧ found = foundText (rest.head?.map Token.lexeme)
      ∧ p = (rest.head?.map Token.position).getD s.stop := by
  cases hread : Parser.program (Parser.level levels) s.tokens with
  | ok r =>
    obtain ⟨root, rest⟩ := r
    rw [ofTokens_of_ok hread] at h
    cases h
  | error stuck =>
    rw [ofTokens_of_error hread] at h
    cases stuck with
    | unexpected expected' rest =>
      rw [Stuck.failure_unexpected] at h
      have herror := Failure.error.inj (Except.error.inj h)
      obtain ⟨hcause, hposition⟩ := Error.mk.inj herror
      obtain ⟨rfl, hfound⟩ := Cause.unexpectedToken.inj hcause
      exact ⟨rest, rfl, hfound.symm, (Option.some.inj hposition).symm⟩
    | tooDeep rest => cases h
    | numeralTooLong => cases h

/-- **A parse error is at the first token at fault.** For every list of
tokens that is scanned from a text: the error names the one token at its
position, the one with index `i` (or the end, which comes after all of
them). Some list of tokens that begins with the tokens before `i` is read as
a program. No list is that begins with the tokens up to and including `i`,
and every such list gives the same error, with the same things expected and
the same thing found.

The number of levels is a limit of the reader and no part of the grammar. So
the list that is read as a program may need two levels more, and the lists
that are not are not for any number of levels. -/
theorem ofTokens_unexpected {text : String} {s : Scanned} {levels : Nat} {expected : List String}
    {found : String} {p : Position} (hs : scan text = .ok s)
    (h : ofTokens levels s = .error (.of (.unexpectedToken expected found) (some p))) :
    ∃ i l, s.items[i]? = some (l, p) ∧ (∀ j m, s.items[j]? = some (m, p) → j = i)
      ∧ found = foundText l
      ∧ (∃ s' root, s.items.take i <+: s'.items
        ∧ ∀ m, levels + 2 ≤ m → ofTokens m s' = .ok root)
      ∧ ∀ s', s.items.take (i + 1) <+: s'.items →
        (∀ m root, ofTokens m s' ≠ .ok root)
          ∧ ∀ m, levels ≤ m →
            ofTokens m s' = .error (.of (.unexpectedToken expected found) (some p)) := by
  obtain ⟨rest, hread, rfl, rfl⟩ := program_of_ofTokens_unexpected h
  obtain ⟨us, hus, ⟨vs, root, hroot⟩, hagain⟩ := Parser.program_stops hread
  have hitem : s.items[us.length]? = some (rest.head?.map Token.lexeme,
      (rest.head?.map Token.position).getD s.stop) := by
    rw [Scanned.items_of_tokens hus, List.getElem?_append_right (by simp)]
    cases rest <;> simp [Scanned.items]
  refine ⟨us.length, _, hitem, fun j m hj => Scanned.items_index_unique hs hitem hj, rfl,
    ⟨⟨us ++ vs, .start⟩, root, ?_, fun m hm => ofTokens_of_ok (Parser.program_mono hm hroot)⟩,
    fun s' hs' => ?_⟩
  · rw [Scanned.items_of_tokens hus, Scanned.items_of_tokens (s := ⟨us ++ vs, .start⟩) rfl,
      List.take_left' (by simp)]
    exact List.prefix_append _ _
  · obtain ⟨rest', htokens, hhead, hstop⟩ := Scanned.begins_of_take_items hus hs'
    refine ⟨fun m root' hroot' => ?_, fun m hm => ?_⟩
    · cases hread' : Parser.program (Parser.level m) s'.tokens with
      | ok r =>
        rw [htokens] at hread'
        exact (hagain rest' hhead m).2 r hread'
      | error stuck =>
        rw [ofTokens_of_error hread'] at hroot'
        cases hroot'
    · have hread' := (hagain rest' hhead m).1 hm
      rw [← htokens] at hread'
      rw [ofTokens_of_error hread', Stuck.failure_unexpected, hhead]
      cases rest with
      | nil => rw [hstop rfl]
      | cons t rest => rfl

/-- A text that goes wrong after a parenthesis. -/
def faultyText : String := "begin fun f( = 1 in f end"

/-- The fifth token is at fault: the four before it begin a program, and with
it none begins. -/
theorem ofTokens_faultyText : ∃ s, scan faultyText = .ok s
    ∧ s.items[4]? = some (some (.mark .equal), ⟨1, 14⟩)
    ∧ ofTokens 4 s = .error (.of (.unexpectedToken ["IDENT"] "'='") (some ⟨1, 14⟩))
    ∧ (∃ s' root, s.items.take 4 <+: s'.items ∧ ofTokens 6 s' = .ok root)
    ∧ ∀ s', s.items.take 5 <+: s'.items → ∀ m root, ofTokens m s' ≠ .ok root := by
  obtain ⟨s, hs, hitem, hread⟩ : ∃ s, scan faultyText = .ok s
      ∧ s.items[4]? = some (some (Lexeme.mark .equal), ⟨1, 14⟩)
      ∧ ofTokens 4 s = .error (.of (.unexpectedToken ["IDENT"] "'='") (some ⟨1, 14⟩)) := by
    refine ⟨?tokens, ?scanned, ?item, ?read⟩
    case scanned =>
      cbv
      rfl
    case item => rfl
    case read => rfl
  obtain ⟨i, l, -, hunique, -, ⟨s', root, hs', hroot⟩, hnone⟩ := ofTokens_unexpected hs hread
  obtain rfl := hunique 4 _ hitem
  exact ⟨s, hs, hitem, hread, ⟨s', root, hs', hroot 6 le_rfl⟩,
    fun s'' hs'' => (hnone s'' hs'').1⟩

end Node

end EmberLang
