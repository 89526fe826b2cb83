import EmberLang.Proofs.Accepted
import EmberLang.Proofs.Agreement
import EmberLang.Proofs.AlikeLoading

/-!
# The lexemes decide

A reader takes tokens, and a token is a lexeme with its place. The places
end up in the tree and in the faults that are found, and nowhere else: no
reader looks at a place to decide how to go on. So tokens with the same
lexemes are read to trees that differ in positions only, or both readings
stop, at corresponding tokens and for want of the same things.

`Parser.Alongside` says this of two readers with results that correspond.
Its rules follow the way readers are built from others, and all readers of
the language are gone through once, with the levels inside them
(`Parser.program_alongside`).
-/

namespace EmberLang

/-- **Tokens with the same lexemes.** -/
def SameLexemes (ts ts' : List Token) : Prop := ts'.map Token.lexeme = ts.map Token.lexeme

namespace SameLexemes

theorem refl (ts : List Token) : SameLexemes ts ts := rfl

theorem head? {ts ts' : List Token} (h : SameLexemes ts ts') :
    ts'.head?.map Token.lexeme = ts.head?.map Token.lexeme := by
  rw [← List.head?_map, h, List.head?_map]

theorem drop {ts ts' : List Token} (h : SameLexemes ts ts') (n : Nat) :
    SameLexemes (ts.drop n) (ts'.drop n) := by
  unfold SameLexemes
  rw [List.map_drop, h, List.map_drop]

theorem cons_iff {t t' : Token} {ts ts' : List Token} :
    SameLexemes (t :: ts) (t' :: ts') ↔ t'.lexeme = t.lexeme ∧ SameLexemes ts ts' :=
  List.cons_eq_cons

theorem eq_nil {ts : List Token} (h : SameLexemes [] ts) : ts = [] := List.map_eq_nil_iff.1 h

theorem eq_cons {t : Token} {ts us : List Token} (h : SameLexemes (t :: ts) us) :
    ∃ t' ts', us = t' :: ts' ∧ t'.lexeme = t.lexeme ∧ SameLexemes ts ts' := by
  cases us with
  | nil => cases h
  | cons t' ts' => exact ⟨t', ts', rfl, cons_iff.1 h⟩

end SameLexemes

/-- **Two readers stop alike**: for want of the same things, at tokens with
the same lexemes. -/
inductive Stuck.Alike : Stuck → Stuck → Prop
  | unexpected {expected : List String} {rest rest' : List Token} (h : SameLexemes rest rest') :
      Alike (.unexpected expected rest) (.unexpected expected rest')
  | tooDeep {rest rest' : List Token} (h : SameLexemes rest rest') :
      Alike (.tooDeep rest) (.tooDeep rest')
  | numeralTooLong : Alike .numeralTooLong .numeralTooLong

theorem Stuck.Alike.refl : (e : Stuck) → e.Alike e
  | .unexpected _ rest => .unexpected (.refl rest)
  | .tooDeep rest => .tooDeep (.refl rest)
  | .numeralTooLong => .numeralTooLong

namespace Node

theorem eraseAll_eq_of_alike {ns ms : List Node} (h : List.Forall₂ Alike ns ms) :
    eraseAll ms = eraseAll ns := by
  rw [eraseAll_eq_map, eraseAll_eq_map]
  exact map_eq_iff_forall₂.2 h

theorem filterMap_name?_of_alike {ns ms : List Node} (h : List.Forall₂ Alike ns ms) :
    ms.filterMap name? = ns.filterMap name? := by
  induction h with
  | nil => rfl
  | @cons n m _ _ hn _ ih =>
    have hname : m.name? = n.name? := by rw [← m.name?_erase, hn, n.name?_erase]
    rw [List.filterMap_cons, List.filterMap_cons, hname, ih]

end Node

namespace Parser

variable {α β γ δ : Type}

/-- **Two readings end alike**: both give something, and what they give
corresponds, or both stop. -/
inductive EndAlike (Q : α → β → Prop) :
    Except Stuck (α × List Token) → Except Stuck (β × List Token) → Prop
  | gives {a : α} {b : β} {rest rest' : List Token} (h : Q a b) (hrest : SameLexemes rest rest') :
      EndAlike Q (.ok (a, rest)) (.ok (b, rest'))
  | stops {e e' : Stuck} (h : e.Alike e') : EndAlike Q (.error e) (.error e')

/-- **Two readers go alongside**: on tokens with the same lexemes they end
alike. -/
def Alongside (Q : α → β → Prop) (p : Parser α) (q : Parser β) : Prop :=
  ∀ ts ts', SameLexemes ts ts' → EndAlike Q (p ts) (q ts')

namespace Alongside

variable {p : Parser α} {q : Parser β} {f : α → Parser γ} {g : β → Parser δ}
variable {P : α → β → Prop} {Q : γ → δ → Prop}

theorem pure {a : α} {b : β} (h : P a b) : Alongside P (Pure.pure a) (Pure.pure b) :=
  fun _ _ hts => .gives h hts

/-- **One reader after the other.** -/
theorem bind (hp : Alongside P p q) (hf : ∀ a b, P a b → Alongside Q (f a) (g b)) :
    Alongside Q (p >>= f) (q >>= g) := by
  intro ts ts' hts
  show EndAlike Q (p ts >>= fun s => f s.1 s.2) (q ts' >>= fun s => g s.1 s.2)
  have h := hp ts ts' hts
  generalize p ts = r, q ts' = r' at h ⊢
  cases h with
  | gives hab hrest => exact hf _ _ hab _ _ hrest
  | stops he => exact .stops he

/-- A reader whose results are the same. -/
theorem same {p q : Parser α} {f : α → Parser γ} {g : α → Parser δ}
    (hp : Alongside (fun a b => b = a) p q) (hf : ∀ a, Alongside Q (f a) (g a)) :
    Alongside Q (p >>= f) (q >>= g) := by
  refine hp.bind ?_
  rintro _ b rfl
  exact hf b

/-- Readers from whose results others are made. -/
theorem map (hp : Alongside P p q) {f : α → γ} {g : β → δ} (h : ∀ a b, P a b → Q (f a) (g b)) :
    Alongside Q (p >>= fun a => Pure.pure (f a)) (q >>= fun b => Pure.pure (g b)) :=
  hp.bind fun a b hab => .pure (h a b hab)

theorem ite {c : Prop} [Decidable c] {p' : Parser α} {q' : Parser β} (h : c → Alongside P p q)
    (h' : ¬c → Alongside P p' q') : Alongside P (if c then p else p') (if c then q else q') := by
  split
  · next hc => exact h hc
  · next hc => exact h' hc

/-- A list of results that are the same. -/
theorem equal {p q : Parser (List α)} (h : Alongside (List.Forall₂ fun a b => b = a) p q) :
    Alongside (fun as bs => bs = as) p q := by
  intro ts ts' hts
  have h := h ts ts' hts
  generalize p ts = r, q ts' = r' at h ⊢
  cases h with
  | gives hab hrest => exact .gives (List.forall₂_eq_eq_eq ▸ hab.flip) hrest
  | stops he => exact .stops he

/-! ### Single tokens -/

theorem needed (expected : List String) :
    Alongside P (Parser.needed expected) (Parser.needed expected) :=
  fun _ _ hts => .stops (.unexpected hts)

/-- A reader that has stopped goes no further. -/
theorem needed_bind (expected : List String) :
    Alongside Q (Parser.needed expected >>= f) (Parser.needed expected >>= g) :=
  (needed (P := fun _ _ => False) expected).bind fun _ _ h => h.elim

theorem tooDeep : Alongside P Parser.tooDeep Parser.tooDeep :=
  fun _ _ hts => .stops (.tooDeep hts)

/-- A step that takes no tokens. -/
theorem lift (o : Except Stuck α) :
    Alongside (fun a b => b = a) (liftM o : Parser α) (liftM o) := by
  intro ts ts' hts
  cases o with
  | ok a => exact .gives rfl hts
  | error e => exact .stops (.refl e)

theorem peek : Alongside (fun a b => b = a) Parser.peek Parser.peek :=
  fun _ _ hts => .gives hts.head? hts

theorem peekSecond : Alongside (fun a b => b = a) Parser.peekSecond Parser.peekSecond :=
  fun _ _ hts => .gives (hts.drop 1).head? hts

theorem isNext (l : Lexeme) : Alongside (fun a b => b = a) (Parser.isNext l) (Parser.isNext l) :=
  fun _ _ hts => .gives (congrArg (· == some l) hts.head?) hts

theorem here : Alongside (fun _ _ => True) Parser.here Parser.here :=
  fun _ _ hts => .gives trivial hts

theorem skip : Alongside (fun _ _ => True) Parser.skip Parser.skip :=
  fun _ _ hts => .gives trivial (hts.drop 1)

theorem take (l : Lexeme) : Alongside (fun _ _ => True) (Parser.take l) (Parser.take l) := by
  intro ts ts' hts
  cases ts with
  | nil =>
    obtain rfl := hts.eq_nil
    exact .stops (.unexpected hts)
  | cons t ts =>
    obtain ⟨t', ts', rfl, hlexeme, hrest⟩ := hts.eq_cons
    unfold Parser.take
    dsimp only
    rw [hlexeme]
    split
    · exact .gives trivial hrest
    · exact .stops (.unexpected hts)

theorem mark (m : Mark) : Alongside (fun _ _ => True) (Parser.mark m) (Parser.mark m) := take _

theorem word (k : Keyword) : Alongside (fun _ _ => True) (Parser.word k) (Parser.word k) := take _

theorem name : Alongside (fun a b => b.1 = a.1) Parser.name Parser.name := by
  intro ts ts' hts
  cases ts with
  | nil =>
    obtain rfl := hts.eq_nil
    exact .stops (.unexpected hts)
  | cons t ts =>
    obtain ⟨⟨l', p'⟩, ts', rfl, hlexeme, hrest⟩ := hts.eq_cons
    obtain ⟨l, p⟩ := t
    obtain rfl : l' = l := hlexeme
    cases l' with
    | ident n => exact .gives rfl hrest
    | _ => exact .stops (.unexpected hts)

theorem optionalMark (m : Mark) :
    Alongside (fun _ _ => True) (Parser.optionalMark m) (Parser.optionalMark m) := by
  refine (isNext _).same fun b => ?_
  cases b with
  | true => exact (mark m).bind fun _ _ _ => .pure trivial
  | false => exact .pure trivial

/-! ### Lists -/

theorem manyLoop (start : Lexeme → Bool) (h : Alongside P p q) {bound bound' : List Token}
    (hbound : SameLexemes bound bound') :
    Alongside (List.Forall₂ P) (manyLoop start p bound) (manyLoop start q bound') := by
  induction bound generalizing bound' with
  | nil =>
    obtain rfl := hbound.eq_nil
    exact .pure .nil
  | cons t bound ih =>
    obtain ⟨t', bound', rfl, -, hrest⟩ := hbound.eq_cons
    refine peek.same fun o => ?_
    cases o with
    | none => exact .pure .nil
    | some l =>
      refine .ite (fun _ => ?_) fun _ => .pure .nil
      exact h.bind fun a b hab => (ih hrest).map fun as bs has => .cons hab has

theorem many (start : Lexeme → Bool) (h : Alongside P p q) :
    Alongside (List.Forall₂ P) (many start p) (many start q) :=
  fun _ _ hts => manyLoop start h hts _ _ hts

theorem commaList (h : Alongside P p q) :
    Alongside (List.Forall₂ P) (commaList p) (commaList q) :=
  h.bind fun _ _ hab => (many _ ((mark .comma).bind fun _ _ _ => h)).map fun _ _ has =>
    .cons hab has

theorem enclosed (left right : Mark) (h : Alongside P p q) :
    Alongside (List.Forall₂ P) (enclosed left right p) (enclosed left right q) :=
  (mark left).bind fun _ _ _ => h.commaList.bind fun _ _ has =>
    (mark right).bind fun _ _ _ => .pure has

theorem parenthesized (h : Alongside P p q) :
    Alongside (List.Forall₂ P) (parenthesized p) (parenthesized q) := by
  refine (mark .leftParen).bind fun _ _ _ => (isNext _).same fun b => ?_
  have hclose (as : List α) (bs : List β) (has : List.Forall₂ P as bs) :
      Alongside (List.Forall₂ P) (do let _ ← Parser.mark .rightParen; return as)
        (do let _ ← Parser.mark .rightParen; return bs) :=
    (mark .rightParen).bind fun _ _ _ => .pure has
  cases b with
  | true => exact hclose [] [] .nil
  | false => exact h.commaList.bind hclose

end Alongside

/-! ## Types and patterns -/

theorem typeSpecIn_alongside {inner : Parser TypeSpec}
    (h : Alongside (fun a b => b = a) inner inner) :
    Alongside (fun a b => b = a) (typeSpecIn inner) (typeSpecIn inner) := by
  refine Alongside.peek.same fun o => ?_
  split
  · refine Alongside.skip.bind fun _ _ _ => h.parenthesized.equal.same fun params => ?_
    exact (Alongside.mark .arrow).bind fun _ _ _ => h.same fun result => .pure rfl
  · exact Alongside.skip.bind fun _ _ _ => (Alongside.mark .rightParen).bind fun _ _ _ => .pure rfl
  · refine Alongside.name.bind fun n m hn => (Alongside.isNext _).same fun b => ?_
    cases b with
    | true =>
      refine (h.enclosed _ _).equal.map fun args args' hargs => ?_
      rw [hargs, hn]
    | false => exact .pure (by rw [hn])

theorem patternIn_alongside {inner : Parser Node} (h : Alongside Node.Alike inner inner) :
    Alongside Node.Alike (patternIn inner) (patternIn inner) := by
  refine Alongside.here.bind fun p q _ => Alongside.peek.same fun o => ?_
  split
  · next value _ =>
    exact Alongside.skip.bind fun _ _ _ => (Alongside.lift value).same fun v => .pure rfl
  · refine Alongside.name.bind fun n m hn => ?_
    dsimp only
    rw [hn]
    refine .ite (fun _ => .pure rfl) fun _ => (Alongside.isNext _).same fun b => ?_
    cases b with
    | true =>
      refine h.parenthesized.map fun args args' hargs => ?_
      rw [Node.Alike, Node.erase, Node.erase, Node.eraseAll_eq_of_alike hargs]
    | false => exact .pure rfl

/-! ## Levels -/

namespace Level

/-- **The readers of a level go alongside themselves.** -/
structure Follows (inner : Level) : Prop where
  /-- Types, which have no positions. -/
  typeSpec : Alongside (fun a b => b = a) inner.typeSpec inner.typeSpec
  /-- Patterns. -/
  pattern : Alongside Node.Alike inner.pattern inner.pattern
  /-- Expressions. -/
  expression : Alongside Node.Alike inner.expression inner.expression
  /-- Sequences. -/
  sequence : Alongside Node.Alike inner.sequence inner.sequence

namespace Follows

variable {inner : Level} (h : inner.Follows)

include h

theorem typeNode : Alongside Node.Alike inner.typeNode inner.typeNode :=
  h.typeSpec.map fun _ _ ht => congrArg Node.typeSpec ht

theorem typeAfterColon : Alongside Node.Alike inner.typeAfterColon inner.typeAfterColon := by
  refine (Alongside.isNext _).same fun b => ?_
  cases b with
  | true => exact (Alongside.mark .colon).bind fun _ _ _ => h.typeNode
  | false => exact .pure rfl

theorem braced : Alongside Node.Alike inner.braced inner.braced := by
  refine (Alongside.mark .leftBrace).bind fun _ _ _ => h.sequence.bind fun body body' hbody => ?_
  exact (Alongside.mark .rightBrace).bind fun _ _ _ => .pure hbody

theorem body : Alongside Node.Alike inner.body inner.body := by
  refine (Alongside.isNext _).same fun b => ?_
  cases b with
  | true => exact h.braced
  | false => exact h.expression

theorem param : Alongside Node.Alike inner.param inner.param := by
  refine Alongside.name.bind fun n m hn => h.typeAfterColon.map fun t t' ht => ?_
  rw [Node.Alike, Node.erase, Node.erase, hn, ht]

omit h in
theorem typeParams : Alongside (fun a b => b = a) typeParams typeParams := by
  have hname : Alongside (fun a b => b = a) (do return Name.word (← name).1)
      (do return Name.word (← name).1) :=
    Alongside.name.map fun _ _ hn => congrArg Name.word hn
  refine (Alongside.isNext _).same fun b => ?_
  cases b with
  | true => exact (hname.enclosed _ _).equal
  | false => exact .pure rfl

/-! ### Declarations -/

theorem externDecl : Alongside Node.Alike inner.externDecl inner.externDecl := by
  refine (Alongside.word .kwExtern).bind fun p q _ => Alongside.name.bind fun n m hn => ?_
  refine typeParams.same fun tps => (Alongside.mark .colon).bind fun _ _ _ => ?_
  refine (Alongside.isNext _).same fun b => ?_
  cases b with
  | true =>
    refine h.typeSpec.same fun t => (Alongside.mark .semicolon).bind fun _ _ _ => .pure ?_
    simp only [Node.Alike, Node.erase, hn]
  | false => exact .needed_bind _

theorem constructorDecl : Alongside Node.Alike inner.constructorDecl inner.constructorDecl := by
  refine Alongside.name.bind fun n m hn => ?_
  have hfields (left right : Mark) : Alongside Node.Alike
      (do return .constructorDecl n.2 n.1 (← enclosed left right inner.typeNode))
      (do return .constructorDecl m.2 m.1 (← enclosed left right inner.typeNode)) := by
    refine (h.typeNode.enclosed left right).map fun ts ts' hts => ?_
    rw [Node.Alike, Node.erase, Node.erase, hn, Node.eraseAll_eq_of_alike hts]
  refine (Alongside.isNext _).same fun b => ?_
  cases b with
  | true => exact hfields _ _
  | false =>
    refine (Alongside.isNext _).same fun b => ?_
    cases b with
    | true => exact hfields _ _
    | false => exact .pure (by rw [Node.Alike, Node.erase, Node.erase, hn])

theorem dataDecl : Alongside Node.Alike inner.dataDecl inner.dataDecl := by
  refine (Alongside.word .kwData).bind fun p q _ => Alongside.name.bind fun n m hn => ?_
  refine typeParams.same fun tps => (Alongside.mark .equal).bind fun _ _ _ => ?_
  refine (Alongside.optionalMark .bar).bind fun _ _ _ => ?_
  refine h.constructorDecl.bind fun first first' hfirst => ?_
  have hrest := Alongside.many (· == .mark .bar)
    ((Alongside.mark .bar).bind fun _ _ _ => h.constructorDecl)
  refine hrest.bind fun rest rest' hrest => (Alongside.word .kwEnd).bind fun _ _ _ => ?_
  refine (Alongside.optionalMark .semicolon).bind fun _ _ _ => .pure ?_
  rw [Node.Alike, Node.erase, Node.erase, hn, Node.eraseAll_eq_of_alike (.cons hfirst hrest)]

theorem typeDecl : Alongside Node.Alike inner.typeDecl inner.typeDecl := by
  refine (Alongside.word .kwType).bind fun p q _ => Alongside.name.bind fun n m hn => ?_
  refine typeParams.same fun tps => (Alongside.mark .equal).bind fun _ _ _ => ?_
  refine h.typeNode.bind fun t t' ht => (Alongside.mark .semicolon).bind fun _ _ _ => .pure ?_
  rw [Node.Alike, Node.erase, Node.erase, hn, ht]

theorem resultType : Alongside Node.Alike inner.resultType inner.resultType := by
  refine (Alongside.isNext _).same fun b => (Alongside.isNext _).same fun c => ?_
  exact .ite (fun _ => Alongside.skip.bind fun _ _ _ => h.typeNode) fun _ => .pure rfl

theorem funBody : Alongside Node.Alike inner.funBody inner.funBody := by
  refine (Alongside.isNext _).same fun b => ?_
  cases b with
  | true => exact (Alongside.mark .fatArrow).bind fun _ _ _ => h.braced
  | false =>
    refine (Alongside.isNext _).same fun b => ?_
    cases b with
    | true => exact (Alongside.mark .equal).bind fun _ _ _ => h.expression
    | false => exact .needed _

theorem funDecl : Alongside Node.Alike inner.funDecl inner.funDecl := by
  refine (Alongside.word .kwFun).bind fun p q _ => Alongside.name.bind fun n m hn => ?_
  refine typeParams.same fun tps => h.param.parenthesized.bind fun params params' hparams => ?_
  refine h.resultType.bind fun t t' ht => h.funBody.bind fun body body' hbody => ?_
  refine (Alongside.optionalMark .semicolon).bind fun _ _ _ => .pure ?_
  rw [Node.Alike, Node.erase, Node.erase, hn, Node.eraseAll_eq_of_alike hparams, hbody, ht]

theorem declaration : Alongside Node.Alike inner.declaration inner.declaration := by
  refine Alongside.peek.same fun o => ?_
  split
  · exact h.externDecl
  · exact h.dataDecl
  · exact h.typeDecl
  · exact h.funDecl
  · exact .needed _

theorem declarations (words : List Keyword) :
    Alongside (List.Forall₂ Node.Alike) (inner.declarations words) (inner.declarations words) := by
  refine (h.declaration.many _).bind fun ds ds' hds => (Alongside.isNext _).same fun b => ?_
  cases b with
  | true => exact (Alongside.word .kwIn).bind fun _ _ _ => .pure hds
  | false => exact .needed_bind _

/-! ### Expressions -/

theorem arguments : Alongside (List.Forall₂ Node.Alike) inner.arguments inner.arguments :=
  h.expression.parenthesized

theorem letIn : Alongside Node.Alike inner.letIn inner.letIn := by
  refine (Alongside.word .kwLet).bind fun p q _ => Alongside.name.bind fun n m hn => ?_
  refine h.typeAfterColon.bind fun t t' ht => (Alongside.mark .equal).bind fun _ _ _ => ?_
  refine h.expression.bind fun value value' hvalue => ?_
  refine (Alongside.mark .semicolon).bind fun _ _ _ => h.sequence.map fun body body' hbody => ?_
  rw [Node.Alike, Node.erase, Node.erase, hn, hvalue, hbody, ht]

theorem lambda : Alongside Node.Alike inner.lambda inner.lambda := by
  refine (Alongside.word .kwFn).bind fun p q _ => ?_
  refine h.param.parenthesized.bind fun params params' hparams => ?_
  refine (Alongside.mark .fatArrow).bind fun _ _ _ => h.body.map fun body body' hbody => ?_
  rw [Node.Alike, Node.erase, Node.erase, Node.filterMap_name?_of_alike hparams, hbody]

theorem arm : Alongside Node.Alike inner.arm inner.arm := by
  refine (Alongside.mark .bar).bind fun p q _ => h.pattern.bind fun pattern pattern' hpattern => ?_
  refine (Alongside.mark .fatArrow).bind fun _ _ _ => h.body.map fun body body' hbody => ?_
  rw [Node.Alike, Node.erase, Node.erase, hpattern, hbody]

theorem caseOf : Alongside Node.Alike inner.caseOf inner.caseOf := by
  refine (Alongside.word .kwCase).bind fun p q _ => h.expression.bind fun s s' hs => ?_
  refine (Alongside.word .kwOf).bind fun _ _ _ => (Alongside.isNext _).same fun b => ?_
  cases b with
  | true =>
    refine (h.arm.many _).bind fun arms arms' harms => (Alongside.word .kwEnd).bind fun _ _ _ => ?_
    refine .pure ?_
    rw [Node.Alike, Node.erase, Node.erase, hs, Node.eraseAll_eq_of_alike harms]
  | false => exact .needed_bind _

theorem block : Alongside Node.Alike inner.block inner.block := by
  refine (Alongside.word .kwBegin).bind fun p q _ => (h.declarations _).bind fun ds ds' hds => ?_
  refine h.sequence.bind fun body body' hbody => (Alongside.word .kwEnd).bind fun _ _ _ => .pure ?_
  rw [Node.Alike, Node.erase, Node.erase, Node.eraseAll_eq_of_alike hds, hbody]

theorem primary : Alongside Node.Alike inner.primary inner.primary := by
  refine Alongside.here.bind fun p q _ => Alongside.peek.same fun o => ?_
  split
  · next value _ =>
    exact Alongside.skip.bind fun _ _ _ => (Alongside.lift value).same fun v => .pure rfl
  split
  · exact Alongside.skip.bind fun _ _ _ => .pure rfl
  · refine Alongside.skip.bind fun _ _ _ => h.arguments.map fun args args' hargs => ?_
    rw [Node.Alike, Node.erase, Node.erase, Node.eraseAll_eq_of_alike hargs]
  · refine Alongside.skip.bind fun _ _ _ => h.arguments.map fun args args' hargs => ?_
    rw [Node.Alike, Node.erase, Node.erase, Node.eraseAll_eq_of_alike hargs]
  · refine Alongside.skip.bind fun _ _ _ => (Alongside.isNext _).same fun b => ?_
    cases b with
    | true => exact (Alongside.mark .rightParen).bind fun _ _ _ => .pure rfl
    | false =>
      exact h.expression.bind fun e e' he => (Alongside.mark .rightParen).bind fun _ _ _ => .pure he
  · exact h.caseOf
  · exact h.letIn
  · exact h.lambda
  · refine Alongside.peekSecond.same fun second => .ite (fun _ => h.block) fun _ => ?_
    refine Alongside.skip.bind fun _ _ _ => h.sequence.bind fun body body' hbody => ?_
    exact (Alongside.word .kwEnd).bind fun _ _ _ => .pure hbody
  · exact .needed _

/-- Argument lists, by induction on the levels left for them. -/
theorem applications {callee callee' : Node} (hcallee : callee.Alike callee') (room : Nat) :
    Alongside Node.Alike (inner.applications room callee) (inner.applications room callee') := by
  induction room generalizing callee callee' with
  | zero =>
    refine (Alongside.isNext _).same fun b => ?_
    cases b with
    | true => exact .tooDeep
    | false => exact .pure hcallee
  | succ room ih =>
    refine (Alongside.isNext _).same fun b => ?_
    cases b with
    | true =>
      refine Alongside.here.bind fun p q _ => h.arguments.bind fun args args' hargs => ih ?_
      rw [Node.Alike, Node.erase, Node.erase, hcallee, Node.eraseAll_eq_of_alike hargs]
    | false => exact .pure hcallee

theorem expressionIn : Alongside Node.Alike inner.expressionIn inner.expressionIn :=
  h.primary.bind fun _ _ he => h.applications he _

theorem sequenceIn : Alongside Node.Alike inner.sequenceIn inner.sequenceIn := by
  refine (Alongside.isNext _).same fun b => ?_
  cases b with
  | true => exact h.letIn
  | false =>
    refine h.expressionIn.bind fun first first' hfirst => (Alongside.isNext _).same fun b => ?_
    cases b with
    | true =>
      refine (Alongside.mark .semicolon).bind fun p q _ => Alongside.peek.same fun o => ?_
      refine .ite (fun _ => h.sequence.map fun rest rest' hrest => ?_) fun _ => .pure hfirst
      rw [Node.Alike, Node.erase, Node.erase, hfirst, hrest]
    | false => exact .pure hfirst

end Follows

end Level

/-- **The readers of every level go alongside themselves**, by induction
on the levels inside. -/
theorem level_follows (n : Nat) : (level n).Follows := by
  induction n with
  | zero => exact ⟨.tooDeep, .tooDeep, .tooDeep, .tooDeep⟩
  | succ n ih =>
    exact ⟨typeSpecIn_alongside ih.typeSpec, patternIn_alongside ih.pattern, ih.expressionIn,
      ih.sequenceIn⟩

/-- **So does the reader of programs.** -/
theorem program_alongside (n : Nat) :
    Alongside Node.Alike (program (level n)) (program (level n)) := by
  have h := level_follows n
  refine (Alongside.word .kwBegin).bind fun p q _ => (h.declarations _).bind fun ds ds' hds => ?_
  refine h.sequence.bind fun body body' hbody => (Alongside.word .kwEnd).bind fun _ _ _ => ?_
  refine Alongside.peek.same fun o => .ite (fun _ => ?_) fun _ => .pure ?_
  · exact .needed_bind _
  · rw [Node.Alike, Node.erase, Node.erase, Node.eraseAll_eq_of_alike hds, hbody]

end Parser

/-! ## Whole texts -/

/-- Readers that stop alike report failures that differ in position at
most. -/
theorem Stuck.Alike.failure_erase {e e' : Stuck} (h : e.Alike e') (stop stop' : Position) :
    (e'.failure stop').erase = (e.failure stop).erase := by
  cases h with
  | @unexpected expected rest rest' hrest =>
    cases rest with
    | nil =>
      obtain rfl := hrest.eq_nil
      rfl
    | cons t rest =>
      obtain ⟨t', rest', rfl, hlexeme, -⟩ := hrest.eq_cons
      unfold failure
      dsimp only
      rw [hlexeme]
      rfl
  | tooDeep _ => rfl
  | numeralTooLong => rfl

namespace Node

/-- **Tokens with the same lexemes are read alike.** -/
theorem agree_ofTokens {s s' : Scanned} (h : SameLexemes s.tokens s'.tokens) (levels : Nat) :
    Agree Alike (ofTokens levels s) (ofTokens levels s') := by
  have hread := Parser.program_alongside levels s.tokens s'.tokens h
  unfold ofTokens
  generalize hr : (Parser.program (Parser.level levels)).run s.tokens = r
  generalize hr' : (Parser.program (Parser.level levels)).run s'.tokens = r'
  change Parser.program (Parser.level levels) s.tokens = r at hr
  change Parser.program (Parser.level levels) s'.tokens = r' at hr'
  rw [hr, hr'] at hread
  cases hread with
  | gives hroot _ => exact hroot
  | stops he => exact he.failure_erase s.stop s'.stop

/-- Trees of a source that are alike are resolved alike. -/
theorem Alike.agree_resolveProgram {q q' : Node} {V : Vocabulary} (h : q.Alike q')
    (hq : q.isProgram V = true) (hq' : q'.isProgram V = true) :
    Agree Alike q.resolveProgram q'.resolveProgram := by
  have hcheck : Agree (fun t t' => t' = t) q.checkDeclarations q'.checkDeclarations := by
    refine .of_eraseOutcome (g := id) ?_
    rw [← checkDeclarations_erase, ← checkDeclarations_erase, h]
  -- The table has no positions, so both trees are resolved against the same one.
  rcases hcheck.fails_or_gives with ⟨f, f', hf, hf', herase⟩ | ⟨_, t, ht, ht', rfl⟩
  · unfold resolveProgram
    rw [hf, hf']
    exact herase
  · rw [resolveProgram_eq hq ht, resolveProgram_eq hq' ht']
    show (q'.resolvedProgram t).erase = (q.resolvedProgram t).erase
    rw [← resolvedProgram_erase, ← resolvedProgram_erase, h]

/-- **Texts with the same lexemes are the same program**, up to positions,
or fail for the same cause. -/
theorem agree_ofSource {text text' : String} {s s' : Scanned} (hs : scan text = .ok s)
    (hs' : scan text' = .ok s') (h : SameLexemes s.tokens s'.tokens) (frames : Int) :
    Agree Alike (ofSource text frames) (ofSource text' frames) := by
  unfold ofSource
  rw [hs, hs']
  show Agree Alike (ofTokens (levelsOf frames) s >>= resolveProgram)
    (ofTokens (levelsOf frames) s' >>= resolveProgram)
  rcases (agree_ofTokens h (levelsOf frames)).fails_or_gives with
    ⟨f, f', hf, hf', herase⟩ | ⟨q, q', hq, hq', hqq'⟩
  · rw [hf, hf']
    exact herase
  · rw [hq, hq']
    exact hqq'.agree_resolveProgram (isProgram_of_ofTokens (proper_of_scan hs) hq)
      (isProgram_of_ofTokens (proper_of_scan hs') hq')

end Node

end EmberLang
