import EmberLang.Proofs.WellFormed
import EmberLang.Tree.Parser

/-!
# How a reader comes to an end

What a reader gives is put together from the tokens it takes, and from
nothing else. So whatever is promised of tokens, and is kept by the ways in
which readers put trees together, is true of every tree that is read. A
`Parser.Shape` says what is promised, of lexemes and positions on one side
and of types, patterns, expressions and declarations on the other;
`Shape.Closed` asks for one fact about each way to build a tree.

A reader that gives nothing has stopped for one of three reasons. Another
token was needed; or the numeral that comes next has too many digits; or
there were no levels left (`Parser.Stops`). Each level costs at least one
token, so the last can only happen if there are as many tokens as levels.

`Parser.Gives` says both of a reader, and its rules follow the way readers
are built from others. All readers of the language are gone through once
(`Parser.program_gives`), for every shape.
-/

namespace EmberLang

namespace Parser

/-! ## Ways to stop -/

/-- **How a reader may stop** on some tokens: for want of levels only if
there are as many tokens as levels, and for the length of a numeral only if
it is among the tokens. -/
def Stops (room : Nat) (ts : List Token) : Stuck → Prop
  | .unexpected .. => True
  | .tooDeep _ => room ≤ ts.length
  | .numeralTooLong => ∃ t ∈ ts, literal? t.lexeme = some (.error .numeralTooLong)

namespace Stops

variable {room : Nat} {ts rest : List Token} {e : Stuck}

theorem of_suffix (h : Stops room rest e) (hrest : rest <:+ ts) : Stops room ts e := by
  cases e with
  | unexpected => trivial
  | tooDeep => exact Nat.le_trans h hrest.length_le
  | numeralTooLong =>
    obtain ⟨t, ht, hlong⟩ := h
    exact ⟨t, hrest.subset ht, hlong⟩

/-- A token that was taken pays for a level. -/
theorem after (h : Stops room rest e) (hrest : rest <:+ ts) (hshort : rest.length < ts.length) :
    Stops (room + 1) ts e := by
  cases e with
  | tooDeep => exact Nat.lt_of_le_of_lt h hshort
  | _ => exact of_suffix (show Stops room rest _ from h) hrest

theorem mono {room' : Nat} (h : Stops room ts e) (hroom : room' ≤ room) : Stops room' ts e := by
  cases e with
  | tooDeep => exact Nat.le_trans hroom h
  | _ => exact h

end Stops

/-! ## Shapes -/

/-- **What is promised of the parts of a tree.** -/
structure Shape where
  /-- Of the lexemes that are read. -/
  lexeme : Lexeme → Prop
  /-- Of their positions. -/
  position : Position → Prop
  /-- Of names. -/
  name : Name → Prop
  /-- Of types. -/
  type : TypeSpec → Prop
  /-- Of patterns. -/
  pattern : Node → Prop
  /-- Of expressions. -/
  expression : Node → Prop
  /-- Of the arms of a case. -/
  arm : Node → Prop
  /-- Of parameters. -/
  param : Node → Prop
  /-- Of the constructors of a data type. -/
  constructorDecl : Node → Prop
  /-- Of declarations. -/
  declaration : Node → Prop

namespace Shape

variable (S : Shape)

/-- Tokens as promised. -/
def Fit (ts : List Token) : Prop := ∀ t ∈ ts, S.lexeme t.lexeme ∧ S.position t.position

/-- A place as promised, if it is known. -/
def Place (p : Option Position) : Prop := ∀ q, p = some q → S.position q

/-- A type as a part of a tree. -/
def TypeNode (n : Node) : Prop := ∃ t, n = .typeSpec t ∧ S.type t

/-- A type that may be left out. -/
def OptionalType (n : Node) : Prop := n = .absent ∨ S.TypeNode n

/-- A program. -/
def Program (n : Node) : Prop :=
  ∃ p ds body, n = .program p ds body ∧ S.Place p ∧ (∀ d ∈ ds, S.declaration d) ∧ S.expression body

/-- **A shape that is kept by all ways to build a tree.** -/
structure Closed : Prop where
  ident : ∀ {s}, S.lexeme (.ident s) → S.name s
  functionType : ∀ {params result}, (∀ t ∈ params, S.type t) → S.type result →
    S.type (.function params result)
  unitType : S.type .unit
  namedType : ∀ {n args}, S.name n → (∀ t ∈ args, S.type t) → S.type (.mk n args)
  patternLit : ∀ {p l v}, S.Place p → S.lexeme l → literal? l = some (.ok v) →
    S.pattern (.patternLit p v)
  patternWild : ∀ {p}, S.Place p → S.pattern (.patternWild p)
  patternVar : ∀ {p} {n : String}, S.Place p → S.name n → n ≠ "_" → S.pattern (.patternVar p n)
  patternCtor : ∀ {p} {n : String} {args}, S.Place p → S.name n → n ≠ "_" →
    (∀ a ∈ args, S.pattern a) → S.pattern (.patternCtor p n args)
  paramOf : ∀ {p n t}, S.Place p → S.name n → S.OptionalType t → S.param (.param p n t)
  constructor : ∀ {p n ts}, S.Place p → S.name n → (∀ t ∈ ts, S.TypeNode t) →
    S.constructorDecl (.constructorDecl p n ts)
  externDecl : ∀ {p n tps t}, S.Place p → S.name n → (∀ x ∈ tps, S.name x) → S.type t →
    S.declaration (.externDecl p n tps (t.params.map .typeSpec) (.typeSpec (t.result?.getD t)))
  dataDecl : ∀ {p n tps c cs}, S.Place p → S.name n → (∀ x ∈ tps, S.name x) →
    S.constructorDecl c → (∀ c ∈ cs, S.constructorDecl c) →
    S.declaration (.dataDecl p n tps (c :: cs))
  typeDecl : ∀ {p n tps t}, S.Place p → S.name n → (∀ x ∈ tps, S.name x) → S.TypeNode t →
    S.declaration (.typeDecl p n tps t)
  funDecl : ∀ {p n tps params body t}, S.Place p → S.name n → (∀ x ∈ tps, S.name x) →
    (∀ a ∈ params, S.param a) → S.expression body → S.OptionalType t →
    S.declaration (.funDecl p n tps params body t)
  literal : ∀ {p l v}, S.Place p → S.lexeme l → literal? l = some (.ok v) →
    S.expression (.literal p v)
  unit : ∀ {p}, S.Place p → S.expression (.unit p)
  var : ∀ {p s}, S.Place p → S.lexeme (.ident s) → S.expression (.var p (.word s))
  intrinsicCall : ∀ {p s args}, S.Place p → S.lexeme (.intrinsic s) →
    (∀ a ∈ args, S.expression a) → S.expression (.intrinsicCall p (.word s) args)
  directiveCall : ∀ {p s args}, S.Place p → S.lexeme (.directive s) →
    (∀ a ∈ args, S.expression a) → S.expression (.directiveCall p (.word s) args)
  call : ∀ {p callee args}, S.Place p → S.expression callee → (∀ a ∈ args, S.expression a) →
    S.expression (.call (callee.position?.or p) callee args)
  armOf : ∀ {p pattern body}, S.Place p → S.pattern pattern → S.expression body →
    S.arm (.arm p pattern body)
  caseOf : ∀ {p scrutinee arms}, S.Place p → S.expression scrutinee → arms ≠ [] →
    (∀ a ∈ arms, S.arm a) → S.expression (.caseOf p scrutinee arms)
  letIn : ∀ {p n value body t}, S.Place p → S.name n → S.expression value → S.expression body →
    S.OptionalType t → S.expression (.letIn p n value body t)
  seq : ∀ {p first rest}, S.Place p → S.expression first → S.expression rest →
    S.expression (.seq p first rest)
  lambda : ∀ {p} {params : List Node} {body}, S.Place p → (∀ a ∈ params, S.param a) →
    S.expression body →
    S.expression (.lambda p (params.filterMap Node.name?) body)
  block : ∀ {p ds body}, S.Place p → (∀ d ∈ ds, S.declaration d ∧ d.isLocal = true) →
    S.expression body → S.expression (.block p ds body)

end Shape

/-! ## Readers -/

variable {α β : Type} {S : Shape} {room : Nat}

/-- **What a reader does on some tokens**: it gives something and leaves the
last of them, or stops. -/
def Runs (E : Stuck → Prop) (p : Parser α) (Q : α → List Token → Prop) (ts : List Token) : Prop :=
  (∀ a rest, p ts = .ok (a, rest) → Q a rest ∧ rest <:+ ts) ∧ ∀ e, p ts = .error e → E e

namespace Runs

variable {E E' : Stuck → Prop} {p : Parser α} {f : α → Parser β}
variable {P Q : α → List Token → Prop} {R : β → List Token → Prop} {ts : List Token}

theorem mono (h : Runs E p P ts) (hPQ : ∀ a rest, P a rest → Q a rest) (hE : ∀ e, E e → E' e) :
    Runs E' p Q ts :=
  ⟨fun a rest hread => ⟨hPQ a rest (h.1 a rest hread).1, (h.1 a rest hread).2⟩,
    fun e hread => hE e (h.2 e hread)⟩

/-- **One reader after another**: the second goes on with what the first has
left. -/
theorem bind (hp : Runs E p P ts)
    (hf : ∀ a rest, P a rest → rest <:+ ts → Runs E (f a) R rest) : Runs E (p >>= f) R ts := by
  have hread : (p >>= f) ts = p ts >>= fun r => f r.1 r.2 := rfl
  unfold Runs
  rw [hread]
  cases ha : p ts with
  | error e =>
    refine ⟨?_, ?_⟩
    · rintro b rest ⟨⟩
    · rintro _ ⟨⟩
      exact hp.2 e ha
  | ok r =>
    obtain ⟨hPa, hmid⟩ := hp.1 r.1 r.2 ha
    obtain ⟨hok, hstop⟩ := hf r.1 r.2 hPa hmid
    exact ⟨fun b rest h => ⟨(hok b rest h).1, (hok b rest h).2.trans hmid⟩, hstop⟩

theorem ok {a : α} {rest : List Token} (h : p ts = .ok (a, rest)) (hQ : Q a rest)
    (hrest : rest <:+ ts) : Runs E p Q ts := by
  refine ⟨fun b rest' h' => ?_, fun e h' => ?_⟩
  · obtain ⟨rfl, rfl⟩ := Prod.mk.inj (Except.ok.inj (h.symm.trans h'))
    exact ⟨hQ, hrest⟩
  · cases h.symm.trans h'

/-- A reader that only looks. -/
theorem stays {a : α} (h : p ts = .ok (a, ts)) (hQ : Q a ts) : Runs E p Q ts :=
  ok h hQ (List.suffix_refl ts)

theorem error {e : Stuck} (h : p ts = .error e) (he : E e) : Runs E p Q ts := by
  refine ⟨fun b rest h' => ?_, fun e' h' => ?_⟩
  · cases h.symm.trans h'
  · obtain rfl := Except.error.inj (h.symm.trans h')
    exact he

end Runs

/-- **What a reader gives** from tokens as promised, and how it stops. -/
def Gives (S : Shape) (room : Nat) (p : Parser α) (Q : α → Prop) : Prop :=
  ∀ ts, S.Fit ts → Runs (Stops room ts) p (fun a _ => Q a) ts

/-- What a reader gives that takes one token at least. -/
def Consumes (S : Shape) (room : Nat) (p : Parser α) (Q : α → Prop) : Prop :=
  ∀ ts, S.Fit ts → Runs (Stops room ts) p (fun a rest => Q a ∧ rest.length < ts.length) ts

/-- What a reader gives where the next lexeme is the given one. -/
def GivesAt (S : Shape) (room : Nat) (o : Option Lexeme) (p : Parser α) (Q : α → Prop) : Prop :=
  ∀ ts, S.Fit ts → ts.head?.map Token.lexeme = o → Runs (Stops room ts) p (fun a _ => Q a) ts

theorem Shape.Fit.of_suffix {ts rest : List Token} (h : S.Fit ts) (hrest : rest <:+ ts) :
    S.Fit rest :=
  fun t ht => h t (hrest.subset ht)

namespace Gives

variable {p : Parser α} {f : α → Parser β} {P Q : α → Prop} {R : β → Prop}

theorem mono (h : Gives S room p P) (hPQ : ∀ a, P a → Q a) : Gives S room p Q :=
  fun ts hts => (h ts hts).mono (fun a _ ha => hPQ a ha) fun _ he => he

theorem weaken {room' : Nat} (h : Gives S room p P) (hroom : room' ≤ room) : Gives S room' p P :=
  fun ts hts => (h ts hts).mono (fun _ _ ha => ha) fun _ he => he.mono hroom

theorem pure {a : α} (h : P a) : Gives S room (Pure.pure a) P :=
  fun _ _ => .stays rfl h

/-- **One reader after another.** -/
theorem bind (hp : Gives S room p P) (hf : ∀ a, P a → Gives S room (f a) R) :
    Gives S room (p >>= f) R := fun ts hts =>
  (hp ts hts).bind fun a rest ha hrest =>
    (hf a ha rest (hts.of_suffix hrest)).mono (fun _ _ h => h) fun _ he => he.of_suffix hrest

theorem map {g : α → β} (hp : Gives S room p P) (hg : ∀ a, P a → R (g a)) :
    Gives S room (do return g (← p)) R :=
  hp.bind fun a ha => pure (hg a ha)

theorem needed (expected : List String) : Gives S room (Parser.needed expected) P :=
  fun _ _ => .error rfl trivial

theorem tooDeep : Gives S 0 Parser.tooDeep P :=
  fun _ _ => .error rfl (Nat.zero_le _)

theorem ite {c : Prop} [Decidable c] {q : Parser α} (hp : c → Gives S room p P)
    (hq : ¬c → Gives S room q P) : Gives S room (if c then p else q) P := by
  split
  · next hc => exact hp hc
  · next hc => exact hq hc

/-! ### Looking ahead -/

theorem peek : Gives S room Parser.peek fun _ => True :=
  fun _ _ => .stays rfl trivial

theorem isNext (l : Lexeme) : Gives S room (Parser.isNext l) fun _ => True :=
  fun _ _ => .stays rfl trivial

theorem here : Gives S room Parser.here S.Place := by
  intro ts hts
  refine .stays rfl ?_
  intro q hq
  obtain ⟨t, ht, rfl⟩ := Option.map_eq_some_iff.1 hq
  exact (hts t (List.mem_of_head? ht)).2

theorem skip : Gives S room Parser.skip fun _ => True := by
  intro ts _
  have hskip : Parser.skip ts = .ok ((), ts.drop 1) := rfl
  exact .ok hskip trivial (List.drop_suffix 1 ts)

theorem of_at (h : ∀ o, (∀ l, o = some l → S.lexeme l) → GivesAt S room o p P) :
    Gives S room p P := by
  intro ts hts
  refine h _ (fun l hl => ?_) ts hts rfl
  obtain ⟨t, ht, rfl⟩ := Option.map_eq_some_iff.1 hl
  exact (hts t (List.mem_of_head? ht)).1

theorem at_next (h : Gives S room p P) (o : Option Lexeme) : GivesAt S room o p P :=
  fun ts hts _ => h ts hts

end Gives

namespace Consumes

variable {p : Parser α} {f : α → Parser β} {P Q : α → Prop} {R : β → Prop}

theorem gives (h : Consumes S room p P) : Gives S room p P :=
  fun ts hts => (h ts hts).mono (fun _ _ ha => ha.1) fun _ he => he

theorem weaken {room' : Nat} (h : Consumes S room p P) (hroom : room' ≤ room) :
    Consumes S room' p P :=
  fun ts hts => (h ts hts).mono (fun _ _ ha => ha) fun _ he => he.mono hroom

/-- **A level is paid for**: after a token has been taken, readers with one
level less will do. -/
theorem bind (hp : Consumes S (room + 1) p P) (hf : ∀ a, P a → Gives S room (f a) R) :
    Consumes S (room + 1) (p >>= f) R := fun ts hts =>
  (hp ts hts).bind fun a rest ha hrest =>
    ⟨fun b rest' hread =>
      have hb := (hf a ha.1 rest (hts.of_suffix hrest)).1 b rest' hread
      ⟨⟨hb.1, Nat.lt_of_le_of_lt hb.2.length_le ha.2⟩, hb.2⟩,
    fun e hread => ((hf a ha.1 rest (hts.of_suffix hrest)).2 e hread).after hrest ha.2⟩

theorem take (l : Lexeme) : Consumes S room (Parser.take l) S.position := by
  intro ts hts
  cases ts with
  | nil => exact .error rfl trivial
  | cons t rest =>
    by_cases ht : t.lexeme = l
    · exact .ok (show Parser.take l (t :: rest) = .ok (t.position, rest) from if_pos ht)
        ⟨(hts t List.mem_cons_self).2, Nat.lt_succ_self _⟩ (List.suffix_cons t rest)
    · exact .error (e := .unexpected [l.family] (t :: rest)) (if_neg ht) trivial

theorem mark (m : Mark) : Consumes S room (Parser.mark m) S.position := take (.mark m)

theorem word (k : Keyword) : Consumes S room (Parser.word k) S.position := take (.keyword k)

theorem name (hS : S.Closed) :
    Consumes S room Parser.name fun n => S.name n.1 ∧ S.position n.2 := by
  intro ts hts
  cases ts with
  | nil => exact .error rfl trivial
  | cons t rest =>
    obtain ⟨l, p⟩ := t
    cases l with
    | ident s =>
      obtain ⟨hl, hp⟩ := hts ⟨.ident s, p⟩ List.mem_cons_self
      exact .ok rfl ⟨⟨hS.ident hl, hp⟩, Nat.lt_succ_self _⟩ (List.suffix_cons _ rest)
    | _ => exact .error rfl trivial

end Consumes

namespace Gives

variable {f : Position → Parser β} {R : β → Prop}

theorem mark (m : Mark) : Gives S room (Parser.mark m) S.position := (Consumes.mark m).gives

theorem word (k : Keyword) : Gives S room (Parser.word k) S.position := (Consumes.word k).gives

theorem name (hS : S.Closed) : Gives S room Parser.name fun n => S.name n.1 ∧ S.position n.2 :=
  (Consumes.name hS).gives

theorem optionalMark (m : Mark) : Gives S room (Parser.optionalMark m) fun _ => True := by
  refine (isNext _).bind fun b _ => ?_
  cases b with
  | true => exact (mark m).bind fun _ _ => pure trivial
  | false => exact pure trivial

end Gives

namespace GivesAt

variable {p : Parser α} {P : α → Prop} {R : β → Prop} {o : Option Lexeme}

/-- A reader sees the next lexeme if it is the first. -/
theorem bind {f : α → Parser β} (hp : GivesAt S room o p P)
    (hf : ∀ a, P a → Gives S room (f a) R) : GivesAt S room o (p >>= f) R := fun ts hts ho =>
  (hp ts hts ho).bind fun a rest ha hrest =>
    (hf a ha rest (hts.of_suffix hrest)).mono (fun _ _ h => h) fun _ he => he.of_suffix hrest

theorem peek {f : Option Lexeme → Parser β} (h : GivesAt S room o (f o) R) :
    GivesAt S room o (Parser.peek >>= f) R := by
  intro ts hts ho
  have hread : (Parser.peek >>= f) ts = f o ts := by rw [← ho]; rfl
  unfold Runs
  rw [hread]
  exact h ts hts ho

theorem isNext {f : Bool → Parser β} (l : Lexeme) (h : GivesAt S room o (f (o == some l)) R) :
    GivesAt S room o (Parser.isNext l >>= f) R := by
  intro ts hts ho
  have hread : (Parser.isNext l >>= f) ts = f (o == some l) ts := by rw [← ho]; rfl
  unfold Runs
  rw [hread]
  exact h ts hts ho

theorem here {f : Option Position → Parser β} (h : ∀ p, S.Place p → GivesAt S room o (f p) R) :
    GivesAt S room o (Parser.here >>= f) R := by
  intro ts hts ho
  refine h _ (fun q hq => ?_) ts hts ho
  obtain ⟨t, ht, rfl⟩ := Option.map_eq_some_iff.1 hq
  exact (hts t (List.mem_of_head? ht)).2

/-- **What comes next is taken**, which pays for a level. -/
theorem skip {l : Lexeme} {f : Unit → Parser β} (h : Gives S room (f ()) R) :
    GivesAt S (room + 1) (some l) (Parser.skip >>= f) R := by
  intro ts hts ho
  cases ts with
  | nil => cases ho
  | cons t rest =>
    have hrest := List.suffix_cons t rest
    obtain ⟨hok, hstop⟩ := h rest (hts.of_suffix hrest)
    exact ⟨fun b rest' hread => ⟨(hok b rest' hread).1, (hok b rest' hread).2.trans hrest⟩,
      fun e hread => (hstop e hread).after hrest (Nat.lt_succ_self _)⟩

/-- A literal is made from what comes next, unless that has too many
digits. -/
theorem literal {l : Lexeme} {o : Except Stuck Literal} (hl : literal? l = some o)
    {f : Literal → Parser β} (h : ∀ v, literal? l = some (.ok v) → Gives S room (f v) R) :
    GivesAt S (room + 1) (some l) (do Parser.skip; f (← liftM o)) R := by
  cases o with
  | ok v => exact .skip (h v hl)
  | error e =>
    intro ts hts ho
    obtain rfl := eq_numeralTooLong_of_literal? hl
    obtain ⟨t, ht, rfl⟩ := Option.map_eq_some_iff.1 ho
    exact .error (e := .numeralTooLong) rfl ⟨t, List.mem_of_head? ht, hl⟩

end GivesAt

/-! ## Lists -/

section Lists

variable {p : Parser α} {P : α → Prop} {start : Lexeme → Bool}

theorem manyLoop_gives (h : ∀ l, start l = true → GivesAt S room (some l) p P)
    (bound : List Token) : Gives S room (manyLoop start p bound) fun as => ∀ a ∈ as, P a := by
  induction bound with
  | nil => exact .pure (List.forall_mem_nil _)
  | cons t bound ih =>
    refine .of_at fun o _ => .peek ?_
    cases o with
    | none => exact (Gives.pure (List.forall_mem_nil _)).at_next none
    | some l =>
      dsimp only
      split
      · next hl =>
        exact (h l hl).bind fun a ha => ih.map fun as has => List.forall_mem_cons.2 ⟨ha, has⟩
      · exact (Gives.pure (List.forall_mem_nil _)).at_next _

theorem many_gives (h : ∀ l, start l = true → GivesAt S room (some l) p P) :
    Gives S room (many start p) fun as => ∀ a ∈ as, P a :=
  fun ts hts => manyLoop_gives h ts ts hts

/-- Where a phrase can start, at least one is read. -/
theorem many_gives_some (h : ∀ l, start l = true → GivesAt S room (some l) p P) {l : Lexeme}
    (hl : start l = true) :
    GivesAt S room (some l) (many start p) fun as => as ≠ [] ∧ ∀ a ∈ as, P a := by
  intro ts hts hhead
  cases ts with
  | nil => cases hhead
  | cons t ts =>
    have hloop : GivesAt S room (some l) (manyLoop start p (t :: ts))
        fun as => as ≠ [] ∧ ∀ a ∈ as, P a := by
      refine .peek ?_
      dsimp only
      rw [if_pos hl]
      exact (h l hl).bind fun a ha => (manyLoop_gives h ts).map fun as has =>
        ⟨List.cons_ne_nil a as, List.forall_mem_cons.2 ⟨ha, has⟩⟩
    exact hloop (t :: ts) hts hhead

theorem commaList_gives (h : Gives S room p P) :
    Gives S room (commaList p) fun as => ∀ a ∈ as, P a := by
  refine h.bind fun a ha => ?_
  have hrest : Gives S room (many (· == .mark .comma) do
      let _ ← mark .comma
      p) fun as => ∀ a ∈ as, P a :=
    many_gives fun l _ => ((Gives.mark .comma).bind fun _ _ => h).at_next _
  exact hrest.map fun as has => List.forall_mem_cons.2 ⟨ha, has⟩

theorem enclosed_gives (left right : Mark) (h : Gives S room p P) :
    Gives S room (enclosed left right p) fun as => ∀ a ∈ as, P a := by
  refine (Gives.mark left).bind fun _ _ => (commaList_gives h).bind fun as has => ?_
  exact (Gives.mark right).bind fun _ _ => .pure has

theorem parenthesized_consumes (h : Gives S room p P) :
    Consumes S (room + 1) (parenthesized p) fun as => ∀ a ∈ as, P a := by
  refine (Consumes.mark .leftParen).bind fun _ _ => (Gives.isNext _).bind fun b _ => ?_
  have hclose : ∀ as : List α, (∀ a ∈ as, P a) →
      Gives S room (do let _ ← mark .rightParen; return as) fun as => ∀ a ∈ as, P a :=
    fun as has => (Gives.mark .rightParen).bind fun _ _ => .pure has
  cases b with
  | true => exact hclose [] (List.forall_mem_nil _)
  | false => exact (commaList_gives h).bind hclose

theorem parenthesized_gives (h : Gives S room p P) :
    Gives S room (parenthesized p) fun as => ∀ a ∈ as, P a :=
  (parenthesized_consumes h).gives.weaken (Nat.le_succ room)

end Lists

/-! ## Types and patterns -/

section Parts

variable (hS : S.Closed)

include hS

theorem typeSpecIn_gives {inner : Parser TypeSpec} (h : Gives S room inner S.type) :
    Gives S (room + 1) (typeSpecIn inner) S.type := by
  refine .of_at fun o _ => .peek ?_
  split
  · refine .skip ((parenthesized_gives h).bind fun params hparams => ?_)
    exact (Gives.mark .arrow).bind fun _ _ => h.map fun result hresult =>
      hS.functionType hparams hresult
  · exact .skip ((Gives.mark .rightParen).bind fun _ _ => .pure hS.unitType)
  · refine Gives.at_next (((Consumes.name hS).bind fun n hn => ?_).gives) _
    refine (Gives.isNext _).bind fun b _ => ?_
    cases b with
    | true => exact (enclosed_gives _ _ h).map fun args hargs => hS.namedType hn.1 hargs
    | false => exact .pure (hS.namedType hn.1 (List.forall_mem_nil _))

theorem patternIn_gives {inner : Parser Node} (h : Gives S room inner S.pattern) :
    Gives S (room + 1) (patternIn inner) S.pattern := by
  refine .of_at fun o ho => .here fun p hp => .peek ?_
  split
  · next value hvalue =>
    obtain ⟨l, rfl, hl⟩ := Option.bind_eq_some_iff.1 hvalue
    exact .literal hl fun v hv => .pure (hS.patternLit hp (ho l rfl) hv)
  · refine Gives.at_next (((Consumes.name hS).bind fun n hn => ?_).gives) _
    dsimp only
    split
    · exact .pure (hS.patternWild hp)
    · next hwild =>
      refine (Gives.isNext _).bind fun b _ => ?_
      cases b with
      | true =>
        exact (parenthesized_gives h).map fun args hargs =>
          hS.patternCtor hp hn.1 hwild hargs
      | false => exact .pure (hS.patternVar hp hn.1 hwild)

end Parts

/-! ## Levels -/

namespace Level

/-- **What the readers of a level give**, with so many levels further
in. -/
structure Keeps (S : Shape) (room : Nat) (inner : Level) : Prop where
  /-- The levels are counted. -/
  room_eq : inner.room = room
  /-- Types. -/
  typeSpec : Gives S room inner.typeSpec S.type
  /-- Patterns. -/
  pattern : Gives S room inner.pattern S.pattern
  /-- Expressions. -/
  expression : Gives S room inner.expression S.expression
  /-- Sequences. -/
  sequence : Gives S room inner.sequence S.expression

variable {inner : Level} (hS : S.Closed) (h : inner.Keeps S room)

theorem place_some {p : Position} (hp : S.position p) : S.Place (some p) := by
  rintro _ ⟨⟩
  exact hp

include h

theorem typeNode_gives : Gives S room inner.typeNode S.TypeNode :=
  h.typeSpec.map fun t ht => ⟨t, rfl, ht⟩

theorem typeAfterColon_gives : Gives S room inner.typeAfterColon S.OptionalType := by
  refine (Gives.isNext _).bind fun b _ => ?_
  cases b with
  | true => exact (Gives.mark .colon).bind fun _ _ => (typeNode_gives h).mono fun _ ht => .inr ht
  | false => exact .pure (.inl rfl)

theorem braced_gives : Gives S room inner.braced S.expression := by
  refine (Gives.mark .leftBrace).bind fun _ _ => h.sequence.bind fun body hbody => ?_
  exact (Gives.mark .rightBrace).bind fun _ _ => .pure hbody

theorem body_gives : Gives S room inner.body S.expression := by
  refine (Gives.isNext _).bind fun b _ => ?_
  cases b with
  | true => exact braced_gives h
  | false => exact h.expression

include hS

theorem param_gives : Gives S room inner.param S.param :=
  (Gives.name hS).bind fun _ hn => (typeAfterColon_gives h).map fun _ ht =>
    hS.paramOf (place_some hn.2) hn.1 ht

omit h in
theorem typeParams_gives : Gives S room typeParams fun names => ∀ n ∈ names, S.name n := by
  refine (Gives.isNext _).bind fun b _ => ?_
  cases b with
  | true => exact enclosed_gives _ _ ((Gives.name hS).map fun _ hn => hn.1)
  | false => exact .pure (List.forall_mem_nil _)

/-! ### Declarations -/

theorem externDecl_gives : Gives S room inner.externDecl S.declaration := by
  refine (Gives.word .kwExtern).bind fun p hp => (Gives.name hS).bind fun n hn => ?_
  refine (typeParams_gives hS).bind fun tps htps => (Gives.mark .colon).bind fun _ _ => ?_
  have hrest : Gives S room (do
      let signature ← inner.typeSpec
      let _ ← mark .semicolon
      let result := signature.result?.getD signature
      return Node.externDecl p n.1 tps (signature.params.map .typeSpec) (.typeSpec result))
      S.declaration :=
    h.typeSpec.bind fun t ht => (Gives.mark .semicolon).bind fun _ _ =>
      .pure (hS.externDecl (place_some hp) hn.1 htps ht)
  refine (Gives.isNext _).bind fun b _ => ?_
  cases b with
  | true => exact hrest
  | false => exact (Gives.needed (P := fun _ => False) _).bind fun _ h => h.elim

theorem constructorDecl_gives : Gives S room inner.constructorDecl S.constructorDecl := by
  refine (Gives.name hS).bind fun n hn => (Gives.isNext _).bind fun b _ => ?_
  cases b with
  | true =>
    exact (enclosed_gives _ _ (typeNode_gives h)).map fun ts hts =>
      hS.constructor (place_some hn.2) hn.1 hts
  | false =>
    refine (Gives.isNext _).bind fun b _ => ?_
    cases b with
    | true =>
      exact (enclosed_gives _ _ (typeNode_gives h)).map fun ts hts =>
        hS.constructor (place_some hn.2) hn.1 hts
    | false => exact .pure (hS.constructor (place_some hn.2) hn.1 (List.forall_mem_nil _))

theorem dataDecl_gives :
    Gives S room inner.dataDecl fun d => S.declaration d ∧ d.isLocal = true := by
  refine (Gives.word .kwData).bind fun p hp => (Gives.name hS).bind fun n hn => ?_
  refine (typeParams_gives hS).bind fun tps htps => (Gives.mark .equal).bind fun _ _ => ?_
  refine (Gives.optionalMark .bar).bind fun _ _ => ?_
  refine (constructorDecl_gives hS h).bind fun first hfirst => ?_
  refine (many_gives fun l _ =>
    ((Gives.mark .bar).bind fun _ _ => constructorDecl_gives hS h).at_next (some l)).bind
      fun rest hrest => (Gives.word .kwEnd).bind fun _ _ => ?_
  exact (Gives.optionalMark .semicolon).bind fun _ _ =>
    .pure ⟨hS.dataDecl (place_some hp) hn.1 htps hfirst hrest, rfl⟩

theorem typeDecl_gives :
    Gives S room inner.typeDecl fun d => S.declaration d ∧ d.isLocal = true := by
  refine (Gives.word .kwType).bind fun p hp => (Gives.name hS).bind fun n hn => ?_
  refine (typeParams_gives hS).bind fun tps htps => (Gives.mark .equal).bind fun _ _ => ?_
  exact (typeNode_gives h).bind fun t ht => (Gives.mark .semicolon).bind fun _ _ =>
    .pure ⟨hS.typeDecl (place_some hp) hn.1 htps ht, rfl⟩

omit hS in
theorem resultType_gives : Gives S room inner.resultType S.OptionalType := by
  refine (Gives.isNext _).bind fun b _ => (Gives.isNext _).bind fun c _ => ?_
  refine .ite (fun _ => Gives.skip.bind fun _ _ => ?_) fun _ => .pure (.inl rfl)
  exact (typeNode_gives h).mono fun _ ht => .inr ht

omit hS in
theorem funBody_gives : Gives S room inner.funBody S.expression := by
  refine (Gives.isNext _).bind fun b _ => ?_
  cases b with
  | true => exact (Gives.mark .fatArrow).bind fun _ _ => braced_gives h
  | false =>
    refine (Gives.isNext _).bind fun b _ => ?_
    cases b with
    | true => exact (Gives.mark .equal).bind fun _ _ => h.expression
    | false => exact .needed _

theorem funDecl_gives :
    Gives S room inner.funDecl fun d => S.declaration d ∧ d.isLocal = true := by
  refine (Gives.word .kwFun).bind fun p hp => (Gives.name hS).bind fun n hn => ?_
  refine (typeParams_gives hS).bind fun tps htps => ?_
  refine (parenthesized_gives (param_gives hS h)).bind fun params hparams => ?_
  refine (resultType_gives h).bind fun t ht => (funBody_gives h).bind fun body hbody => ?_
  exact (Gives.optionalMark .semicolon).bind fun _ _ =>
    .pure ⟨hS.funDecl (place_some hp) hn.1 htps hparams hbody ht, rfl⟩

/-- A declaration that does not start with `extern` is a local one. -/
theorem declaration_gives (o : Option Lexeme) :
    GivesAt S room o inner.declaration fun d => S.declaration d
      ∧ (o ≠ some (.keyword .kwExtern) → d.isLocal = true) := by
  refine .peek ?_
  split
  · exact ((externDecl_gives hS h).mono fun d hd => ⟨hd, fun hne => absurd rfl hne⟩).at_next _
  · exact ((dataDecl_gives hS h).mono fun d hd => ⟨hd.1, fun _ => hd.2⟩).at_next _
  · exact ((typeDecl_gives hS h).mono fun d hd => ⟨hd.1, fun _ => hd.2⟩).at_next _
  · exact ((funDecl_gives hS h).mono fun d hd => ⟨hd.1, fun _ => hd.2⟩).at_next _
  · exact (Gives.needed _).at_next _

theorem declarations_gives (words : List Keyword) :
    Gives S room (inner.declarations words) fun ds =>
      ∀ d ∈ ds, S.declaration d ∧ (.kwExtern ∉ words → d.isLocal = true) := by
  have hstep : ∀ l : Lexeme, (words.any fun k => l == .keyword k) = true →
      GivesAt S room (some l) inner.declaration fun d => S.declaration d
        ∧ (.kwExtern ∉ words → d.isLocal = true) := by
    intro l hl
    obtain ⟨k, hk, hlk⟩ := List.any_eq_true.1 hl
    obtain rfl := eq_of_beq hlk
    intro ts hts hhead
    refine (declaration_gives hS h _ ts hts hhead).mono
      (fun d _ hd => ⟨hd.1, fun hwords => hd.2 ?_⟩)
      fun _ he => he
    rintro ⟨⟩
    exact hwords hk
  refine (many_gives hstep).bind fun ds hds => (Gives.isNext _).bind fun b _ => ?_
  cases b with
  | true => exact (Gives.word .kwIn).bind fun _ _ => .pure hds
  | false => exact (Gives.needed (P := fun _ => False) _).bind fun _ h => h.elim

/-! ### Expressions -/

omit hS in
theorem arguments_consumes :
    Consumes S (room + 1) inner.arguments fun as => ∀ a ∈ as, S.expression a :=
  parenthesized_consumes h.expression

theorem letIn_gives : Gives S (room + 1) inner.letIn S.expression := by
  refine ((Consumes.word .kwLet).bind fun p hp => (Gives.name hS).bind fun n hn => ?_).gives
  refine (typeAfterColon_gives h).bind fun t ht => (Gives.mark .equal).bind fun _ _ => ?_
  refine h.expression.bind fun value hvalue => (Gives.mark .semicolon).bind fun _ _ => ?_
  exact h.sequence.map fun body hbody => hS.letIn (place_some hp) hn.1 hvalue hbody ht

theorem lambda_gives : Gives S (room + 1) inner.lambda S.expression := by
  refine ((Consumes.word .kwFn).bind fun p hp => ?_).gives
  refine (parenthesized_gives (param_gives hS h)).bind fun params hparams => ?_
  exact (Gives.mark .fatArrow).bind fun _ _ => (body_gives h).map fun body hbody =>
    hS.lambda (place_some hp) hparams hbody

theorem arm_gives : Gives S room inner.arm S.arm := by
  refine (Gives.mark .bar).bind fun p hp => h.pattern.bind fun pattern hpattern => ?_
  exact (Gives.mark .fatArrow).bind fun _ _ => (body_gives h).map fun body hbody =>
    hS.armOf (place_some hp) hpattern hbody

theorem caseOf_gives : Gives S (room + 1) inner.caseOf S.expression := by
  refine ((Consumes.word .kwCase).bind fun p hp => h.expression.bind fun scrutinee hs => ?_).gives
  refine (Gives.word .kwOf).bind fun _ _ => .of_at fun o _ => .isNext _ ?_
  have harms : GivesAt S room (some (.mark .bar)) (many (· == .mark .bar) inner.arm) fun arms =>
      arms ≠ [] ∧ ∀ a ∈ arms, S.arm a :=
    many_gives_some (fun l _ => (arm_gives hS h).at_next _) (by decide)
  -- the arms are read only if a bar comes next, so there is at least one
  by_cases ho : o = some (.mark .bar)
  · subst ho
    exact harms.bind fun arms harms => (Gives.word .kwEnd).bind fun _ _ =>
      .pure (hS.caseOf (place_some hp) hs harms.1 harms.2)
  · rw [beq_eq_false_iff_ne.2 ho]
    exact ((Gives.needed (P := fun _ => False) _).bind fun _ h => h.elim).at_next o

theorem block_gives : Gives S (room + 1) inner.block S.expression := by
  refine ((Consumes.word .kwBegin).bind fun p hp => (declarations_gives hS h _).bind
    fun ds hds => ?_).gives
  refine h.sequence.bind fun body hbody => (Gives.word .kwEnd).bind fun _ _ => .pure ?_
  exact hS.block (place_some hp) (fun d hd => ⟨(hds d hd).1, (hds d hd).2 (by decide)⟩) hbody

theorem primary_gives : Gives S (room + 1) inner.primary S.expression := by
  refine .of_at fun o ho => .here fun p hp => .peek ?_
  split
  · next value hvalue =>
    obtain ⟨l, rfl, hl⟩ := Option.bind_eq_some_iff.1 hvalue
    exact .literal hl fun v hv => .pure (hS.literal hp (ho l rfl) hv)
  have harguments := (arguments_consumes h).gives.weaken (Nat.le_succ room)
  split
  · next n => exact .skip (.pure (hS.var hp (ho _ rfl)))
  · next op => exact .skip (harguments.map fun args hargs => hS.intrinsicCall hp (ho _ rfl) hargs)
  · next n => exact .skip (harguments.map fun args hargs => hS.directiveCall hp (ho _ rfl) hargs)
  · refine .skip ((Gives.isNext _).bind fun b _ => ?_)
    cases b with
    | true => exact (Gives.mark .rightParen).bind fun _ _ => .pure (hS.unit hp)
    | false => exact h.expression.bind fun e he => (Gives.mark .rightParen).bind fun _ _ => .pure he
  · exact (caseOf_gives hS h).at_next _
  · exact (letIn_gives hS h).at_next _
  · exact (lambda_gives hS h).at_next _
  · -- the token after `begin` tells a block from a sequence in brackets
    intro ts hts ho
    refine Runs.bind (P := fun _ rest => rest = ts) (.ok rfl rfl (List.suffix_refl ts)) ?_
    rintro second _ rfl -
    split
    · exact block_gives hS h _ hts
    · refine GivesAt.skip (h.sequence.bind fun body hbody => ?_) _ hts ho
      exact (Gives.word .kwEnd).bind fun _ _ => .pure hbody
  · exact (Gives.needed _).at_next _

/-- Each argument list costs a level and takes a token. -/
theorem applications_gives {k : Nat} (hk : k ≤ room) {callee : Node}
    (hcallee : S.expression callee) :
    Gives S (k + 1) (inner.applications k callee) S.expression := by
  induction k generalizing callee with
  | zero =>
    refine .of_at fun o _ => .isNext _ ?_
    split
    · next hnext =>
      obtain rfl := eq_of_beq hnext
      -- no level is left, but the bracket is one token
      intro ts _ ho
      cases ts with
      | nil => cases ho
      | cons t ts => exact .error rfl (Nat.succ_le_succ (Nat.zero_le _))
    · exact (Gives.pure hcallee).at_next _
  | succ k ih =>
    refine (Gives.isNext _).bind fun b _ => ?_
    cases b with
    | true =>
      have harguments := (arguments_consumes h).weaken (Nat.succ_le_succ hk)
      exact Gives.here.bind fun p hp => (harguments.bind fun args hargs =>
        ih (Nat.le_of_succ_le hk) (hS.call hp hcallee hargs)).gives
    | false => exact .pure hcallee

theorem expressionIn_gives : Gives S (room + 1) inner.expressionIn S.expression := by
  refine (primary_gives hS h).bind fun _ he => ?_
  rw [h.room_eq]
  exact applications_gives hS h (Nat.le_refl room) he

theorem sequenceIn_gives : Gives S (room + 1) inner.sequenceIn S.expression := by
  refine (Gives.isNext _).bind fun b _ => ?_
  cases b with
  | true => exact letIn_gives hS h
  | false =>
    refine (expressionIn_gives hS h).bind fun first hfirst => (Gives.isNext _).bind fun b _ => ?_
    cases b with
    | true =>
      refine ((Consumes.mark .semicolon).bind fun p hp => Gives.peek.bind fun o _ => ?_).gives
      exact .ite (fun _ => h.sequence.map fun rest hrest => hS.seq (place_some hp) hfirst hrest)
        fun _ => .pure hfirst
    | false => exact .pure hfirst

end Level

/-- **The readers of every level keep the shape**, by induction on the
levels inside. -/
theorem level_keeps (hS : S.Closed) (n : Nat) : (level n).Keeps S n := by
  induction n with
  | zero => exact ⟨rfl, .tooDeep, .tooDeep, .tooDeep, .tooDeep⟩
  | succ n ih =>
    exact ⟨rfl, typeSpecIn_gives hS ih.typeSpec, patternIn_gives hS ih.pattern,
      Level.expressionIn_gives hS ih, Level.sequenceIn_gives hS ih⟩

/-- **What the reader of programs gives, and how it stops.** -/
theorem program_gives (hS : S.Closed) (n : Nat) :
    Gives S n (program (level n)) S.Program := by
  have h := level_keeps hS n
  refine (Gives.word .kwBegin).bind fun p hp => ?_
  refine (Level.declarations_gives hS h _).bind fun ds hds => ?_
  refine h.sequence.bind fun body hbody => (Gives.word .kwEnd).bind fun _ _ => ?_
  have hend : Gives S n (pure (Node.program p ds body)) S.Program :=
    .pure ⟨_, ds, body, rfl, Level.place_some hp, fun d hd => (hds d hd).1, hbody⟩
  refine Gives.peek.bind fun o _ => .ite (fun _ => ?_) fun _ => hend
  exact (Gives.needed (P := fun _ => False) _).bind fun _ h => h.elim

end Parser

end EmberLang
