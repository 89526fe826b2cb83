import EmberLang.Proofs.Grammar
import EmberLang.Tree.Parser

/-!
# What a reader has taken

A reader that succeeds has taken tokens off the front of its list. What it
*takes* (`Parser.Takes`) is said by a relation between the lexemes of
these tokens and the result. This is the other side of `Parser.Reads`:
there the lexemes are given and the reader is shown to succeed, here the
reader has succeeded and the lexemes are found.

A reader that has looked at the next lexeme knows with what the tokens
start; `Parser.TakesAt` is said of lists that start so. Each small reader
has a rule, which puts the lexemes it takes before those of the readers
after it, so that at the end of a phrase all its lexemes stand together in
the goal.
-/

namespace EmberLang

/-- Phrases one after the other: what is joined is their lexemes, each
with its tree as `P` says. -/
def Row {α : Type} (P : List Lexeme → α → Prop) (join : List (List Lexeme) → List Lexeme)
    (ls : List Lexeme) (as : List α) : Prop :=
  ∃ items : List (Spelled α), ls = join (spellings items) ∧ as = trees items
    ∧ ∀ i ∈ items, P i.1 i.2

namespace Row

variable {α β : Type} {P : List Lexeme → β → Prop} {join : List (List Lexeme) → List Lexeme}
variable {ls : List Lexeme}

theorem map {g : α → β} {as : List α} (h : Row (fun ls a => P ls (g a)) join ls as) :
    Row P join ls (as.map g) := by
  obtain ⟨items, rfl, rfl, hitems⟩ := h
  refine ⟨items.map (Prod.map id g), ?_, ?_, ?_⟩
  · rw [spellings, spellings, List.map_map]
    rfl
  · rw [trees, trees, List.map_map, List.map_map]
    rfl
  · intro i hi
    obtain ⟨j, hj, rfl⟩ := List.mem_map.1 hi
    exact hitems j hj

/-- Phrases whose trees are all of one form. -/
theorem image {P : List Lexeme → α → Prop} {g : α → β} {bs : List β}
    (h : Row (fun ls b => ∃ a, b = g a ∧ P ls a) join ls bs) :
    ∃ as, bs = as.map g ∧ Row P join ls as := by
  obtain ⟨items, rfl, rfl, hitems⟩ := h
  have hsplit : ∃ as : List (Spelled α), spellings items = spellings as
      ∧ trees items = (trees as).map g ∧ ∀ i ∈ as, P i.1 i.2 := by
    induction items with
    | nil => exact ⟨[], rfl, rfl, nofun⟩
    | cons i items ih =>
      rw [List.forall_mem_cons] at hitems
      obtain ⟨a, ha, hP⟩ := hitems.1
      obtain ⟨as, hls, has, hall⟩ := ih hitems.2
      refine ⟨(i.1, a) :: as, ?_, ?_, List.forall_mem_cons.2 ⟨hP, hall⟩⟩
      · exact congrArg (i.1 :: ·) hls
      · exact congrArg₂ List.cons ha has
  obtain ⟨as, hls, has, hall⟩ := hsplit
  exact ⟨trees as, has, as, by rw [hls], rfl, hall⟩

end Row

namespace Parser

section Rules

variable {α β : Type} {p : Parser α} {f : α → Parser β} {o : Option Lexeme}
variable {P Q : List Lexeme → α → Prop} {R : List Lexeme → β → Prop}

/-- **What a reader takes from a list that starts with a given lexeme.** -/
def TakesAt (o : Option Lexeme) (p : Parser α) (Q : List Lexeme → α → Prop) : Prop :=
  ∀ ts a rest, ts.head?.map Token.lexeme = o → p ts = .ok (a, rest) →
    ∃ us, ts = us ++ rest ∧ Q (us.map Token.lexeme) a

/-- **What a reader takes**: if it gives `a`, then the lexemes of the
tokens it has taken are related to `a`. -/
def Takes (p : Parser α) (Q : List Lexeme → α → Prop) : Prop := ∀ o, TakesAt o p Q

theorem TakesAt.mono (h : TakesAt o p P) (hPQ : ∀ ls a, P ls a → Q ls a) : TakesAt o p Q := by
  intro ts a rest ho hread
  obtain ⟨us, rfl, hus⟩ := h ts a rest ho hread
  exact ⟨us, rfl, hPQ _ _ hus⟩

theorem Takes.mono (h : Takes p P) (hPQ : ∀ ls a, P ls a → Q ls a) : Takes p Q :=
  fun o => (h o).mono hPQ

theorem Takes.pure {a : α} (h : Q [] a) : Takes (Pure.pure a) Q := by
  intro o ts b rest _ hread
  cases hread
  exact ⟨[], rfl, h⟩

/-- **One reader after the other.** -/
theorem TakesAt.bind (hp : TakesAt o p P)
    (hf : ∀ ls a, P ls a → Takes (f a) fun ms b => R (ls ++ ms) b) : TakesAt o (p >>= f) R := by
  intro ts b rest ho hread
  replace hread : (p ts >>= fun s => f s.1 s.2) = .ok (b, rest) := hread
  cases hp' : p ts with
  | error stuck =>
    rw [hp'] at hread
    cases hread
  | ok s =>
    rw [hp'] at hread
    obtain ⟨us, rfl, hus⟩ := hp ts s.1 s.2 ho hp'
    obtain ⟨vs, hvs, hr⟩ := hf _ _ hus _ s.2 b rest rfl hread
    refine ⟨us ++ vs, ?_, ?_⟩
    · rw [hvs, List.append_assoc]
    · rw [List.map_append]
      exact hr

theorem Takes.bind (hp : Takes p P)
    (hf : ∀ ls a, P ls a → Takes (f a) fun ms b => R (ls ++ ms) b) : Takes (p >>= f) R :=
  fun o => (hp o).bind hf

/-- A reader from whose result another is made. -/
theorem Takes.map (hp : Takes p P) {g : α → β} (hg : ∀ ls a, P ls a → R ls (g a)) :
    Takes (p >>= fun a => Pure.pure (g a)) R := by
  refine hp.bind fun ls a ha => .pure ?_
  rw [List.append_nil]
  exact hg ls a ha

theorem Takes.needed (expected : List String) : Takes (Parser.needed expected) Q :=
  fun _ _ _ _ _ hread => by cases hread

theorem Takes.tooDeep : Takes Parser.tooDeep Q := fun _ _ _ _ _ hread => by cases hread

theorem Takes.ite {c : Prop} [Decidable c] {q : Parser α} (hp : c → Takes p Q)
    (hq : ¬c → Takes q Q) : Takes (if c then p else q) Q := by
  split
  · next hc => exact hp hc
  · next hc => exact hq hc

/-- A value that is there takes nothing. -/
theorem Takes.value {e : Except Stuck α} (h : ∀ a, e = .ok a → Takes (f a) R) :
    Takes ((liftM e : Parser α) >>= f) R := by
  cases e with
  | ok a => exact h a rfl
  | error stuck => exact fun _ _ _ _ _ hread => by cases hread

/-- A reader that takes something takes the lexeme it starts with. -/
theorem Takes.head (h : Takes p Q) (hne : ∀ a, ¬Q [] a) (l : Lexeme) :
    TakesAt (some l) p fun ls a => ∃ ms, ls = l :: ms ∧ Q ls a := by
  intro ts a rest ho hread
  obtain ⟨us, rfl, hus⟩ := h _ ts a rest ho hread
  cases us with
  | nil => exact absurd hus (hne a)
  | cons u us =>
    refine ⟨u :: us, rfl, us.map Token.lexeme, ?_, hus⟩
    rw [List.map_cons, Option.some.inj ho]

/-! ## Single tokens -/

theorem TakesAt.peek {f : Option Lexeme → Parser β} (h : TakesAt o (f o) R) :
    TakesAt o (Parser.peek >>= f) R := by
  intro ts b rest ho hread
  replace hread : f (ts.head?.map Token.lexeme) ts = .ok (b, rest) := hread
  rw [ho] at hread
  exact h ts b rest ho hread

theorem Takes.peek {f : Option Lexeme → Parser β} (h : ∀ o, TakesAt o (f o) R) :
    Takes (Parser.peek >>= f) R := fun o => .peek (h o)

theorem TakesAt.peekSecond {f : Option Lexeme → Parser β} (h : ∀ second, TakesAt o (f second) R) :
    TakesAt o (Parser.peekSecond >>= f) R :=
  fun ts b rest ho hread => h _ ts b rest ho hread

theorem TakesAt.isNext {f : Bool → Parser β} {l : Lexeme} (h : TakesAt o (f (o == some l)) R) :
    TakesAt o (Parser.isNext l >>= f) R := by
  intro ts b rest ho hread
  replace hread : f (ts.head?.map Token.lexeme == some l) ts = .ok (b, rest) := hread
  rw [ho] at hread
  exact h ts b rest ho hread

/-- The given lexeme comes next, or another one does. -/
theorem Takes.isNext {f : Bool → Parser β} {l : Lexeme} (hyes : TakesAt (some l) (f true) R)
    (hno : Takes (f false) R) : Takes (Parser.isNext l >>= f) R := by
  intro o
  refine .isNext ?_
  by_cases ho : o = some l
  · subst ho
    rw [beq_self_eq_true]
    exact hyes
  · rw [beq_eq_false_iff_ne.2 ho]
    exact hno o

theorem TakesAt.here {f : Option Position → Parser β} (h : ∀ q, TakesAt o (f q) R) :
    TakesAt o (Parser.here >>= f) R :=
  fun ts b rest ho hread => h _ ts b rest ho hread

theorem TakesAt.skip {f : Unit → Parser β} {l : Lexeme}
    (h : Takes (f ()) fun ms b => R (l :: ms) b) : TakesAt (some l) (Parser.skip >>= f) R := by
  intro ts b rest ho hread
  cases ts with
  | nil => cases ho
  | cons t ts =>
    obtain ⟨us, rfl, hus⟩ := h _ ts b rest rfl hread
    refine ⟨t :: us, rfl, ?_⟩
    rw [List.map_cons, Option.some.inj ho]
    exact hus

theorem Takes.take {f : Position → Parser β} {l : Lexeme}
    (h : ∀ q, Takes (f q) fun ms b => R (l :: ms) b) : Takes (Parser.take l >>= f) R := by
  intro o ts b rest ho hread
  replace hread : (Parser.take l ts >>= fun s => f s.1 s.2) = .ok (b, rest) := hread
  cases ts with
  | nil => cases hread
  | cons t ts =>
    unfold Parser.take at hread
    dsimp only at hread
    split at hread
    · next hl =>
      obtain ⟨us, rfl, hus⟩ := h t.position _ ts b rest rfl hread
      refine ⟨t :: us, rfl, ?_⟩
      rw [List.map_cons, hl]
      exact hus
    · cases hread

theorem Takes.name {f : String × Position → Parser β}
    (h : ∀ n q, Takes (f (n, q)) fun ms b => R (.ident n :: ms) b) :
    Takes (Parser.name >>= f) R := by
  intro o ts b rest ho hread
  replace hread : (Parser.name ts >>= fun s => f s.1 s.2) = .ok (b, rest) := hread
  unfold Parser.name at hread
  split at hread
  · next _ n q ts =>
    obtain ⟨us, rfl, hus⟩ := h n q _ ts b rest rfl hread
    exact ⟨⟨.ident n, q⟩ :: us, rfl, hus⟩
  · cases hread

/-- A mark that may be left out is there or is not. -/
theorem Takes.optionalMark {f : Unit → Parser β} {m : Mark}
    (h : ∀ present, Takes (f ()) fun ms b => R (EmberLang.optionalMark present m ++ ms) b) :
    Takes (Parser.optionalMark m >>= f) R := by
  unfold Parser.optionalMark
  rw [bind_assoc]
  refine .isNext ?_ ?_
  · rw [if_pos rfl, bind_assoc]
    refine Takes.take (fun q => ?_) _
    rw [pure_bind]
    exact h true
  · rw [if_neg Bool.false_ne_true, pure_bind]
    exact h false

end Rules

/-! ## Lists -/

section Lists

variable {α : Type} {p : Parser α} {P : List Lexeme → α → Prop} {start : Lexeme → Bool}
variable (put : List Lexeme → List Lexeme)

theorem Takes.manyLoop
    (h : ∀ l, start l = true → TakesAt (some l) p fun ls a => ∃ ms, ls = put ms ∧ P ms a)
    (bound : List Token) : Takes (manyLoop start p bound) (Row P (·.flatMap put)) := by
  -- The bound only limits the rounds of the loop: what it holds is not read.
  induction bound with
  | nil => exact .pure ⟨[], rfl, rfl, nofun⟩
  | cons t bound ih =>
    refine .peek fun o => ?_
    cases o with
    | none => exact Takes.pure ⟨[], rfl, rfl, nofun⟩ _
    | some l =>
      dsimp only
      split
      · next hl =>
        refine (h l hl).bind ?_
        rintro _ a ⟨ms, rfl, ha⟩
        refine ih.map ?_
        rintro _ _ ⟨items, rfl, rfl, hitems⟩
        exact ⟨(ms, a) :: items, rfl, rfl, List.forall_mem_cons.2 ⟨ha, hitems⟩⟩
      · exact Takes.pure ⟨[], rfl, rfl, nofun⟩ _

/-- **Phrases that start as said**, each with what `put` puts before or
around it. -/
theorem Takes.many
    (h : ∀ l, start l = true → TakesAt (some l) p fun ls a => ∃ ms, ls = put ms ∧ P ms a) :
    Takes (many start p) (Row P (·.flatMap put)) :=
  fun o ts a rest ho hread => Takes.manyLoop put h ts o ts a rest ho hread

/-- Where a phrase can start, there is at least one. -/
theorem TakesAt.many
    (h : ∀ l, start l = true → TakesAt (some l) p fun ls a => ∃ ms, ls = put ms ∧ P ms a)
    {l : Lexeme} (hl : start l = true) :
    TakesAt (some l) (Parser.many start p) fun ls as => as ≠ [] ∧ Row P (·.flatMap put) ls as := by
  intro ts as rest ho hread
  cases ts with
  | nil => cases ho
  | cons t ts =>
    have hloop : TakesAt (some l) (Parser.manyLoop start p (t :: ts))
        fun ls as => as ≠ [] ∧ Row P (·.flatMap put) ls as := by
      refine .peek ?_
      dsimp only
      rw [if_pos hl]
      refine (h l hl).bind ?_
      rintro _ a ⟨ms, rfl, ha⟩
      refine (Takes.manyLoop put h ts).map ?_
      rintro _ _ ⟨items, rfl, rfl, hitems⟩
      exact ⟨List.cons_ne_nil _ _, (ms, a) :: items, rfl, rfl, List.forall_mem_cons.2 ⟨ha, hitems⟩⟩
    exact hloop (t :: ts) as rest ho hread

theorem Takes.commaList (h : Takes p P) :
    Takes (commaList p) fun ls as => as ≠ [] ∧ Row P commaSeparated ls as := by
  refine h.bind fun ms a ha => ?_
  have hrest : Takes (Parser.many (· == .mark .comma) do
      let _ ← mark .comma
      p) (Row P (·.flatMap (.mark .comma :: ·))) :=
    .many (.mark .comma :: ·) fun l _ => Takes.take (fun _ => h.mono fun ms a ha => ⟨ms, rfl, ha⟩) _
  refine hrest.map ?_
  rintro _ _ ⟨items, rfl, rfl, hitems⟩
  exact ⟨List.cons_ne_nil _ _, (ms, a) :: items, rfl, rfl, List.forall_mem_cons.2 ⟨ha, hitems⟩⟩

theorem Takes.enclosed (left right : Mark) (h : Takes p P) :
    Takes (enclosed left right p) fun ls as => as ≠ []
      ∧ Row P (fun lss => .mark left :: commaSeparated lss ++ [Lexeme.mark right]) ls as := by
  refine .take fun _ => h.commaList.bind ?_
  rintro _ as ⟨hne, items, rfl, has, hitems⟩
  exact .take fun _ => .pure ⟨hne, items, rfl, has, hitems⟩

theorem Takes.parenthesized (h : Takes p P) :
    Takes (parenthesized p) (Row P EmberLang.parenthesized) := by
  refine .take fun _ => .isNext ?_ ?_
  · rw [if_pos rfl, pure_bind]
    exact Takes.take (fun _ => .pure ⟨[], rfl, rfl, nofun⟩) _
  · rw [if_neg Bool.false_ne_true]
    refine h.commaList.bind ?_
    rintro _ as ⟨-, items, rfl, has, hitems⟩
    exact .take fun _ => .pure ⟨items, rfl, has, hitems⟩

end Lists

end Parser

end EmberLang
