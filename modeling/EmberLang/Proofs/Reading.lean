import EmberLang.Proofs.Spelling
import EmberLang.Tree.Parser
import Mathlib.Algebra.BigOperators.Group.List.Basic
import Mathlib.Data.List.Forall2

/-!
# What a reader takes from a list of lexemes

A reader *reads* lexemes if it takes tokens with just these lexemes off
the front of any list and leaves the rest, whatever the positions of the
tokens are (`Parser.Reads`). What may come next matters: after an
expression no parenthesis may follow, since it would be read as a list of
arguments. The condition on what comes next is a part of the notion, and
the rule for sequencing (`Parser.Reads.bind`) hands it on from one phrase
to the phrase before it.

The rules below say for each small reader what it reads, up to lists of
phrases with commas between them; the readers of types, patterns and
expressions are put together from these.
-/

namespace EmberLang.Parser

/-- The lexeme that comes next: the first of some lexemes, or what is
after them if there are none. -/
def follow (ls : List Lexeme) (o : Option Lexeme) : Option Lexeme := ls.head?.or o

@[simp]
theorem follow_nil (o : Option Lexeme) : follow [] o = o := rfl

@[simp]
theorem follow_cons (l : Lexeme) (ls : List Lexeme) (o : Option Lexeme) :
    follow (l :: ls) o = some l := rfl

/-- **A reader reads lexemes**: it takes tokens with these lexemes from
the front and gives something with the property `Q`, provided that what
comes next is as `ok` says. -/
def Reads {α : Type} (p : Parser α) (ls : List Lexeme) (ok : Option Lexeme → Prop)
    (Q : α → Prop) : Prop :=
  ∀ ts rest : List Token, ts.map Token.lexeme = ls → ok (rest.head?.map Token.lexeme) →
    ∃ a, p (ts ++ rest) = .ok (a, rest) ∧ Q a

/-- Whatever comes next. -/
abbrev anything : Option Lexeme → Prop := fun _ => True

/-- What comes next is not the given lexeme. -/
def notNext (l : Lexeme) (o : Option Lexeme) : Prop := o ≠ some l

instance (l : Lexeme) (o : Option Lexeme) : Decidable (notNext l o) :=
  inferInstanceAs (Decidable (o ≠ some l))

namespace Reads

variable {α β : Type} {p : Parser α} {f : α → Parser β} {ls ms : List Lexeme}
variable {ok ok' : Option Lexeme → Prop} {Q : α → Prop} {R : β → Prop}

theorem head_eq {ts : List Token} {l : Lexeme} (h : ts.map Token.lexeme = l :: ls) :
    ∃ t ts', ts = t :: ts' ∧ t.lexeme = l ∧ ts'.map Token.lexeme = ls := by
  cases ts with
  | nil => cases h
  | cons t ts' =>
    obtain ⟨hl, hls⟩ := List.cons.inj h
    exact ⟨t, ts', rfl, hl, hls⟩

theorem head?_append {ts rest : List Token} (h : ts.map Token.lexeme = ls) :
    (ts ++ rest).head?.map Token.lexeme = follow ls (rest.head?.map Token.lexeme) := by
  subst h
  cases ts <;> rfl

theorem mono (h : Reads p ls ok Q) (hok : ∀ o, ok' o → ok o) {Q' : α → Prop}
    (hQ : ∀ a, Q a → Q' a) : Reads p ls ok' Q' := by
  intro ts rest hts hrest
  obtain ⟨a, ha, hq⟩ := h ts rest hts (hok _ hrest)
  exact ⟨a, ha, hQ a hq⟩

/-- What comes next may be known more exactly. -/
theorem before (h : Reads p ls ok Q) (hok : ∀ o, ok' o → ok o) : Reads p ls ok' Q :=
  h.mono hok fun _ ha => ha

theorem anywhere (h : Reads p ls anything Q) : Reads p ls ok Q := h.before fun _ _ => trivial

theorem congr (h : Reads p ls ok Q) (e : ls = ms) : Reads p ms ok Q := e ▸ h

theorem pure {a : α} (h : Q a) : Reads (Pure.pure a) [] ok Q := by
  intro ts rest hts _
  obtain rfl := List.map_eq_nil_iff.1 hts
  exact ⟨a, rfl, h⟩

/-- **One phrase after the other.** -/
theorem bind (hp : Reads p ls ok Q) (hnext : ∀ o, ok' o → ok (follow ms o))
    (hf : ∀ a, Q a → Reads (f a) ms ok' R) : Reads (p >>= f) (ls ++ ms) ok' R := by
  intro ts rest hts hrest
  obtain ⟨ts₁, ts₂, rfl, h₁, h₂⟩ := List.map_eq_append_iff.1 hts
  have hok := hnext _ hrest
  rw [← head?_append h₂] at hok
  obtain ⟨a, ha, hq⟩ := hp ts₁ (ts₂ ++ rest) h₁ hok
  obtain ⟨b, hb, hr⟩ := hf a hq ts₂ rest h₂ hrest
  refine ⟨b, ?_, hr⟩
  rw [List.append_assoc]
  show (p (ts₁ ++ (ts₂ ++ rest)) >>= fun s => f s.1 s.2) = _
  rw [ha]
  exact hb

/-- A phrase from which the result is made. -/
theorem map (hp : Reads p ls ok Q) {g : α → β} (h : ∀ a, Q a → R (g a)) :
    Reads (p >>= fun a => Pure.pure (g a)) ls ok R := by
  rw [← List.append_nil ls]
  exact hp.bind (fun _ h => h) fun a ha => Reads.pure (h a ha)

/-! ## Single tokens -/

/-- The next lexeme is looked at and stays. -/
theorem peek {f : Option Lexeme → Parser β} {l : Lexeme} (h : Reads (f (some l)) (l :: ls) ok R) :
    Reads (Parser.peek >>= f) (l :: ls) ok R := by
  intro ts rest hts hrest
  have hhead : (ts ++ rest).head?.map Token.lexeme = some l := by
    rw [head?_append hts, follow_cons]
  show ∃ a, f ((ts ++ rest).head?.map Token.lexeme) (ts ++ rest) = _ ∧ _
  rw [hhead]
  exact h ts rest hts hrest

/-- At the end of the text there is nothing to look at. -/
theorem peekEnd {f : Option Lexeme → Parser β} (h : Reads (f none) [] (· = none) R) :
    Reads (Parser.peek >>= f) [] (· = none) R := by
  intro ts rest hts hrest
  obtain rfl := List.map_eq_nil_iff.1 hts
  show ∃ a, f (rest.head?.map Token.lexeme) rest = _ ∧ _
  rw [hrest]
  exact h [] rest rfl hrest

theorem peekSecond {f : Option Lexeme → Parser β} {l m : Lexeme}
    (h : Reads (f (some m)) (l :: m :: ls) ok R) :
    Reads (Parser.peekSecond >>= f) (l :: m :: ls) ok R := by
  intro ts rest hts hrest
  obtain ⟨t, ts', rfl, -, hts'⟩ := head_eq hts
  obtain ⟨t', ts'', rfl, hm, -⟩ := head_eq hts'
  show ∃ a, f (some t'.lexeme) _ = _ ∧ _
  rw [hm]
  exact h _ rest hts hrest

/-- Whether the next lexeme is the given one shows in the lexemes or in
what comes after them. -/
theorem isNext {f : Bool → Parser β} {l : Lexeme} (b : Bool)
    (hb : ∀ o, ok o → (follow ls o == some l) = b) (h : Reads (f b) ls ok R) :
    Reads (Parser.isNext l >>= f) ls ok R := by
  intro ts rest hts hrest
  show ∃ a, f ((ts ++ rest).head?.map Token.lexeme == some l) (ts ++ rest) = _ ∧ _
  rw [head?_append hts, hb _ hrest]
  exact h ts rest hts hrest

theorem here {f : Option Position → Parser β} (h : ∀ q, Reads (f q) ls ok R) :
    Reads (Parser.here >>= f) ls ok R := by
  intro ts rest hts hrest
  exact h _ ts rest hts hrest

theorem skip {f : Unit → Parser β} {l : Lexeme} (h : Reads (f ()) ls ok R) :
    Reads (Parser.skip >>= f) (l :: ls) ok R := by
  intro ts rest hts hrest
  obtain ⟨t, ts', rfl, -, hts'⟩ := head_eq hts
  exact h ts' rest hts' hrest

theorem take {f : Position → Parser β} {l : Lexeme} (h : ∀ q, Reads (f q) ls ok R) :
    Reads (Parser.take l >>= f) (l :: ls) ok R := by
  intro ts rest hts hrest
  obtain ⟨t, ts', rfl, hl, hts'⟩ := head_eq hts
  obtain ⟨b, hb, hr⟩ := h t.position ts' rest hts' hrest
  refine ⟨b, ?_, hr⟩
  show (Parser.take l (t :: (ts' ++ rest)) >>= fun s => f s.1 s.2) = _
  unfold Parser.take
  dsimp only
  rw [if_pos hl]
  exact hb

theorem name {f : String × Position → Parser β} {n : String} (h : ∀ q, Reads (f (n, q)) ls ok R) :
    Reads (Parser.name >>= f) (.ident n :: ls) ok R := by
  intro ts rest hts hrest
  obtain ⟨⟨l, q⟩, ts', rfl, hl, hts'⟩ := head_eq hts
  obtain rfl : l = .ident n := hl
  exact h q ts' rest hts' hrest

/-- A value that is there already takes nothing. -/
theorem value {f : α → Parser β} {a : α} (h : Reads (f a) ls ok R) :
    Reads ((liftM (Except.ok a : Except Stuck α) : Parser α) >>= f) ls ok R := h

/-- A mark that is there is taken. -/
theorem optionalMark {f : Unit → Parser β} {m : Mark} (h : Reads (f ()) ls ok R) :
    Reads (Parser.optionalMark m >>= f) (.mark m :: ls) ok R := by
  unfold Parser.optionalMark
  rw [bind_assoc]
  refine isNext true (fun o _ => by simp) ?_
  rw [if_pos rfl, bind_assoc]
  refine take fun q => ?_
  rw [pure_bind]
  exact h

/-- A mark that is not there is not missed. -/
theorem noMark {f : Unit → Parser β} {m : Mark} (hm : ∀ o, ok o → notNext (.mark m) (follow ls o))
    (h : Reads (f ()) ls ok R) : Reads (Parser.optionalMark m >>= f) ls ok R := by
  unfold Parser.optionalMark
  rw [bind_assoc]
  refine isNext false (fun o ho => beq_eq_false_iff_ne.2 (hm o ho)) ?_
  rw [if_neg Bool.false_ne_true, pure_bind]
  exact h

/-! ## Lists -/

section Lists

variable {ι : Type} {items : List ι} {lexemes : ι → List Lexeme} {start : Lexeme → Bool}
variable {step : Parser α} {okItem : Option Lexeme → Prop} {P : ι → α → Prop}

/-- The loop reads items as long as its bound lasts, and each item takes
a token off the bound. -/
theorem manyLoop (hstep : ∀ i ∈ items, Reads step (lexemes i) okItem (P i))
    (hstart : ∀ i ∈ items, ∃ l ls, lexemes i = l :: ls ∧ start l = true)
    (hitem : ∀ l, start l = true → okItem (some l))
    (hend : ∀ o, ok o → okItem o ∧ ∀ l, o = some l → start l = false) (bound : List Token)
    (hbound : items.length ≤ bound.length) :
    Reads (Parser.manyLoop start step bound) (items.flatMap lexemes) ok
      (List.Forall₂ P items) := by
  induction items generalizing bound with
  | nil =>
    cases bound with
    | nil => exact pure .nil
    | cons t bound =>
      intro ts rest hts hrest
      obtain rfl := List.map_eq_nil_iff.1 hts
      refine ⟨[], ?_, .nil⟩
      cases rest with
      | nil => rfl
      | cons t rest =>
        show (if start t.lexeme = true then _ else Pure.pure [] : Parser (List α)) (t :: rest) = _
        rw [(hend _ hrest).2 t.lexeme rfl]
        rfl
  | cons i items ih =>
    cases bound with
    | nil => simp at hbound
    | cons t bound =>
      obtain ⟨l, ls, hl, hstartl⟩ := hstart i List.mem_cons_self
      have hloop := ih (fun j hj => hstep j (List.mem_cons_of_mem i hj))
        (fun j hj => hstart j (List.mem_cons_of_mem i hj)) bound (Nat.le_of_succ_le_succ hbound)
      -- After an item comes the next one, or what comes after the last.
      have hnext : ∀ o, ok o → okItem (follow (items.flatMap lexemes) o) := by
        intro o ho
        cases items with
        | nil => exact (hend o ho).1
        | cons j items =>
          obtain ⟨m, ms, hm, hstartm⟩ := hstart j (by simp)
          rw [List.flatMap_cons, hm]
          exact hitem m hstartm
      have hread := (hstep i List.mem_cons_self).bind (f := fun a =>
        Parser.manyLoop start step bound >>= fun as => Pure.pure (a :: as)) hnext
        fun a ha => hloop.map (g := (a :: ·)) fun as has => List.Forall₂.cons ha has
      rw [List.flatMap_cons]
      rw [hl] at hread ⊢
      unfold Parser.manyLoop
      refine peek ?_
      dsimp only
      rw [if_pos hstartl]
      exact hread

/-- **Items one after the other**, each starting with a lexeme that can
start one, up to a lexeme that cannot. -/
theorem many (okItem : Option Lexeme → Prop)
    (hstep : ∀ i ∈ items, Reads step (lexemes i) okItem (P i))
    (hstart : ∀ i ∈ items, ∃ l ls, lexemes i = l :: ls ∧ start l = true)
    (hitem : ∀ l, start l = true → okItem (some l))
    (hend : ∀ o, ok o → okItem o ∧ ∀ l, o = some l → start l = false) :
    Reads (Parser.many start step) (items.flatMap lexemes) ok (List.Forall₂ P items) := by
  intro ts rest hts hrest
  have hlength : items.length ≤ ts.length := by
    rw [← List.length_map (f := Token.lexeme), hts, List.length_flatMap]
    have hone : ∀ n ∈ items.map fun i => (lexemes i).length, 1 ≤ n := by
      intro n hn
      obtain ⟨i, hi, rfl⟩ := List.mem_map.1 hn
      obtain ⟨l, ls, hl, -⟩ := hstart i hi
      rw [hl]
      exact Nat.succ_pos _
    have hsum := List.length_le_sum_of_one_le _ hone
    rwa [List.length_map] at hsum
  refine manyLoop hstep hstart hitem hend (ts ++ rest) ?_ ts rest hts hrest
  rw [List.length_append]
  exact Nat.le_add_right_of_le hlength

/-- **Items with commas between them**, at least one. -/
theorem commaList (hstep : ∀ i ∈ items, Reads step (lexemes i) okItem (P i)) (hne : items ≠ [])
    (hcomma : okItem (some (.mark .comma)))
    (hend : ∀ o, ok o → okItem o ∧ notNext (.mark .comma) o) :
    Reads (Parser.commaList step) (commaSeparated (items.map lexemes)) ok
      (List.Forall₂ P items) := by
  cases items with
  | nil => exact absurd rfl hne
  | cons i items =>
    have hrest : Reads (Parser.many (· == .mark .comma) do let _ ← Parser.mark .comma; step)
        (items.flatMap fun j => .mark .comma :: lexemes j) ok (List.Forall₂ P items) := by
      refine many okItem (fun j hj => ?_) (fun j _ => ⟨_, _, rfl, by simp⟩) ?_ ?_
      · exact take fun _ => hstep j (List.mem_cons_of_mem i hj)
      · intro l hl
        rw [eq_of_beq hl]
        exact hcomma
      · intro o ho
        refine ⟨(hend o ho).1, ?_⟩
        rintro l rfl
        exact beq_eq_false_iff_ne.2 fun e => (hend _ ho).2 (congrArg some e)
    have hnext : ∀ o, ok o →
        okItem (follow (items.flatMap fun j => .mark .comma :: lexemes j) o) := by
      intro o ho
      cases items with
      | nil => exact (hend o ho).1
      | cons j items => exact hcomma
    have hread := (hstep i List.mem_cons_self).bind hnext fun a ha =>
      hrest.map (g := (a :: ·)) fun as has => List.Forall₂.cons (R := P) ha has
    rw [List.map_cons, commaSeparated, List.flatMap_map]
    exact hread

/-- **Items with commas between them and marks around them.** -/
theorem enclosed (left right : Mark) (hright : right ≠ .comma)
    (hstep : ∀ i ∈ items, Reads step (lexemes i) okItem (P i)) (hne : items ≠ [])
    (hcomma : okItem (some (.mark .comma))) (hend : okItem (some (.mark right))) :
    Reads (Parser.enclosed left right step)
      (.mark left :: commaSeparated (items.map lexemes) ++ [Lexeme.mark right]) anything
      (List.Forall₂ P items) := by
  have hitems : Reads (Parser.commaList step) (commaSeparated (items.map lexemes))
      (· = some (.mark right)) (List.Forall₂ P items) := by
    refine commaList hstep hne hcomma fun o ho => ?_
    subst ho
    exact ⟨hend, fun e => hright (Lexeme.mark.inj (Option.some.inj e))⟩
  refine take fun _ => hitems.bind (fun _ _ => rfl) fun as has => ?_
  exact take fun _ => pure has

/-- **Items in parentheses**, which may be none. The first must not look
like the end. -/
theorem parenthesized (hstep : ∀ i ∈ items, Reads step (lexemes i) okItem (P i))
    (hstart : ∀ i ∈ items, ∃ l ls, lexemes i = l :: ls ∧ l ≠ .mark .rightParen)
    (hcomma : okItem (some (.mark .comma))) (hend : okItem (some (.mark .rightParen))) :
    Reads (Parser.parenthesized step) (EmberLang.parenthesized (items.map lexemes)) anything
      (List.Forall₂ P items) := by
  unfold Parser.parenthesized EmberLang.parenthesized
  refine take fun _ => ?_
  cases items with
  | nil =>
    refine isNext true (fun _ _ => rfl) ?_
    dsimp only
    rw [if_pos rfl, pure_bind]
    exact take fun _ => pure .nil
  | cons i items =>
    have hitems : Reads (Parser.commaList step) (commaSeparated ((i :: items).map lexemes))
        (· = some (.mark .rightParen)) (List.Forall₂ P (i :: items)) := by
      refine commaList hstep (List.cons_ne_nil i items) hcomma fun o ho => ?_
      subst ho
      exact ⟨hend, by decide⟩
    obtain ⟨l, ls, hl, hne⟩ := hstart i List.mem_cons_self
    refine isNext false (fun o _ => ?_) ?_
    · rw [List.map_cons, commaSeparated, hl]
      exact beq_eq_false_iff_ne.2 fun e => hne (Option.some.inj e)
    · dsimp only
      rw [if_neg Bool.false_ne_true]
      refine hitems.bind (fun _ _ => rfl) fun as has => ?_
      exact take fun _ => pure has

end Lists

end Reads

end EmberLang.Parser
