import EmberLang.Proofs.Productions
import Mathlib.Order.Filter.AtTopBot.Basic

/-!
# The grammar is read

Whatever the grammar derives, the reader of programs reads, and it builds
the tree that the grammar gives (`Node.Derives.isRead`). A derivation is
followed production by production; the readers of one level take a
production's phrase when the readers of the level further in take its
parts. As the levels are bounded and a derivation is not, the statement is
about all numbers of levels from some number on, that is, about what holds
eventually.

The numerals must not be too long to be read, and the grammar is the one
without the two things that the reader lets pass: a function without a
name whose body is bare takes whatever lists of arguments come after it
into its body, which its derivation need not do.
-/

open EmberLang.Parser (Reads notNext follow anything Level level)
open EmberLang.Production
open Filter (atTop)

namespace EmberLang

theorem eventually_of_succ {P : Nat → Prop} (h : ∀ᶠ k in atTop, P (k + 1)) :
    ∀ᶠ k in atTop, P k := by
  rw [← Filter.map_add_atTop_eq_nat 1]
  exact h

theorem eventually_forall_mem {ι : Type} {items : List ι} {P : ι → Nat → Prop}
    (h : ∀ i ∈ items, ∀ᶠ k in atTop, P i k) : ∀ᶠ k in atTop, ∀ i ∈ items, P i k :=
  (Filter.eventually_all_finite items.finite_toSet).2 h

/-! ## Literals -/

/-- The numerals among the lexemes are short enough to be read. -/
def Legible (ls : List Lexeme) : Prop := ∀ l ∈ ls, l.digitCount ≤ Decimal.maxDigits

namespace Legible

variable {ls ms : List Lexeme} {lss : List (List Lexeme)}

@[simp]
theorem append_iff : Legible (ls ++ ms) ↔ Legible ls ∧ Legible ms := List.forall_mem_append

@[simp]
theorem cons_iff {l : Lexeme} :
    Legible (l :: ls) ↔ l.digitCount ≤ Decimal.maxDigits ∧ Legible ls := List.forall_mem_cons

theorem of_flatten (h : Legible lss.flatten) : ∀ ls ∈ lss, Legible ls :=
  fun ls hls l hl => h l (List.mem_flatten.2 ⟨ls, hls, hl⟩)

theorem of_commaSeparated (h : Legible (commaSeparated lss)) : ∀ ls ∈ lss, Legible ls := by
  cases lss with
  | nil => exact fun _ hls => absurd hls List.not_mem_nil
  | cons first rest =>
    rw [commaSeparated, append_iff] at h
    refine List.forall_mem_cons.2 ⟨h.1, fun ls hls l hl => h.2 l ?_⟩
    exact List.mem_flatMap.2 ⟨ls, hls, List.mem_cons_of_mem _ hl⟩

theorem of_parenthesized {α : Type} {items : List (Spelled α)}
    (h : Legible (parenthesized (spellings items))) : ∀ i ∈ items, Legible i.1 := by
  rw [parenthesized, append_iff, cons_iff] at h
  exact fun i hi => of_commaSeparated h.1.2 i.1 (List.mem_map_of_mem hi)

end Legible

theorem Lexeme.read_literal {l : Lexeme} {v : Literal} (h : l.literal? = some v)
    (hl : Legible [l]) : Parser.literal? l = some (.ok v) := by
  replace hl := hl l List.mem_cons_self
  cases l with
  | int numeral =>
    have hread : Decimal.readDigits numeral = _ := if_pos hl
    rw [Parser.literal?, hread]
    exact congrArg (some ∘ Except.ok) (Option.some.inj h)
  | real numeral => exact congrArg (some ∘ Except.ok) (Option.some.inj h)
  | char inner => exact congrArg (some ∘ Except.ok) (Option.some.inj h)
  | keyword k => cases k <;> first | cases h; rfl | cases h
  | _ => cases h

theorem Lexeme.startsOperand_of_literal {l : Lexeme} {v : Literal} (h : l.literal? = some v) :
    Production.StartsOperand [l] := by
  refine ⟨l, [], rfl, ?_⟩
  cases l with
  | keyword k => cases k <;> first | exact ⟨rfl, by decide⟩ | cases h
  | int numeral => exact ⟨rfl, by simp⟩
  | real numeral => exact ⟨rfl, by simp⟩
  | char inner => exact ⟨rfl, by simp⟩
  | _ => cases h

/-! ## Types and patterns -/

namespace TypeSpec.Derives

variable {ls : List Lexeme} {t : TypeSpec}

theorem starts (h : Derives ls t) : ∃ l ms, ls = l :: ms ∧ l ≠ .mark .rightParen := by
  cases h with
  | named n => exact ⟨_, _, rfl, by simp⟩
  | applied n _ _ => exact ⟨_, _, rfl, by simp⟩
  | unit => exact ⟨_, _, rfl, by decide⟩
  | function _ _ => exact ⟨_, _, rfl, by decide⟩

/-- **A derived type is read.** -/
theorem isRead (h : Derives ls t) :
    ∀ᶠ k in atTop, Reads (level k).typeSpec ls afterName (· = t) := by
  induction h with
  | named n => exact eventually_of_succ (.of_forall fun k => namedType n)
  | applied n nonempty args ih =>
    refine eventually_of_succ ?_
    filter_upwards [eventually_forall_mem ih] with k hargs
    exact (appliedType n nonempty hargs).anywhere
  | unit =>
    exact eventually_of_succ (.of_forall fun k => unitType.anywhere)
  | function params result ihParams ihResult =>
    refine eventually_of_succ ?_
    filter_upwards [eventually_forall_mem ihParams, ihResult] with k hparams hresult
    exact functionType (fun i hi => (params i hi).starts) hparams hresult

end TypeSpec.Derives

namespace Node

section Parts

variable {ls : List Lexeme} {n : Node}

theorem DerivesPattern.starts (h : DerivesPattern ls n) :
    ∃ l ms, ls = l :: ms ∧ l ≠ .mark .rightParen := by
  cases h with
  | wild => exact ⟨_, _, rfl, by simp⟩
  | literal value => exact (Lexeme.startsOperand_of_literal value).startsItems.ne_mark (by decide)
  | var _ => exact ⟨_, _, rfl, by simp⟩
  | constructor _ _ => exact ⟨_, _, rfl, by simp⟩

/-- **A derived pattern is read.** -/
theorem DerivesPattern.isRead (h : DerivesPattern ls n) (hl : Legible ls) :
    ∀ᶠ k in atTop, Reads (level k).pattern ls (notNext (.mark .leftParen)) n.Alike := by
  induction h with
  | wild =>
    exact eventually_of_succ
      (.of_forall fun k => Production.patternWild.anywhere)
  | literal value =>
    exact eventually_of_succ (.of_forall fun k =>
      (Production.patternLit (Lexeme.read_literal value hl)).anywhere)
  | var name => exact eventually_of_succ (.of_forall fun k => Production.patternVar name)
  | constructor name args ih =>
    refine eventually_of_succ ?_
    have hargs := (Legible.cons_iff.1 hl).2.of_parenthesized
    filter_upwards [eventually_forall_mem fun i hi => ih i hi (hargs i hi)] with k hread
    exact (Production.patternCtor name (fun i hi => (args i hi).starts) hread).anywhere

theorem DerivesAfter.colon_isRead (h : DerivesAfter [.colon] ls n) :
    ∀ᶠ k in atTop, Reads (level k).typeAfterColon ls (Production.afterType .colon) (· = n) := by
  cases h with
  | absent => exact .of_forall fun k => noColon.before fun _ ho => ho.2
  | typed mark type =>
    obtain rfl := List.mem_singleton.1 mark
    filter_upwards [type.isRead] with k htype
    exact (colonType htype).before fun _ ho => ho.1

theorem DerivesAfter.result_isRead (h : DerivesAfter [.arrow, .colon] ls n) :
    ∀ᶠ k in atTop, Reads (level k).resultType ls startsFunBody (· = n) := by
  cases h with
  | absent =>
    refine .of_forall fun k => noResultType.before ?_
    rintro o (rfl | rfl) <;> exact ⟨by simp [notNext], by simp [notNext]⟩
  | typed mark type =>
    filter_upwards [type.isRead] with k htype
    refine (resultType mark htype).before ?_
    rintro o (rfl | rfl) <;> simp [notNext]

theorem DerivesParam.starts (h : DerivesParam ls n) :
    ∃ l ms, ls = l :: ms ∧ l ≠ .mark .rightParen := by
  cases h with
  | named n type => exact ⟨_, _, rfl, by simp⟩

theorem DerivesParam.isRead (h : DerivesParam ls n) :
    ∀ᶠ k in atTop, Reads (level k).param ls (Production.afterType .colon) n.Alike := by
  cases h with
  | named n type =>
    filter_upwards [type.colon_isRead] with k htype
    exact Production.param n htype

theorem DerivesConstructor.starts (h : DerivesConstructor ls n) :
    ∃ l ms, ls = l :: ms ∧ l ≠ .mark .bar := by
  cases h <;> exact ⟨_, _, rfl, by simp⟩

theorem DerivesConstructor.isRead (h : DerivesConstructor ls n) :
    ∀ᶠ k in atTop, Reads (level k).constructorDecl ls afterConstructor n.Alike := by
  cases h with
  | plain n => exact .of_forall fun k => plainConstructor n
  | inParens n nonempty fields =>
    filter_upwards [eventually_forall_mem fun i hi => (fields i hi).isRead] with k hfields
    exact (constructorInParens n nonempty hfields).anywhere
  | inBrackets n nonempty fields =>
    filter_upwards [eventually_forall_mem fun i hi => (fields i hi).isRead] with k hfields
    exact (constructorInBrackets n nonempty hfields).anywhere

end Parts

/-! ## Expressions and declarations -/

/-- The keywords that declarations start with. -/
def Phrase.words (foreign : Bool) : List Keyword :=
  if foreign then Level.declarationWords else Level.localWords

/-- What may come after a sequence. -/
def endsSequence (o : Option Lexeme) : Prop :=
  o = some (.keyword .kwEnd) ∨ o = some (.mark .rightBrace)

theorem endsSequence.afterItems {o : Option Lexeme} (h : endsSequence o) :
    Production.afterItems o := by
  rcases h with rfl | rfl
  · exact Production.afterItems_end
  · exact Production.afterItems_rightBrace

/-- **A phrase is read**, given enough levels: it starts as a reader has
to see, and the reader of its kind takes it. Of an expression this is said
with the lists of arguments that may come after it, since the reader of
expressions makes all that stands before a list the callee. -/
def Phrase.IsRead : Phrase → List Lexeme → Node → Prop
  | declaration foreign, ls, n => (∃ w ∈ words foreign, ∃ ms, ls = .keyword w :: ms)
    ∧ ∀ᶠ k in atTop, Reads (level k).declaration ls afterDeclaration n.Alike
  | funBody, ls, n => startsFunBody ls.head?
    ∧ ∀ᶠ k in atTop, Reads (level k).funBody ls afterOperand n.Alike
  | primary, ls, n => StartsOperand ls
    ∧ ∀ᶠ k in atTop, Reads (level k).primary ls anything n.Alike
  | expression, ls, n => StartsOperand ls
    ∧ ∃ calls, ∀ᶠ k in atTop, ∀ r ms ok Q,
      (∀ a, n.Alike a → Reads ((level k).applications r a) ms ok Q) →
      Reads ((level k).primary >>= (level k).applications (r + calls)) (ls ++ ms) ok Q
  | arm, ls, n => (∃ ms, ls = .mark .bar :: ms)
    ∧ ∀ᶠ k in atTop, Reads (level k).arm ls afterOperand n.Alike
  | body bare, ls, n =>
    ∀ᶠ k in atTop, Reads (level k).body ls (fun o => bare → afterOperand o) n.Alike
  | letItem, ls, n => (∃ ms, ls = .keyword .kwLet :: ms)
    ∧ ∀ᶠ k in atTop, Reads (level k).letIn ls endsSequence n.Alike
  | sequence, ls, n => StartsItems ls
    ∧ ∀ᶠ k in atTop, Reads (level k).sequence ls endsSequence n.Alike
  | program, ls, n => ∀ᶠ k in atTop, Reads (Parser.program (level k)) ls (· = none) n.Alike

namespace Phrase.IsRead

variable {ls : List Lexeme} {n : Node} {items : List (Spelled Node)}

/-- Levels enough for the calls of an expression are levels enough for the
expression. -/
theorem expressionIn (h : expression.IsRead ls n) :
    ∀ᶠ k in atTop, Reads (level k).expressionIn ls afterOperand n.Alike := by
  obtain ⟨-, calls, hread⟩ := h
  filter_upwards [hread, Filter.eventually_ge_atTop calls] with k hk hcalls
  have hroom : (level k).room = (k - calls) + calls := by
    rw [Nat.sub_add_cancel hcalls]
    cases k <;> rfl
  show Reads ((level k).primary >>= (level k).applications (level k).room) ls _ _
  rw [hroom, ← List.append_nil ls]
  refine hk _ _ _ _ fun a ha => ?_
  exact (applicationsEnd _ a).mono (fun _ ho => ho) fun b hb => hb ▸ ha

theorem operand (h : expression.IsRead ls n) :
    ∀ᶠ k in atTop, Reads (level k).expression ls afterOperand n.Alike :=
  eventually_of_succ h.expressionIn

theorem arguments (h : ∀ i ∈ items, expression.IsRead i.1 i.2) :
    ∀ᶠ k in atTop, Reads (level k).arguments (parenthesized (spellings items)) anything
      fun as => eraseAll as = eraseAll (trees items) := by
  filter_upwards [eventually_forall_mem fun i hi => (h i hi).operand] with k hitems
  exact Production.arguments (fun i hi => (h i hi).1) hitems

theorem of_primary (h : primary.IsRead ls n) : expression.IsRead ls n := by
  refine ⟨h.1, 0, ?_⟩
  filter_upwards [h.2] with k hread r ms ok Q hrest
  exact hread.bind (fun _ _ => trivial) hrest

theorem call (h : expression.IsRead ls n) (hargs : ∀ i ∈ items, expression.IsRead i.1 i.2) :
    expression.IsRead (ls ++ parenthesized (spellings items)) (call none n (trees items)) := by
  obtain ⟨hstart, calls, hread⟩ := h
  refine ⟨hstart.append _, calls + 1, ?_⟩
  filter_upwards [hread, arguments hargs] with k hk hk' r ms ok Q hrest
  rw [List.append_assoc, ← Nat.add_assoc, Nat.add_right_comm]
  refine hk (r + 1) _ ok Q fun c hc => applicationsCall hk' fun call hcall => hrest call ?_
  exact hcall.trans (congrArg (fun c => Node.call none c _) hc)

end Phrase.IsRead

/-- **Derived phrases are read**, as the trees that are derived. The
induction is on the derivation; each production is the lemma of its name
about the readers of a level, at all levels from some level on. -/
theorem Derives.isRead {phrase : Phrase} {ls : List Lexeme} {n : Node}
    (h : Derives false phrase ls n) (hl : Legible ls) : phrase.IsRead ls n := by
  induction h with
  | externDecl name tps params result =>
    refine ⟨⟨.kwExtern, by decide, _, rfl⟩, ?_⟩
    filter_upwards [(TypeSpec.Derives.function params result).isRead] with k htype
    refine ((Production.externDecl name tps htype).congr ?_).anywhere
    simp
  | dataDecl foreign name tps bar semicolon constructors =>
    refine ⟨⟨.kwData, by cases foreign <;> decide, _, rfl⟩, ?_⟩
    filter_upwards [eventually_forall_mem fun i hi => (constructors i hi).isRead] with k hread
    rw [List.forall_mem_cons] at hread constructors
    exact (Production.dataDecl name tps bar semicolon constructors.1.starts hread.1 hread.2).before
      fun _ ho => ho.2
  | typeDecl foreign name tps type =>
    refine ⟨⟨.kwType, by cases foreign <;> decide, _, rfl⟩, ?_⟩
    filter_upwards [type.isRead] with k htype
    exact (Production.typeDecl name tps htype).anywhere
  | funDecl foreign name tps semicolon params result body ih =>
    simp only [Legible.append_iff] at hl
    obtain ⟨hstart, hbody⟩ := ih hl.1.2
    refine ⟨⟨.kwFun, by cases foreign <;> decide, _, rfl⟩, ?_⟩
    filter_upwards [eventually_forall_mem fun i hi => (params i hi).isRead, result.result_isRead,
      hbody] with k hparams hresult hbody
    exact Production.funDecl name tps semicolon (by simp [notNext])
      (Production.params (fun i hi => (params i hi).starts) hparams) hresult hstart hbody
  | funBraced body ih =>
    simp only [Legible.append_iff, Legible.cons_iff] at hl
    refine ⟨.inl rfl, ?_⟩
    filter_upwards [(ih hl.1.2.2).2] with k hread
    exact (Production.funBraced (.inr rfl) hread).anywhere
  | funEqual body ih =>
    refine ⟨.inr rfl, ?_⟩
    filter_upwards [(ih (Legible.cons_iff.1 hl).2).operand] with k hread
    exact Production.funEqual hread
  | literal value =>
    refine ⟨Lexeme.startsOperand_of_literal value, .of_forall fun k => ?_⟩
    exact Production.literal (Lexeme.read_literal value hl)
  | unit => exact ⟨⟨_, _, rfl, by decide, by decide⟩, .of_forall fun k => Production.unit⟩
  | grouped inner ih =>
    simp only [Legible.append_iff, Legible.cons_iff] at hl
    refine ⟨⟨_, _, rfl, by decide, by decide⟩, ?_⟩
    filter_upwards [(ih hl.1.2).operand] with k hread
    exact Production.grouped (ih hl.1.2).1 hread
  | var name => exact ⟨⟨_, _, rfl, rfl, by simp⟩, .of_forall fun k => Production.var name⟩
  | intrinsicCall op args ih =>
    have hargs := (Legible.cons_iff.1 hl).2.of_parenthesized
    refine ⟨⟨_, _, rfl, rfl, by simp⟩, ?_⟩
    filter_upwards [Phrase.IsRead.arguments fun i hi => ih i hi (hargs i hi)] with k hread
    exact Production.intrinsicCall op hread
  | directiveCall name args ih =>
    have hargs := (Legible.cons_iff.1 hl).2.of_parenthesized
    refine ⟨⟨_, _, rfl, rfl, by simp⟩, ?_⟩
    filter_upwards [Phrase.IsRead.arguments fun i hi => ih i hi (hargs i hi)] with k hread
    exact Production.directiveCall name hread
  | caseOf nonempty scrutinee arms ih ihArms =>
    simp only [Legible.append_iff, Legible.cons_iff] at hl
    have harms := fun i hi => ihArms i hi (hl.1.2.2.of_flatten i.1 (List.mem_map_of_mem hi))
    refine ⟨⟨_, _, rfl, by decide, by decide⟩, ?_⟩
    filter_upwards [(ih hl.1.1.2).operand, eventually_forall_mem fun i hi => (harms i hi).2]
      with k hread hreads
    exact Production.caseOf hread nonempty (fun i hi => (harms i hi).1) hreads
  | lambda params body ih =>
    simp only [Legible.append_iff, Legible.cons_iff] at hl
    refine ⟨⟨_, _, rfl, by decide, by decide⟩, ?_⟩
    filter_upwards [eventually_forall_mem fun i hi => (params i hi).isRead, ih hl.2.2]
      with k hparams hbody
    exact Production.lambda (Production.params (fun i hi => (params i hi).starts) hparams)
      (hbody.before fun _ _ h => absurd h Bool.false_ne_true)
  | grouping body ih =>
    simp only [Legible.append_iff, Legible.cons_iff] at hl
    refine ⟨⟨_, _, rfl, by decide, by decide⟩, ?_⟩
    filter_upwards [(ih hl.1.2).2] with k hread
    exact Production.grouping (.inl rfl) (ih hl.1.2).1 hread
  | block declarations body ihDecls ih =>
    simp only [Legible.append_iff, Legible.cons_iff] at hl
    have hds := fun i hi => ihDecls i hi (hl.1.1.2.of_flatten i.1 (List.mem_map_of_mem hi))
    refine ⟨⟨_, _, rfl, by decide, by decide⟩, ?_⟩
    filter_upwards [eventually_forall_mem fun i hi => (hds i hi).2, (ih hl.1.2.2).2]
      with k hreads hread
    exact Production.block (.inl rfl) (fun i hi => (hds i hi).1) hreads hread
  -- This production is not one of the grammar that the reader follows.
  | letPrimary allowed _ _ => exact absurd allowed Bool.false_ne_true
  | primary only ih => exact (ih hl).of_primary
  | call callee args ih ihArgs =>
    rw [Legible.append_iff] at hl
    exact (ih hl.1).call fun i hi => ihArgs i hi (hl.2.of_parenthesized i hi)
  | arm pattern body ih =>
    simp only [Legible.append_iff, Legible.cons_iff] at hl
    refine ⟨⟨_, rfl⟩, ?_⟩
    filter_upwards [pattern.isRead hl.1.2, ih hl.2.2] with k hpattern hbody
    exact Production.arm hpattern (hbody.before fun _ ho _ => ho)
  | braced body ih =>
    simp only [Legible.append_iff, Legible.cons_iff] at hl
    show ∀ᶠ k in atTop, _
    filter_upwards [(ih hl.1.2).2] with k hread
    exact (Production.bracedBody (.inr rfl) hread).anywhere
  | bare body ih =>
    show ∀ᶠ k in atTop, _
    filter_upwards [(ih hl).operand] with k hread
    exact Production.bareBody (ih hl).1 (hread.before fun _ ho => ho rfl)
  | letItem name type value body ihValue ih =>
    simp only [Legible.append_iff, Legible.cons_iff] at hl
    refine ⟨⟨_, rfl⟩, ?_⟩
    filter_upwards [type.colon_isRead, (ihValue hl.1.2.2).operand, (ih hl.2.2).2]
      with k htype hvalue hbody
    exact Production.letIn name htype hvalue hbody
  | definition only ih =>
    obtain ⟨⟨ms, rfl⟩, hread⟩ := ih hl
    refine ⟨⟨_, _, rfl, by decide⟩, eventually_of_succ ?_⟩
    filter_upwards [hread] with k hread
    exact Production.letSequence hread
  | last semicolon item ih =>
    have hitem := ih (Legible.append_iff.1 hl).1
    -- A sequence reads its items with the readers of the level below.
    refine ⟨(hitem.1.append _).startsItems, eventually_of_succ ?_⟩
    filter_upwards [hitem.expressionIn] with k hread
    cases semicolon with
    | true =>
      refine (Production.lastItemSemicolon hitem.1 hread).before ?_
      rintro o (rfl | rfl) <;> rfl
    | false =>
      refine ((Production.lastItem hitem.1 hread).before ?_).congr ?_
      · exact fun o ho => ho.afterItems
      · exact (List.append_nil _).symm
  | more item rest ih ihRest =>
    rw [Legible.append_iff, Legible.cons_iff] at hl
    have hitem := ih hl.1
    have hrest := ihRest hl.2.2
    refine ⟨(hitem.1.append _).startsItems, eventually_of_succ ?_⟩
    filter_upwards [hitem.expressionIn, hrest.2] with k hread hreads
    exact Production.moreItems hitem.1 hread hrest.1 hreads
  | program declarations body ihDecls ih =>
    simp only [Legible.append_iff, Legible.cons_iff] at hl
    have hds := fun i hi => ihDecls i hi (hl.1.1.2.of_flatten i.1 (List.mem_map_of_mem hi))
    show ∀ᶠ k in atTop, _
    filter_upwards [eventually_forall_mem fun i hi => (hds i hi).2, (ih hl.1.2.2).2]
      with k hreads hread
    exact Production.program (.inl rfl) (fun i hi => (hds i hi).1) hreads hread

end Node

end EmberLang
