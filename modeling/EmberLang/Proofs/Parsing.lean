import EmberLang.Proofs.Nesting
import EmberLang.Proofs.Printing
import EmberLang.Proofs.Productions

/-!
# The lexemes of a tree read as the tree

The printer writes an expression bare, in braces or between `begin` and
`end`, depending on its place. So that an expression reads back is said of
all places at once (`Node.ReadsBack`) and proved for one form of
expression after the other. How a phrase is read if its parts are is said
by the productions; what remains is that the parts of a printed phrase are
such parts, and that the levels are enough for them.
-/

open EmberLang.Parser (Reads notNext anything level)
open EmberLang.Production (afterName afterType afterItems)

namespace EmberLang

theorem Name.eq_word_of_isIdent {n : Name} (h : n.isIdent = true) : n = .word n.text := by
  cases n with
  | word s => rfl
  | other j => cases h

theorem Name.exists_words {names : List Name} (h : names.all Name.isIdent = true) :
    ∃ words : List String, names = words.map Name.word := by
  refine ⟨names.map Name.text, ?_⟩
  conv_lhs => rw [← List.map_id names]
  rw [List.map_map]
  exact List.map_congr_left fun n hn => eq_word_of_isIdent (List.all_eq_true.1 h n hn)

/-! ## Types -/

namespace TypeSpec

/-- No type starts with a closing mark. -/
theorem lexemes_cons {t : TypeSpec} (h : t.isWritten = true) :
    ∃ l ls, t.lexemes = l :: ls ∧ l ≠ .mark .rightParen := by
  cases t with
  | mk kind args =>
    rw [lexemes]
    split_ifs
    · exact ⟨_, _, rfl, by decide⟩
    · exact ⟨_, _, rfl, by decide⟩
    · exact ⟨_, _, rfl, by simp [Name.lexeme]⟩
    · exact ⟨_, _, rfl, by simp [Name.lexeme]⟩

/-- The lexemes of a function type. -/
theorem lexemes_function (params : List TypeSpec) (result : TypeSpec) :
    (function params result).lexemes
      = .keyword .kwFun :: parenthesized (params.map lexemes)
        ++ .mark .arrow :: result.lexemes := by
  rw [function, lexemes, if_pos (by rfl), lexemesAll_eq_map, List.map_append, List.map_singleton,
    List.dropLast_concat, List.getLastD_concat]

theorem reads_function {inner : Parser TypeSpec} {params : List TypeSpec} {result : TypeSpec}
    (hparams : ∀ t ∈ params, t.isWritten = true ∧ Reads inner t.lexemes afterName (· = t))
    (hresult : Reads inner result.lexemes afterName (· = result)) :
    Reads (Parser.typeSpecIn inner) (function params result).lexemes afterName
      (· = function params result) := by
  have hread := Production.functionType (fun t ht => lexemes_cons (hparams t ht).1)
    (fun t ht => (hparams t ht).2) hresult
  rw [List.map_id'] at hread
  exact hread.congr (lexemes_function params result).symm

theorem reads_applied {inner : Parser TypeSpec} {kind : Name} {args : List TypeSpec}
    (hkind : kind.isIdent = true)
    (hargs : ∀ t ∈ args, Reads inner t.lexemes afterName (· = t)) :
    Reads (Parser.typeSpecIn inner) (mk kind args).lexemes afterName (· = mk kind args) := by
  have hfun := Name.isWord_eq_false hkind (s := "fun") (by decide)
  have hunit := Name.isWord_eq_false hkind (s := "()") (by decide)
  rw [lexemes, if_neg (by simp [hfun]), if_neg (by simp [hunit]), lexemesAll_eq_map]
  obtain ⟨s, rfl⟩ : ∃ s, kind = .word s := ⟨_, Name.eq_word_of_isIdent hkind⟩
  cases args with
  | nil => exact Production.namedType s
  | cons t ts =>
    have hread := Production.appliedType s (List.cons_ne_nil t ts) hargs
    rw [List.map_id'] at hread
    exact hread.anywhere

mutual

/-- **The lexemes of a type read as the type**, given a level for each
step into it. -/
theorem lexemes_read (t : TypeSpec) (h : t.isWritten = true) (k : Nat) (hk : t.depth ≤ k) :
    Reads (level k).typeSpec t.lexemes afterName (· = t) := by
  cases t with
  | mk kind args =>
    cases k with
    | zero => simp [depth] at hk
    | succ k =>
      rw [depth] at hk
      rw [isWritten, Bool.or_eq_true, Bool.or_eq_true, Bool.and_eq_true, Bool.and_eq_true,
        Bool.and_eq_true, Bool.and_eq_true] at h
      rcases h with (⟨hunit, hargs⟩ | ⟨⟨hfun, hne⟩, hargs⟩) | ⟨hident, hargs⟩
      · obtain rfl := Name.eq_of_isWord hunit
        obtain rfl := List.isEmpty_iff.1 hargs
        exact Production.unitType.anywhere
      · obtain rfl := Name.eq_of_isWord hfun
        have hinner := lexemesAll_read args hargs k (by omega)
        rcases List.eq_nil_or_concat' args with rfl | ⟨params, result, rfl⟩
        · cases hne
        · rw [areWritten_iff] at hargs
          refine reads_function (fun t ht => ?_) (hinner result (by simp))
          exact ⟨hargs t (List.mem_append_left _ ht), hinner t (List.mem_append_left _ ht)⟩
      · exact reads_applied hident (lexemesAll_read args hargs k (by omega))

theorem lexemesAll_read (ts : List TypeSpec) (h : areWritten ts = true) (k : Nat)
    (hk : depthAll ts ≤ k) :
    ∀ t ∈ ts, Reads (level k).typeSpec t.lexemes afterName (· = t) := by
  cases ts with
  | nil => simp
  | cons t ts =>
    rw [areWritten, Bool.and_eq_true] at h
    rw [depthAll] at hk
    have hfirst := lexemes_read t h.1 k (by omega)
    have hrest := lexemesAll_read ts h.2 k (by omega)
    exact List.forall_mem_cons.2 ⟨hfirst, hrest⟩

end

end TypeSpec

theorem Literal.lexeme_ne_mark (v : Literal) (m : Mark) : v.lexeme ≠ .mark m := by
  cases v <;> exact nofun

namespace Node

open EmberLang.Parser (Level)

/-! ## Parts of declarations -/

section Parts

variable {n : Node} {k : Nat}

theorem typeSpecs_of_isType {ns : List Node} (h : ns.all isType = true) :
    ∃ ts : List TypeSpec, ns = ts.map typeSpec ∧ TypeSpec.areWritten ts = true := by
  induction ns with
  | nil => exact ⟨[], rfl, rfl⟩
  | cons n ns ih =>
    rw [List.all_cons, Bool.and_eq_true] at h
    obtain ⟨ts, rfl, hts⟩ := ih h.2
    cases n with
    | typeSpec t => exact ⟨t :: ts, rfl, by rw [TypeSpec.areWritten, hts, Bool.and_true]; exact h.1⟩
    | _ => cases h.1

theorem typeAfterColon_reads (h : n.isOptionalType = true) (hk : n.typeDepth ≤ k) :
    Reads (level k).typeAfterColon (n.lexemesAfter .colon) (afterType .colon) (· = n) := by
  cases n with
  | typeSpec t =>
    exact (Production.colonType (t.lexemes_read h k hk)).before fun _ ho => ho.1
  | atom a =>
    cases a with
    | null => exact Production.noColon.before fun _ ho => ho.2
    | _ => cases h
  | _ => cases h

theorem param_reads (h : n.isParam = true) (hk : n.paramDepth ≤ k) :
    Reads (level k).param n.paramLexemes (afterType .colon) n.Alike := by
  cases n with
  | param p name t =>
    rw [isParam, Bool.and_eq_true] at h
    obtain ⟨s, rfl⟩ : ∃ s, name = .word s := ⟨_, Name.eq_word_of_isIdent h.1⟩
    exact Production.param s (typeAfterColon_reads h.2 hk)
  | _ => cases h

theorem paramLexemes_cons (h : n.isParam = true) :
    ∃ l ls, n.paramLexemes = l :: ls ∧ l ≠ .mark .rightParen := by
  cases n with
  | param q m t => exact ⟨_, _, rfl, nofun⟩
  | _ => cases h

theorem params_read {params : List Node} (h : params.all isParam = true)
    (hk : maxDepth paramDepth params ≤ k) :
    Reads (Parser.parenthesized (level k).param) (parenthesized (params.map paramLexemes))
      anything fun as => eraseAll as = eraseAll params := by
  rw [List.all_eq_true] at h
  rw [maxDepth_le_iff] at hk
  have hread := Production.params (fun n hn => paramLexemes_cons (h n hn))
    fun n hn => param_reads (h n hn) (hk n hn)
  rw [List.map_id'] at hread
  exact hread

theorem constructorLexemes_cons (h : n.isConstructorDecl = true) :
    ∃ l ls, n.constructorLexemes = l :: ls ∧ l ≠ .mark .bar := by
  cases n with
  | constructorDecl p name fieldTypes =>
    rw [constructorLexemes]
    split <;> exact ⟨_, _, rfl, by simp [Name.lexeme]⟩
  | _ => cases h

theorem constructorLexemes_read (h : n.isConstructorDecl = true) (hk : n.constructorDepth ≤ k) :
    Reads (level k).constructorDecl n.constructorLexemes (afterType .leftParen) n.Alike := by
  cases n with
  | constructorDecl p name fieldTypes =>
    rw [isConstructorDecl, Bool.and_eq_true] at h
    rw [constructorDepth, maxDepth_le_iff] at hk
    obtain ⟨s, rfl⟩ : ∃ s, name = .word s := ⟨_, Name.eq_word_of_isIdent h.1⟩
    obtain ⟨ts, rfl, hts⟩ := typeSpecs_of_isType h.2
    cases ts with
    | nil => exact Production.plainConstructor s
    | cons t ts =>
      have hfields : ∀ u ∈ t :: ts, Reads (level k).typeSpec u.lexemes afterName (· = u) :=
        fun u hu => u.lexemes_read (TypeSpec.areWritten_iff.1 hts u hu) k
          (hk (typeSpec u) (List.mem_map_of_mem hu))
      have hread := Production.constructorInParens s (List.cons_ne_nil t ts) hfields
      rw [List.map_id'] at hread
      refine hread.anywhere.congr ?_
      rw [constructorLexemes, if_neg (by simp), List.map_map]
      rfl
  | _ => cases h

end Parts

/-! ## Patterns -/

/-- **A vocabulary whose lexemes read back**: its literals do, and it has
no constructors. -/
structure Vocabulary.Readable (V : Vocabulary) : Prop where
  /-- The lexeme of a literal is the literal. -/
  literal : ∀ v, V.literal v = true → Parser.literal? v.lexeme = some (.ok v)
  /-- There are no constructors. -/
  construct : ∀ c, V.construct c = false

variable {V : Vocabulary}

theorem patternLexemes_cons {n : Node} (h : n.isPattern V = true) :
    ∃ l ls, n.patternLexemes = l :: ls ∧ l ≠ .mark .rightParen := by
  cases n with
  | patternWild p => exact ⟨_, _, rfl, nofun⟩
  | patternVar p name => exact ⟨_, _, rfl, nofun⟩
  | patternLit p v => exact ⟨_, _, rfl, v.lexeme_ne_mark _⟩
  | patternCtor p c args => exact ⟨_, _, rfl, nofun⟩
  | _ => cases h

theorem text_ne_wild {s : String} (h : (!(Name.word s).isWord "_") = true) :
    (Name.word s).text ≠ "_" := by
  rw [Bool.not_eq_true'] at h
  exact ne_of_beq_false h

mutual

/-- **The lexemes of a pattern read as the pattern.** -/
theorem patternLexemes_read (hV : V.Readable) (n : Node) (h : n.isPattern V = true) (k : Nat)
    (hk : n.patternDepth ≤ k) :
    Reads (level k).pattern n.patternLexemes (notNext (.mark .leftParen)) n.Alike := by
  cases k with
  | zero => cases n <;> simp [patternDepth] at hk
  | succ k =>
    cases n with
    | patternWild p => exact Production.patternWild.anywhere
    | patternVar p name =>
      rw [isPattern, Bool.and_eq_true] at h
      obtain ⟨s, rfl⟩ : ∃ s, name = .word s := ⟨_, Name.eq_word_of_isIdent h.1⟩
      exact Production.patternVar (text_ne_wild h.2)
    | patternLit p v =>
      exact (Production.patternLit (hV.literal v h)).anywhere
    | patternCtor p c args =>
      rw [isPattern, Bool.and_eq_true, Bool.and_eq_true] at h
      rw [patternDepth] at hk
      obtain ⟨s, rfl⟩ : ∃ s, c = .word s := ⟨_, Name.eq_word_of_isIdent h.1.1⟩
      have hread := Production.patternCtor (text_ne_wild h.1.2)
        (fun n hn => patternLexemes_cons (arePatterns_iff.1 h.2 n hn))
        (patternsLexemes_read hV args h.2 k (by omega))
      rw [List.map_id'] at hread
      rw [patternLexemes, patternsLexemes_eq_map]
      exact hread.anywhere
    | _ => cases h

theorem patternsLexemes_read (hV : V.Readable) (ns : List Node) (h : arePatterns V ns = true)
    (k : Nat) (hk : patternsDepth ns ≤ k) :
    ∀ n ∈ ns, Reads (level k).pattern n.patternLexemes (notNext (.mark .leftParen)) n.Alike := by
  cases ns with
  | nil => simp
  | cons n ns =>
    rw [arePatterns, Bool.and_eq_true] at h
    rw [patternsDepth] at hk
    have hfirst := patternLexemes_read hV n h.1 k (by omega)
    have hrest := patternsLexemes_read hV ns h.2 k (by omega)
    exact List.forall_mem_cons.2 ⟨hfirst, hrest⟩

end

/-! ## Expressions in their places -/

/-- **An expression reads back in every place**: as an operand, as the
items of a sequence, as a body, and as the first part of a row of
calls. -/
structure ReadsBack (n : Node) : Prop where
  /-- An operand starts with a lexeme that can start an expression and
  that is not the start of a local definition. -/
  starts : ∃ l ls, n.lexemes .operand = l :: ls ∧ Level.startsExpression l = true
    ∧ l ≠ .keyword .kwLet
  /-- A sequence starts with a lexeme that can start an expression. -/
  itemsStart : ∃ l ls, n.lexemes .items = l :: ls ∧ Level.startsExpression l = true
  /-- As a callee it is read first, and then the lists of arguments are,
  those of its own calls included. -/
  callee : ∀ {k r : Nat} {ms : List Lexeme} {ok : Option Lexeme → Prop} {Q : Node → Prop},
    n.calleeDepth (n.depth .operand) ≤ k + 1 →
    (∀ a, n.Alike a → Reads ((level k).applications r a) ms ok Q) →
    Reads ((level k).primary >>= (level k).applications (n.spine + r))
      (calleeLexemes n (n.lexemes .operand) ++ ms) ok Q
  /-- As an operand. -/
  operand : ∀ {k : Nat}, n.depth .operand ≤ k →
    Reads (level k).expression (n.lexemes .operand) (notNext (.mark .leftParen)) n.Alike
  /-- As the items of a sequence. -/
  items : ∀ {k : Nat}, n.depth .items ≤ k →
    Reads (level k).sequence (n.lexemes .items) afterItems n.Alike
  /-- As a body. -/
  body : ∀ {k : Nat}, n.depth .body ≤ k →
    Reads (level k).body (n.lexemes .body) (notNext (.mark .leftParen)) n.Alike

theorem room_level (k : Nat) : (level k).room = k := by cases k <;> rfl

namespace ReadsBack

variable {n : Node}

theorem arguments_read {args : List Node} (h : ∀ a ∈ args, a.ReadsBack) {k : Nat}
    (hk : depthAll args ≤ k) :
    Reads (level k).arguments (parenthesized (lexemesAll args)) anything
      fun as => eraseAll as = eraseAll args := by
  rw [depthAll_eq_maxDepth, maxDepth_le_iff] at hk
  rw [lexemesAll_eq_map]
  have hread := Production.arguments (fun a ha => (h a ha).starts)
    fun a ha => (h a ha).operand (hk a ha)
  rw [List.map_id'] at hread
  exact hread

/-- What is no call is read by the reader of what is no call. -/
theorem callee_of_primary (hspine : n.spine = 0) {k r : Nat} {ms : List Lexeme}
    {ok : Option Lexeme → Prop} {Q : Node → Prop}
    (hprimary : Reads (level k).primary (calleeLexemes n (n.lexemes .operand)) anything n.Alike)
    (hr : ∀ a, n.Alike a → Reads ((level k).applications r a) ms ok Q) :
    Reads ((level k).primary >>= (level k).applications (n.spine + r))
      (calleeLexemes n (n.lexemes .operand) ++ ms) ok Q := by
  rw [hspine, Nat.zero_add]
  exact hprimary.bind (fun _ _ => trivial) hr

theorem items_of_operand (hlexemes : n.lexemes .items = n.lexemes .operand)
    (hdepth : n.depth .items = n.depth .operand)
    (hstarts : ∃ l ls, n.lexemes .operand = l :: ls ∧ Level.startsExpression l = true
      ∧ l ≠ .keyword .kwLet)
    (hoperand : ∀ {k : Nat}, n.depth .operand ≤ k →
      Reads (level k).expression (n.lexemes .operand) (notNext (.mark .leftParen)) n.Alike)
    {k : Nat} (hk : n.depth .items ≤ k) :
    Reads (level k).sequence (n.lexemes .items) afterItems n.Alike := by
  rw [hdepth] at hk
  rw [hlexemes]
  have hpos := depth_pos .operand n
  cases k with
  | zero => omega
  | succ k => exact Production.lastItem hstarts (hoperand hk)

theorem body_of_operand (hlexemes : n.lexemes .body = n.lexemes .operand)
    (hdepth : n.depth .body = n.depth .operand)
    (hstarts : ∃ l ls, n.lexemes .operand = l :: ls ∧ Level.startsExpression l = true
      ∧ l ≠ .keyword .kwLet)
    (hoperand : ∀ {k : Nat}, n.depth .operand ≤ k →
      Reads (level k).expression (n.lexemes .operand) (notNext (.mark .leftParen)) n.Alike)
    {k : Nat} (hk : n.depth .body ≤ k) :
    Reads (level k).body (n.lexemes .body) (notNext (.mark .leftParen)) n.Alike := by
  rw [hdepth] at hk
  rw [hlexemes]
  exact Production.bareBody hstarts (hoperand hk)

/-- The first part of a row of calls that ends there is an operand. -/
theorem operand_of_callee (hspine : n.spine < n.depth .operand)
    (hcallee : ∀ {k r : Nat}, n.depth .operand ≤ k + 1 →
      Reads ((level k).primary >>= (level k).applications (n.spine + r)) (n.lexemes .operand)
        (notNext (.mark .leftParen)) n.Alike)
    {k : Nat} (hk : n.depth .operand ≤ k) :
    Reads (level k).expression (n.lexemes .operand) (notNext (.mark .leftParen)) n.Alike := by
  cases k with
  | zero => omega
  | succ k =>
    show Reads ((level k).primary >>= (level k).applications (level k).room) _ _ _
    rw [room_level, show k = n.spine + (k - n.spine) by omega]
    exact hcallee (by omega)

theorem operand_of_primary (hspine : n.spine = 0)
    {ok : Option Lexeme → Prop} (hok : ∀ o, notNext (.mark .leftParen) o → ok o)
    (hprimary : ∀ {k : Nat}, n.depth .operand ≤ k + 1 →
      Reads (level k).primary (n.lexemes .operand) ok n.Alike)
    {k : Nat} (hk : n.depth .operand ≤ k) :
    Reads (level k).expression (n.lexemes .operand) (notNext (.mark .leftParen)) n.Alike := by
  refine operand_of_callee (hspine ▸ depth_pos .operand n) (fun {k r} hk => ?_) hk
  rw [hspine, Nat.zero_add, ← List.append_nil (n.lexemes .operand)]
  refine (hprimary hk).bind hok fun a ha => ?_
  exact (Production.applicationsEnd r a).mono (fun _ ho => ho) fun b hb => hb ▸ ha

/-- **What reads back as what is no call reads back in every place**, if
it is written the same way everywhere. -/
theorem of_primary (hlexemes : ∀ place, n.lexemes place = n.lexemes .operand)
    (hdepth : ∀ place, n.depth place = n.depth .operand)
    (hcalleeLexemes : calleeLexemes n (n.lexemes .operand) = n.lexemes .operand)
    (hcalleeDepth : n.calleeDepth (n.depth .operand) = n.depth .operand) (hspine : n.spine = 0)
    (hstarts : ∃ l ls, n.lexemes .operand = l :: ls ∧ Level.startsExpression l = true
      ∧ l ≠ .keyword .kwLet)
    (hprimary : ∀ {k : Nat}, n.depth .operand ≤ k + 1 →
      Reads (level k).primary (n.lexemes .operand) anything n.Alike) : n.ReadsBack := by
  have hoperand : ∀ {k : Nat}, n.depth .operand ≤ k →
      Reads (level k).expression (n.lexemes .operand) (notNext (.mark .leftParen)) n.Alike :=
    operand_of_primary hspine (fun _ _ => trivial) hprimary
  refine ⟨hstarts, ?_, ?_, hoperand, ?_, ?_⟩
  · obtain ⟨l, ls, hl, hexpression, -⟩ := hstarts
    exact ⟨l, ls, (hlexemes .items).trans hl, hexpression⟩
  · intro k r ms ok Q hk hr
    rw [hcalleeDepth] at hk
    exact callee_of_primary hspine ((hprimary hk).congr hcalleeLexemes.symm) hr
  · exact items_of_operand (hlexemes .items) (hdepth .items) hstarts hoperand
  · exact body_of_operand (hlexemes .body) (hdepth .body) hstarts hoperand

/-- **A sequence that reads back reads back in every place**, bare, in
braces or between `begin` and `end`. -/
theorem of_items
    (hoperandLexemes : n.lexemes .operand = Place.around (n.lexemes .items) .operand)
    (hbodyLexemes : n.lexemes .body = Place.around (n.lexemes .items) .body)
    (hoperandDepth : n.depth .operand = 1 + n.depth .items)
    (hbodyDepth : n.depth .body = n.depth .items)
    (hcalleeLexemes : calleeLexemes n (n.lexemes .operand) = n.lexemes .operand)
    (hcalleeDepth : n.calleeDepth (n.depth .operand) = n.depth .operand) (hspine : n.spine = 0)
    (hstarts : ∃ l ls, n.lexemes .items = l :: ls ∧ Level.startsExpression l = true)
    (hitems : ∀ {k : Nat}, n.depth .items ≤ k →
      Reads (level k).sequence (n.lexemes .items) afterItems n.Alike) : n.ReadsBack := by
  have hprimary : ∀ {k : Nat}, n.depth .operand ≤ k + 1 →
      Reads (level k).primary (n.lexemes .operand) anything n.Alike := by
    intro k hk
    have hread := hitems (k := k) (by omega)
    rw [hoperandLexemes]
    exact Production.grouping Production.afterItems_end hstarts hread
  have hoperand : ∀ {k : Nat}, n.depth .operand ≤ k →
      Reads (level k).expression (n.lexemes .operand) (notNext (.mark .leftParen)) n.Alike :=
    operand_of_primary hspine (fun _ _ => trivial) hprimary
  refine ⟨?_, hstarts, ?_, hoperand, hitems, ?_⟩
  · exact ⟨_, _, hoperandLexemes, by decide, by decide⟩
  · intro k r ms ok Q hk hr
    rw [hcalleeDepth] at hk
    exact callee_of_primary hspine ((hprimary hk).congr hcalleeLexemes.symm) hr
  · intro k hk
    have hread := hitems (k := k) (by omega)
    rw [hbodyLexemes]
    exact (Production.bracedBody Production.afterItems_rightBrace hread).anywhere

/-! ## The forms of expressions -/

theorem literal_readsBack (hV : V.Readable) {p : Option Position} {v : Literal}
    (h : V.literal v = true) : (literal p v).ReadsBack := by
  refine of_primary (fun _ => rfl) (fun _ => rfl) rfl rfl rfl ?_ ?_
  · refine ⟨_, _, rfl, ?_⟩
    cases v with
    | bool b => cases b <;> exact ⟨rfl, nofun⟩
    | _ => exact ⟨rfl, nofun⟩
  · exact fun _ => Production.literal (hV.literal v h)

theorem unit_readsBack (p : Option Position) : (unit p).ReadsBack := by
  refine of_primary (fun _ => rfl) (fun _ => rfl) rfl rfl rfl ?_ ?_
  · exact ⟨_, _, rfl, rfl, nofun⟩
  · exact fun _ => Production.unit

theorem var_readsBack (p : Option Position) {name : Name} (h : name.isIdent = true) :
    (var p name).ReadsBack := by
  obtain ⟨s, rfl⟩ : ∃ s, name = .word s := ⟨_, Name.eq_word_of_isIdent h⟩
  refine of_primary (fun _ => rfl) (fun _ => rfl) rfl rfl rfl ?_ ?_
  · exact ⟨_, _, rfl, rfl, nofun⟩
  · exact fun _ => Production.var s

theorem eq_word_of_isSigilName {name : Name} (h : name.isSigilName = true) :
    name = .word name.text := by
  cases name with
  | word s => rfl
  | other j => cases h

theorem intrinsicCall_readsBack (p : Option Position) {op : Name} {args : List Node}
    (h : op.isSigilName = true) (hargs : ∀ a ∈ args, a.ReadsBack) :
    (intrinsicCall p op args).ReadsBack := by
  obtain ⟨s, rfl⟩ : ∃ s, op = .word s := ⟨_, eq_word_of_isSigilName h⟩
  refine of_primary (fun _ => rfl) (fun _ => rfl) rfl rfl rfl ?_ ?_
  · exact ⟨_, _, rfl, rfl, nofun⟩
  · intro k hk
    rw [depth] at hk
    exact Production.intrinsicCall s (arguments_read hargs (by omega))

theorem directiveCall_readsBack (p : Option Position) {name : Name} {args : List Node}
    (h : name.isSigilName = true) (hargs : ∀ a ∈ args, a.ReadsBack) :
    (directiveCall p name args).ReadsBack := by
  obtain ⟨s, rfl⟩ : ∃ s, name = .word s := ⟨_, eq_word_of_isSigilName h⟩
  refine of_primary (fun _ => rfl) (fun _ => rfl) rfl rfl rfl ?_ ?_
  · exact ⟨_, _, rfl, rfl, nofun⟩
  · intro k hk
    rw [depth] at hk
    exact Production.directiveCall s (arguments_read hargs (by omega))

theorem call_readsBack (p : Option Position) {c : Node} {args : List Node} (hc : c.ReadsBack)
    (hargs : ∀ a ∈ args, a.ReadsBack) : (call p c args).ReadsBack := by
  -- Calls nest to the left, but the reader loops. So the callee is read before
  -- one argument list more than was asked for.
  have hcallee : ∀ {k r : Nat} {ms : List Lexeme} {ok : Option Lexeme → Prop} {Q : Node → Prop},
      (call p c args).depth .operand ≤ k + 1 →
      (∀ a, (call p c args).Alike a → Reads ((level k).applications r a) ms ok Q) →
      Reads ((level k).primary >>= (level k).applications ((call p c args).spine + r))
        ((call p c args).lexemes .operand ++ ms) ok Q := by
    intro k r ms ok Q hk hr
    rw [depth] at hk
    rw [lexemes, spine, List.append_assoc, Nat.add_assoc, Nat.add_comm 1 r]
    refine hc.callee (by omega) fun c' hc' => ?_
    refine Production.applicationsCall (arguments_read hargs (by omega)) fun a ha => hr a ?_
    exact ha.trans (congrArg (fun c => call none c _) hc')
  have hstarts : ∃ l ls, (call p c args).lexemes .operand = l :: ls
      ∧ Level.startsExpression l = true ∧ l ≠ .keyword .kwLet := by
    obtain ⟨l, ls, hl, hstarts⟩ := hc.starts
    rw [lexemes, hl]
    unfold calleeLexemes
    split
    · exact ⟨_, _, rfl, rfl, by rintro ⟨⟩⟩
    · exact ⟨_, _, rfl, hstarts⟩
  have hoperand : ∀ {k : Nat}, (call p c args).depth .operand ≤ k →
      Reads (level k).expression ((call p c args).lexemes .operand)
        (notNext (.mark .leftParen)) (call p c args).Alike := by
    refine operand_of_callee (by rw [depth, spine]; omega) fun {k r} hk => ?_
    rw [← List.append_nil ((call p c args).lexemes .operand)]
    refine hcallee hk fun a ha => ?_
    exact (Production.applicationsEnd r a).mono (fun _ ho => ho) fun b hb => hb ▸ ha
  refine ⟨hstarts, ?_, hcallee, hoperand, ?_, ?_⟩
  · obtain ⟨l, ls, hl, hexpression, -⟩ := hstarts
    exact ⟨l, ls, hl, hexpression⟩
  · exact items_of_operand rfl rfl hstarts hoperand
  · exact body_of_operand rfl rfl hstarts hoperand

/-- The parameters of a function without a name have no types. -/
theorem untyped_params {params : List Name} (h : params.all Name.isIdent = true) :
    (params.map fun n => param none n absent).all isParam = true
      ∧ maxDepth paramDepth (params.map fun n => param none n absent) = 0
      ∧ (params.map fun n => param none n absent).filterMap name? = params := by
  induction params with
  | nil => exact ⟨rfl, rfl, rfl⟩
  | cons n ns ih =>
    rw [List.all_cons, Bool.and_eq_true] at h
    obtain ⟨hparam, hdepth, hnames⟩ := ih h.2
    refine ⟨?_, ?_, ?_⟩
    · rw [List.map_cons, List.all_cons, hparam, isParam, h.1]
      rfl
    · rw [List.map_cons, maxDepth, hdepth]
      rfl
    · rw [List.map_cons, List.filterMap_cons, hnames]
      rfl

theorem lambda_readsBack (p : Option Position) {params : List Name} {b : Node}
    (h : params.all Name.isIdent = true) (hb : b.ReadsBack) : (lambda p params b).ReadsBack := by
  have hprimary : ∀ {k : Nat}, (lambda p params b).depth .operand ≤ k + 1 →
      Reads (level k).primary ((lambda p params b).lexemes .operand)
        (notNext (.mark .leftParen)) (lambda p params b).Alike := by
    intro k hk
    rw [depth] at hk
    obtain ⟨hparams, hdepth, hnames⟩ := untyped_params h
    have hread := Production.lambda (params_read (k := k) hparams (by omega)) (hb.body (by omega))
    rw [hnames, List.map_map] at hread
    exact hread
  have hstarts : ∃ l ls, (lambda p params b).lexemes .operand = l :: ls
      ∧ Level.startsExpression l = true ∧ l ≠ .keyword .kwLet := ⟨_, _, rfl, rfl, by rintro ⟨⟩⟩
  have hoperand : ∀ {k : Nat}, (lambda p params b).depth .operand ≤ k →
      Reads (level k).expression ((lambda p params b).lexemes .operand)
        (notNext (.mark .leftParen)) (lambda p params b).Alike :=
    operand_of_primary rfl (fun _ ho => ho) hprimary
  refine ⟨hstarts, ⟨_, _, rfl, rfl⟩, ?_, hoperand, ?_, ?_⟩
  · intro k r ms ok Q hk hr
    refine callee_of_primary rfl ?_ hr
    rw [calleeDepth] at hk
    exact Production.grouped hstarts (hoperand (by omega))
  · exact items_of_operand rfl rfl hstarts hoperand
  · exact body_of_operand rfl rfl hstarts hoperand

theorem letIn_readsBack (p : Option Position) {name : Name} {value b t : Node}
    (h : name.isIdent = true) (ht : t.isOptionalType = true) (hvalue : value.ReadsBack)
    (hb : b.ReadsBack) : (letIn p name value b t).ReadsBack := by
  obtain ⟨s, rfl⟩ : ∃ s, name = .word s := ⟨_, Name.eq_word_of_isIdent h⟩
  refine of_items rfl rfl rfl rfl rfl rfl rfl ⟨_, _, rfl, rfl⟩ fun {k} hk => ?_
  rw [depth, Place.depth] at hk
  cases k with
  | zero => omega
  | succ k =>
    exact Production.letSequence (Production.letIn s (typeAfterColon_reads ht (by omega))
      (hvalue.operand (by omega)) (hb.items (by omega)))

theorem seq_readsBack (p : Option Position) {first rest : Node} (hfirst : first.ReadsBack)
    (hrest : rest.ReadsBack) : (seq p first rest).ReadsBack := by
  obtain ⟨l, ls, hl, hexpression, hlet⟩ := hfirst.starts
  have hlexemes : (seq p first rest).lexemes .items
      = first.lexemes .operand ++ .mark .semicolon :: rest.lexemes .items := rfl
  refine of_items rfl rfl rfl rfl rfl rfl rfl ?_ fun {k} hk => ?_
  · rw [hlexemes, hl]
    exact ⟨_, _, rfl, hexpression⟩
  · rw [depth, Place.depth] at hk
    cases k with
    | zero => omega
    | succ k =>
      exact Production.moreItems hfirst.starts (hfirst.operand (k := k + 1) (by omega))
        hrest.itemsStart (hrest.items (by omega))

/-! ### Cases -/

theorem arm_reads (hV : V.Readable) (p : Option Position) {pattern b : Node}
    (h : pattern.isPattern V = true) (hb : b.ReadsBack) {k : Nat}
    (hk : (arm p pattern b).armDepth ≤ k) :
    Reads (level k).arm (arm p pattern b).armLexemes (notNext (.mark .leftParen))
      (arm p pattern b).Alike := by
  rw [armDepth] at hk
  exact Production.arm (patternLexemes_read hV pattern h k (by omega)) (hb.body (by omega))

theorem caseOf_readsBack (p : Option Position) {scrutinee : Node} {arms : List Node}
    (hs : scrutinee.ReadsBack) (hne : arms ≠ [])
    (harms : ∀ a ∈ arms, (∃ ls, a.armLexemes = .mark .bar :: ls) ∧ ∀ {k : Nat}, a.armDepth ≤ k →
      Reads (level k).arm a.armLexemes (notNext (.mark .leftParen)) a.Alike) :
    (caseOf p scrutinee arms).ReadsBack := by
  refine of_primary (fun _ => rfl) (fun _ => rfl) rfl rfl rfl ⟨_, _, rfl, rfl, nofun⟩
    fun {k} hk => ?_
  rw [depth, armsDepth_eq_maxDepth] at hk
  have hdepth := maxDepth_le_iff.1 (show maxDepth armDepth arms ≤ k by omega)
  have hread := Production.caseOf (hs.operand (k := k) (by omega)) hne
    (fun a ha => (harms a ha).1) fun a ha => (harms a ha).2 (hdepth a ha)
  rw [List.map_id'] at hread
  rw [lexemes, armsLexemes_eq_map]
  exact hread

/-! ### Declarations -/

end ReadsBack

/-- The keyword that a declaration starts with. -/
def declarationWord : Node → Keyword
  | externDecl .. => .kwExtern
  | dataDecl .. => .kwData
  | typeDecl .. => .kwType
  | _ => .kwFun

/-- **A declaration reads back.** -/
structure DeclReadsBack (d : Node) : Prop where
  /-- It starts with its keyword. -/
  starts : ∃ ls, d.declarationLexemes = .keyword d.declarationWord :: ls
  /-- It is read if no semicolon follows, which would be taken with it. -/
  reads : ∀ {k : Nat}, d.declarationDepth ≤ k →
    Reads (level k).declaration d.declarationLexemes (notNext (.mark .semicolon)) d.Alike

namespace DeclReadsBack

open ReadsBack

theorem externDecl_reads (p : Option Position) {name : Name} {tps : List Name}
    {paramTypes : List Node} {returnType : Node} (h : name.isIdent = true)
    (htps : tps.all Name.isIdent = true) (hparams : paramTypes.all isType = true)
    (hreturn : returnType.isType = true) :
    (externDecl p name tps paramTypes returnType).DeclReadsBack := by
  refine ⟨⟨_, rfl⟩, fun {k} hk => ?_⟩
  obtain ⟨s, rfl⟩ : ∃ s, name = .word s := ⟨_, Name.eq_word_of_isIdent h⟩
  obtain ⟨words, rfl⟩ := Name.exists_words htps
  obtain ⟨ts, rfl, hts⟩ := typeSpecs_of_isType hparams
  cases returnType with
  | typeSpec r =>
    have hwritten : (TypeSpec.function ts r).isWritten = true := by
      have hall : TypeSpec.areWritten (ts ++ [r]) = true := by
        rw [TypeSpec.areWritten_iff] at hts ⊢
        exact List.forall_mem_append.2 ⟨hts, List.forall_mem_singleton.2 hreturn⟩
      rw [TypeSpec.function, TypeSpec.isWritten, hall]
      simp [Name.isWord]
    have hdepth : (TypeSpec.function ts r).depth ≤ k := by
      rw [declarationDepth] at hk
      have hps := maxDepth_le_iff.1
        (show maxDepth typeDepth (ts.map typeSpec) ≤ k - 1 by omega)
      have hall : TypeSpec.depthAll (ts ++ [r]) ≤ k - 1 := by
        refine TypeSpec.depthAll_le_iff.2 (List.forall_mem_append.2 ⟨fun t ht => ?_, ?_⟩)
        · exact hps (typeSpec t) (List.mem_map_of_mem ht)
        · rw [List.forall_mem_singleton]
          have hr : (typeSpec r).typeDepth = r.depth := rfl
          omega
      rw [TypeSpec.function, TypeSpec.depth]
      omega
    have hsignature := (TypeSpec.function ts r).lexemes_read hwritten k hdepth
    rw [TypeSpec.lexemes_function, List.cons_append] at hsignature
    refine (Production.externDecl s words hsignature).anywhere.congr ?_
    rw [declarationLexemes, List.map_map, heading]
    simp only [List.cons_append, List.append_assoc]
    rfl
  | _ => cases hreturn

theorem dataDecl_reads (p : Option Position) {name : Name} {tps : List Name}
    {constructors : List Node} (h : name.isIdent = true) (htps : tps.all Name.isIdent = true)
    (hne : constructors ≠ []) (hcs : constructors.all isConstructorDecl = true) :
    (dataDecl p name tps constructors).DeclReadsBack := by
  refine ⟨⟨_, rfl⟩, fun {k} hk => ?_⟩
  obtain ⟨s, rfl⟩ : ∃ s, name = .word s := ⟨_, Name.eq_word_of_isIdent h⟩
  obtain ⟨words, rfl⟩ := Name.exists_words htps
  rw [declarationDepth, maxDepth_le_iff] at hk
  rw [List.all_eq_true] at hcs
  have hread := fun c hc => constructorLexemes_read (hcs c hc) (hk c hc)
  cases constructors with
  | nil => exact absurd rfl hne
  | cons c cs =>
    have hdata := Production.dataDecl s words true true
      (constructorLexemes_cons (hcs c List.mem_cons_self)) (hread c List.mem_cons_self)
      fun d hd => hread d (List.mem_cons_of_mem c hd)
    rw [List.map_id'] at hdata
    refine hdata.congr ?_
    rw [declarationLexemes, List.flatMap_cons, heading]
    simp only [List.cons_append, List.append_assoc]
    rfl

theorem typeDecl_reads (p : Option Position) {name : Name} {tps : List Name} {t : Node}
    (h : name.isIdent = true) (htps : tps.all Name.isIdent = true) (ht : t.isType = true) :
    (typeDecl p name tps t).DeclReadsBack := by
  refine ⟨⟨_, rfl⟩, fun {k} hk => ?_⟩
  obtain ⟨s, rfl⟩ : ∃ s, name = .word s := ⟨_, Name.eq_word_of_isIdent h⟩
  obtain ⟨words, rfl⟩ := Name.exists_words htps
  cases t with
  | typeSpec t =>
    exact (Production.typeDecl s words (t.lexemes_read ht k hk)).anywhere
  | _ => cases ht

theorem resultType_reads {t : Node} (h : t.isOptionalType = true) {k : Nat}
    (hk : t.typeDepth ≤ k) :
    Reads (level k).resultType (t.lexemesAfter .arrow) Production.startsFunBody (· = t) := by
  cases t with
  | typeSpec t =>
    refine (Production.resultType List.mem_cons_self (t.lexemes_read h k hk)).before ?_
    rintro o (rfl | rfl) <;> simp [notNext]
  | atom a =>
    cases a with
    | null =>
      refine Production.noResultType.before ?_
      rintro o (rfl | rfl) <;> exact ⟨by simp [notNext], by simp [notNext]⟩
    | _ => cases h
  | _ => cases h

theorem funDecl_reads (p : Option Position) {name : Name} {tps : List Name} {params : List Node}
    {b returnType : Node} (h : name.isIdent = true) (htps : tps.all Name.isIdent = true)
    (hparams : params.all isParam = true) (hreturn : returnType.isOptionalType = true)
    (hb : b.ReadsBack) : (funDecl p name tps params b returnType).DeclReadsBack := by
  refine ⟨⟨_, rfl⟩, fun {k} hk => ?_⟩
  obtain ⟨s, rfl⟩ : ∃ s, name = .word s := ⟨_, Name.eq_word_of_isIdent h⟩
  obtain ⟨words, rfl⟩ := Name.exists_words htps
  rw [declarationDepth] at hk
  have hbody := Production.funBraced Production.afterItems_rightBrace
    (hb.items (k := k) (by omega))
  have hread := Production.funDecl s words false trivial (params_read hparams (by omega))
    (resultType_reads hreturn (by omega)) (.inl rfl) hbody
  refine (hread.before fun _ ho => ⟨trivial, ho⟩).congr ?_
  rw [declarationLexemes, heading]
  simp only [List.cons_append, List.append_assoc]
  rfl

end DeclReadsBack

theorem DeclReadsBack.reads_all {ds : List Node} (h : ∀ d ∈ ds, d.DeclReadsBack) {k : Nat}
    (hk : declarationsDepth ds ≤ k) : ∀ d ∈ ds,
    Reads (level k).declaration d.declarationLexemes Production.afterDeclaration d.Alike := by
  rw [declarationsDepth_eq_maxDepth, maxDepth_le_iff] at hk
  exact fun d hd => ((h d hd).reads (hk d hd)).before fun _ ho => ho.2

theorem declarationWord_mem {d : Node} : d.declarationWord ∈ Level.declarationWords := by
  unfold declarationWord
  split <;> decide

theorem declarationWord_mem_of_isLocal {d : Node} (h : d.isLocal = true) :
    d.declarationWord ∈ Level.localWords := by
  unfold declarationWord
  split
  · cases h
  · decide
  · decide
  · decide

theorem block_readsBack (p : Option Position) {ds : List Node} {b : Node}
    (hds : ∀ d ∈ ds, d.DeclReadsBack) (hlocal : ds.all isLocal = true) (hb : b.ReadsBack) :
    (block p ds b).ReadsBack := by
  refine ReadsBack.of_primary (fun _ => rfl) (fun _ => rfl) rfl rfl rfl ⟨_, _, rfl, rfl, nofun⟩
    fun {k} hk => ?_
  rw [depth] at hk
  have hstart : ∀ d ∈ ds, ∃ w ∈ Level.localWords, ∃ ls, d.declarationLexemes = .keyword w :: ls :=
    fun d hd => ⟨_, declarationWord_mem_of_isLocal (List.all_eq_true.1 hlocal d hd),
      (hds d hd).starts⟩
  have hread := Production.block Production.afterItems_end hstart
    (DeclReadsBack.reads_all hds (k := k) (by omega)) (hb.items (by omega))
  rw [List.map_id'] at hread
  rw [lexemes, declarationsLexemes_eq_map]
  exact hread

/-! ## Whole trees -/

open ReadsBack DeclReadsBack

mutual

/-- **The lexemes of an expression read as the expression.** -/
theorem readsBack (hV : V.Readable) (n : Node) (h : n.isExpression V = true) : n.ReadsBack := by
  cases n with
  | literal p v => exact literal_readsBack hV h
  | unit p => exact unit_readsBack p
  | var p name =>
    rw [isExpression, Bool.and_eq_true] at h
    exact var_readsBack p h.1
  | call p c args =>
    rw [isExpression, Bool.and_eq_true, Bool.and_eq_true] at h
    exact call_readsBack p (readsBack hV c h.1.2) (readBack hV args h.2)
  | intrinsicCall p op args =>
    rw [isExpression, Bool.and_eq_true] at h
    exact intrinsicCall_readsBack p h.1 (readBack hV args h.2)
  | directiveCall p name args =>
    rw [isExpression, Bool.and_eq_true] at h
    exact directiveCall_readsBack p h.1 (readBack hV args h.2)
  | construct p c args =>
    rw [isExpression, hV.construct c, Bool.and_false] at h
    cases h
  | caseOf p scrutinee arms =>
    rw [isExpression, Bool.and_eq_true, Bool.and_eq_true] at h
    exact caseOf_readsBack p (readsBack hV scrutinee h.1.1) (by rintro rfl; cases h.1.2)
      (arms_read hV arms h.2)
  | letIn p name value body t =>
    rw [isExpression, Bool.and_eq_true, Bool.and_eq_true, Bool.and_eq_true] at h
    exact letIn_readsBack p h.1.1.1 h.1.1.2 (readsBack hV value h.1.2) (readsBack hV body h.2)
  | seq p first rest =>
    rw [isExpression, Bool.and_eq_true] at h
    exact seq_readsBack p (readsBack hV first h.1) (readsBack hV rest h.2)
  | lambda p params body =>
    rw [isExpression, Bool.and_eq_true] at h
    exact lambda_readsBack p h.1 (readsBack hV body h.2)
  | block p ds body =>
    rw [isExpression, Bool.and_eq_true, Bool.and_eq_true] at h
    exact block_readsBack p (declReadBack hV ds h.1.2) h.1.1 (readsBack hV body h.2)
  | _ => cases h

theorem readBack (hV : V.Readable) (ns : List Node) (h : areExpressions V ns = true) :
    ∀ n ∈ ns, n.ReadsBack := by
  cases ns with
  | nil => simp
  | cons n ns =>
    rw [areExpressions, Bool.and_eq_true] at h
    exact List.forall_mem_cons.2 ⟨readsBack hV n h.1, readBack hV ns h.2⟩

theorem arms_read (hV : V.Readable) (ns : List Node) (h : areArms V ns = true) :
    ∀ a ∈ ns, (∃ ls, a.armLexemes = .mark .bar :: ls) ∧ ∀ {k : Nat}, a.armDepth ≤ k →
      Reads (level k).arm a.armLexemes (notNext (.mark .leftParen)) a.Alike := by
  cases ns with
  | nil => simp
  | cons n ns =>
    rw [areArms, Bool.and_eq_true] at h
    refine List.forall_mem_cons.2 ⟨?_, arms_read hV ns h.2⟩
    cases n with
    | arm p pattern body =>
      rw [isArm, Bool.and_eq_true] at h
      exact ⟨⟨_, rfl⟩, arm_reads hV p h.1.1 (readsBack hV body h.1.2)⟩
    | _ => cases h.1

theorem declReadBack (hV : V.Readable) (ns : List Node) (h : areDeclarations V ns = true) :
    ∀ d ∈ ns, d.DeclReadsBack := by
  cases ns with
  | nil => simp
  | cons n ns =>
    rw [areDeclarations, Bool.and_eq_true] at h
    refine List.forall_mem_cons.2 ⟨?_, declReadBack hV ns h.2⟩
    replace h := h.1
    cases n with
    | externDecl p name tps paramTypes returnType =>
      rw [isDeclaration, Bool.and_eq_true, Bool.and_eq_true, Bool.and_eq_true] at h
      exact externDecl_reads p h.1.1.1 h.1.1.2 h.1.2 h.2
    | dataDecl p name tps constructors =>
      rw [isDeclaration, Bool.and_eq_true, Bool.and_eq_true, Bool.and_eq_true] at h
      exact dataDecl_reads p h.1.1.1 h.1.1.2 (by rintro rfl; cases h.1.2) h.2
    | typeDecl p name tps t =>
      rw [isDeclaration, Bool.and_eq_true, Bool.and_eq_true] at h
      exact typeDecl_reads p h.1.1 h.1.2 h.2
    | funDecl p name tps params body returnType =>
      rw [isDeclaration, Bool.and_eq_true, Bool.and_eq_true, Bool.and_eq_true,
        Bool.and_eq_true] at h
      exact funDecl_reads p h.1.1.1.1 h.1.1.1.2 h.1.1.2 h.1.2 (readsBack hV body h.2)
    | _ => cases h

end

/-- **Tokens with the lexemes of a program read as the program**, given
enough levels. -/
theorem ofTokens_programLexemes (hV : V.Readable) {root : Node} (h : root.isProgram V = true)
    {levels : Nat} (hdepth : root.programDepth ≤ levels) {s : Scanned}
    (hs : s.tokens.map Token.lexeme = root.programLexemes) :
    ∃ q, ofTokens levels s = .ok q ∧ root.Alike q := by
  cases root with
  | program p ds body =>
    rw [isProgram, Bool.and_eq_true] at h
    rw [programDepth] at hdepth
    have hread : Reads (Parser.program (level levels)) (program p ds body).programLexemes (· = none)
        (program p ds body).Alike := by
      have hds := declReadBack hV ds h.1
      have hprogram := Production.program Production.afterItems_end
        (fun d hd => ⟨_, declarationWord_mem, (hds d hd).starts⟩)
        (reads_all hds (k := levels) (by omega)) ((readsBack hV body h.2).items (by omega))
      rw [List.map_id'] at hprogram
      rw [programLexemes, declarationsLexemes_eq_map]
      exact hprogram
    obtain ⟨q, hq, halike⟩ := hread s.tokens [] hs rfl
    refine ⟨q, ?_, halike⟩
    rw [List.append_nil] at hq
    unfold ofTokens
    rw [show (Parser.program (level levels)).run s.tokens = .ok (q, []) from hq]
  | _ => cases h

end Node

end EmberLang
