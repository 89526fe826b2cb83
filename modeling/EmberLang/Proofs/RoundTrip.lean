import EmberLang.Proofs.Outline
import EmberLang.Proofs.Parsing
import EmberLang.Proofs.Proper
import EmberLang.Proofs.Resolution

/-!
# Reading what was written

Writing a program and reading the text gives the program back, apart from
the positions of its nodes. The way there has four parts, each of which is
the subject of a module of its own.

* The text of a tree spells the lexemes of the tree, so that the scanner
  gives them (`Node.programText_spells`, `Spells.scan`).
* A parser that meets the lexemes of a tree builds that tree, as long as it
  is not nested too deeply (`Node.ofTokens_programLexemes`).
* This holds of trees without constructors only: a text does not say which
  names are constructors. The text of a tree is also the text of the tree
  with its constructors turned back into variables and calls
  (`Node.programText_unresolved`), and it is that tree which the parser
  builds.
* Resolving the names of that tree gives the first tree again, unless a
  constructor without fields is called or a literal is written like a name
  (`Node.resolvedProgram_unresolvedProgram_iff`).

`Node.ofSource_of_isProgram` puts the first three together; it says what
reading a text gives even where that is another program.
-/

namespace EmberLang

/-! ## Infinite literals -/

namespace Literal

/-- **Whether a literal has a text**: a character has one code point, an
integer is not too long, and a real may be anything. These are the literals
that a text can hold. -/
def isWritable : Literal → Bool
  | int n => Decimal.isPrintable n
  | real _ => true
  | bool _ => true
  | char s => s.length = 1

/-- Whether a literal is no real, or a finite one. -/
def isFinite : Literal → Bool
  | real x => Decimal.isFinite x
  | _ => true

theorem isReadable_eq (v : Literal) : v.isReadable = (v.isWritable && v.isFinite) := by
  cases v with
  | int n => exact (Bool.and_true _).symm
  | real x => rfl
  | bool b => rfl
  | char s => exact (Bool.and_true _).symm

/-- What is written as no name and does not read back is negative
infinity. -/
theorem eq_negative_infinity {v : Literal} (h : v.isWritable = true) (hname : v.name? = none)
    (hread : v.isReadable = false) : v.text = .ok "-inf" ∧ v.lexeme = .real "-inf" := by
  cases v with
  | real x =>
    have htext : Decimal.realText x = "-inf" := by
      have hfinite : Decimal.isFinite x = false := hread
      unfold Decimal.isFinite at hfinite
      rw [name?] at hname
      unfold Decimal.realText
      cases hx : Decimal.magnitude x with
      | nan =>
        rw [hx] at hname
        cases hname
      | infinite =>
        rw [hx] at hname
        dsimp only at hname ⊢
        split at hname
        · next hneg => rw [if_pos hneg]
        · cases hname
      | finite m q =>
        rw [hx] at hfinite
        cases hfinite
    exact ⟨congrArg Except.ok htext, congrArg Lexeme.real htext⟩
  | int n => exact absurd (h.symm.trans hread) (by decide)
  | bool b => cases hread
  | char s => exact absurd (h.symm.trans hread) (by decide)

end Literal

/-- The sign of negative infinity is no lexeme, and no part of one. -/
theorem pieces_negative_infinity (r : List Char) :
    Scan.pieces ("-inf".toList ++ r) = .stray '-' :: Scan.pieces ("inf".toList ++ r) :=
  Scan.pieces_of_stray (c := '-') rfl rfl

theorem isBroken_negative_infinity : (Lexeme.real "-inf").isBroken = true := by
  have hpieces := pieces_negative_infinity []
  rw [List.append_nil] at hpieces
  unfold Lexeme.isBroken Lexeme.pieces
  rw [show (Lexeme.real "-inf").text.toList = "-inf".toList from rfl, hpieces]
  rfl

theorem spells_negative_infinity : Spells "-inf" [.real "-inf"] := by
  have hword : Spells "inf" [.ident "inf"] := Spells.lexeme (l := .ident "inf") (by decide)
  intro r hr
  have hpieces := pieces_negative_infinity []
  rw [List.append_nil, hword [] Scan.breaks_nil, Scan.pieces_nil, List.append_nil] at hpieces
  rw [pieces_negative_infinity, hword r hr, List.flatMap_singleton, List.flatMap_singleton]
  show _ = Scan.pieces "-inf".toList ++ _
  rw [hpieces, List.flatMap_singleton]
  rfl

namespace Node

variable {V : Vocabulary} {t : ConstructorTable} {frames : Int}

/-! ## Trees without constructors -/

/-- The literals of a tree without constructors that was made from what a
text can hold. -/
theorem spelled_source : (Vocabulary.source (unnamed Literal.isWritable)).Spelled where
  literal v h := by
    obtain ⟨hwritable, hname⟩ := Bool.and_eq_true_iff.1 h
    cases hread : v.isReadable with
    | true => exact Literal.spells_of_isReadable hread
    | false =>
      obtain ⟨htext, hlexeme⟩ :=
        Literal.eq_negative_infinity hwritable (Option.isNone_iff_eq_none.1 hname) hread
      rw [hlexeme]
      exact ⟨"-inf", htext, spells_negative_infinity⟩
  construct _ := rfl

theorem readable_source : (Vocabulary.source Literal.isReadable).Readable where
  literal _ h := Literal.literal?_lexeme h
  construct _ := rfl

/-- Of the literals that are written as no name, those that are lexemes
read back. -/
theorem properOf_isWritable :
    properOf (fun _ => false) (unnamed Literal.isWritable) = Literal.isReadable := by
  funext v
  rw [properOf, Bool.or_false]
  cases hread : v.isReadable with
  | true =>
    rw [unnamed_of_none (Literal.name?_of_isReadable hread), Literal.isProper_lexeme hread,
      Bool.and_true]
    exact (Bool.and_eq_true_iff.1 (v.isReadable_eq ▸ hread)).1
  | false =>
    rw [Bool.and_eq_false_iff, or_iff_not_imp_left, Bool.not_eq_false]
    intro h
    obtain ⟨hwritable, hname⟩ := Bool.and_eq_true_iff.1 h
    rw [(Literal.eq_negative_infinity hwritable (Option.isNone_iff_eq_none.1 hname) hread).2]
    decide

/-- The others are broken. -/
theorem properOf_isBroken :
    properOf Lexeme.isBroken (unnamed Literal.isWritable) = unnamed Literal.isWritable := by
  funext v
  cases h : unnamed Literal.isWritable v with
  | false => rw [properOf, h, Bool.false_and]
  | true =>
    rw [properOf, h, Bool.true_and, Bool.or_eq_true]
    obtain ⟨hwritable, hname⟩ := Bool.and_eq_true_iff.1 h
    cases hread : v.isReadable with
    | true => exact .inl (Literal.isProper_lexeme hread)
    | false =>
      rw [(Literal.eq_negative_infinity hwritable (Option.isNone_iff_eq_none.1 hname) hread).2]
      exact .inr isBroken_negative_infinity

/-- **The text of a tree without constructors**, and what it scans to: the
text scans if all literals read back, and else it does not. -/
theorem programText_scans {root : Node}
    (h : root.isProgram (.source (unnamed Literal.isWritable)) = true) :
    ∃ text, root.programText = .ok text
      ∧ (∀ s, scan text = .ok s → root.isProgram (.source Literal.isReadable) = true)
      ∧ (root.isProgram (.source Literal.isReadable) = true →
        ∃ s, scan text = .ok s ∧ s.tokens.map Token.lexeme = root.programLexemes) := by
  obtain ⟨text, htext, hspells⟩ := programText_spells spelled_source h
  have hproper := allProper_programLexemes (Q := fun _ => false) h
  have hbroken := allProper_programLexemes (Q := Lexeme.isBroken) h
  rw [properOf_isWritable] at hproper
  rw [properOf_isBroken, h] at hbroken
  refine ⟨text, htext, fun s hs => ?_, fun hread => ?_⟩
  · rw [← hproper]
    exact hspells.allProper_of_scan hbroken hs
  · exact hspells.scan (hproper.trans hread)

/-! ## Programs with constructors -/

/-- **Whether the text of a program can be read**: its literals read back
or are written as names. The only literal for which neither holds is
negative infinity. -/
def isLegible (root : Node) : Bool := root.isProgram (.legible Literal.isReadable)

/-- **A text is read in three steps**: it is scanned, its tokens are read as
a tree, and the names in the tree are resolved. -/
theorem ofSource_of_tokens {text : String} {s : Scanned} {root r : Node}
    (hscan : scan text = .ok s) (hread : ofTokens (levelsOf frames) s = .ok root)
    (hresolve : root.resolveProgram = .ok r) : ofSource text frames = .ok r := by
  unfold ofSource
  rw [hscan]
  show (ofTokens (levelsOf frames) s >>= resolveProgram) = _
  rw [hread]
  exact hresolve

/-- **What is read from the lexemes of a program**: the program with its
constructors turned back into names and those names resolved. -/
theorem ofSource_of_scan {root : Node}
    (h : root.isProgram (.resolved t Literal.isWritable true) = true)
    (ht : root.checkDeclarations = .ok t) (hdepth : root.programDepth ≤ levelsOf frames)
    (hlegible : root.isLegible = true) {text : String} {s : Scanned} (hscan : scan text = .ok s)
    (hs : s.tokens.map Token.lexeme = root.unresolvedProgram.programLexemes) :
    ∃ q, ofSource text frames = .ok q ∧ (root.unresolvedProgram.resolvedProgram t).Alike q := by
  rw [← programDepth_unresolved] at hdepth
  rw [isLegible, ← isProgram_unresolvedProgram] at hlegible
  obtain ⟨q, hq, halike⟩ := ofTokens_programLexemes readable_source hlegible hdepth hs
  have hqt : q.checkDeclarations = .ok t :=
    checkDeclarations_of_alike hlegible halike (checkDeclarations_unresolvedProgram h ht)
  have hqprogram : q.isProgram (.source Literal.isReadable) = true := by
    rw [← isProgram_erase, halike, isProgram_erase, hlegible]
  refine ⟨q.resolvedProgram t, ?_, ?_⟩
  · exact ofSource_of_tokens hscan hq (resolveProgram_eq hqprogram hqt)
  · show (q.resolvedProgram t).erase = (root.unresolvedProgram.resolvedProgram t).erase
    rw [← resolvedProgram_erase, halike, resolvedProgram_erase]

/-- **What reading the text of a program gives**: nothing if some literal
is negative infinity, and else the program with its constructors turned
back into names and those names resolved. -/
theorem ofSource_of_isProgram {root : Node}
    (h : root.isProgram (.resolved t Literal.isWritable true) = true)
    (ht : root.checkDeclarations = .ok t) (hdepth : root.programDepth ≤ levelsOf frames) :
    ∃ text, root.programText = .ok text
      ∧ (∀ q, ofSource text frames = .ok q → root.isLegible = true)
      ∧ (root.isLegible = true →
        ∃ q, ofSource text frames = .ok q
          ∧ (root.unresolvedProgram.resolvedProgram t).Alike q) := by
  -- What is printed is the tree as it stands before its names are resolved.
  have hraw : root.unresolvedProgram.isProgram (.source (unnamed Literal.isWritable)) = true :=
    isProgram_unresolved (fun v hv hname => (unnamed_of_none hname).trans hv) h
  obtain ⟨text, htext, hfails, hscans⟩ := programText_scans hraw
  have hlegible := isProgram_unresolvedProgram Literal.isReadable root
  rw [programText_unresolved] at htext
  refine ⟨text, htext, fun q hq => ?_, fun hread => ?_⟩
  · unfold ofSource at hq
    cases hscan : scan text with
    | error e =>
      rw [hscan] at hq
      cases hq
    | ok s => exact hlegible.symm.trans (hfails s hscan)
  · obtain ⟨s, hscan, htokens⟩ := hscans (hlegible.trans hread)
    exact ofSource_of_scan h ht hdepth hread hscan htokens

/-- **The vocabulary of the trees that their texts tell from all others**:
reals are finite, and no constructor without fields is called. -/
def Vocabulary.faithful : Vocabulary := ⟨Literal.isFinite, fun _ => true, fun _ => true, false⟩

/-- **Whether a program is faithful to its text**: its real literals are
finite, and it calls no constructor without fields. -/
def isFaithful (root : Node) : Bool := root.isProgram .faithful

/-- **Whether a program is well formed**, given the table of its
constructors: every part stands where the grammar has it, every name is an
identifier, every literal has a text that reads back, exactly the
constructors of the table are constructors, and none without fields is
called. -/
def isWellFormed (t : ConstructorTable) (root : Node) : Bool :=
  root.isProgram (.resolved t Literal.isReadable false)

theorem Vocabulary.resolved_and_faithful (t : ConstructorTable) :
    (Vocabulary.resolved t Literal.isWritable true).and .faithful
      = .resolved t Literal.isReadable false := by
  unfold Vocabulary.resolved Vocabulary.faithful Vocabulary.and
  congr 1
  · funext v
    exact v.isReadable_eq.symm
  · funext name
    exact Bool.and_true _
  · funext c
    exact Bool.and_true _

/-- A program that a text can hold is well formed exactly if it is faithful
to its text. -/
theorem isWellFormed_eq (t : ConstructorTable) (root : Node) :
    root.isWellFormed t
      = (root.isProgram (.resolved t Literal.isWritable true) && root.isFaithful) := by
  unfold isWellFormed isFaithful
  rw [← isProgram_and, Vocabulary.resolved_and_faithful]

/-- A well-formed program is one whose literals are written as no names
and that calls no constructor without fields, and whose literals read
back. -/
theorem isWellFormed_eq_unnamed (t : ConstructorTable) (root : Node) :
    root.isWellFormed t
      = (root.isProgram (.resolved t (unnamed Literal.isWritable) false)
        && root.isProgram (.resolved t Literal.isReadable true)) := by
  unfold isWellFormed
  rw [← isProgram_and]
  congr 1
  unfold Vocabulary.resolved Vocabulary.and
  congr 1
  · funext v
    show v.isReadable = (unnamed Literal.isWritable v && v.isReadable)
    cases hread : v.isReadable with
    | false => exact (Bool.and_false _).symm
    | true =>
      have hwritable := Bool.and_eq_true_iff.1 (v.isReadable_eq ▸ hread)
      rw [unnamed_of_none (Literal.name?_of_isReadable hread), hwritable.1]
      rfl
  · funext name
    exact (Bool.and_self _).symm
  · funext c
    exact (Bool.and_self _).symm

/-- **Every text with the lexemes of a well-formed program is read as the
program**, whatever its layout. -/
theorem ofSource_of_spells {root : Node} (ht : root.checkDeclarations = .ok t)
    (h : root.isWellFormed t = true) (hdepth : root.programDepth ≤ levelsOf frames)
    {text : String} (hspells : Spells text root.unresolvedProgram.programLexemes) :
    ∃ q, ofSource text frames = .ok q ∧ root.Alike q := by
  have hread : root.unresolvedProgram.isProgram (.source Literal.isReadable) = true :=
    isProgram_unresolved (fun v hv _ => hv) h
  have hunnamed := h
  rw [isWellFormed_eq_unnamed, Bool.and_eq_true] at hunnamed
  rw [isWellFormed_eq, Bool.and_eq_true] at h
  have hraw : root.unresolvedProgram.isProgram (.source (unnamed Literal.isWritable)) = true :=
    isProgram_unresolved (fun v hv hname => (unnamed_of_none hname).trans hv) h.1
  have hproper := allProper_programLexemes (Q := fun _ => false) hraw
  rw [properOf_isWritable, hread] at hproper
  obtain ⟨s, hscan, hs⟩ := hspells.scan hproper
  rw [isProgram_unresolvedProgram] at hread
  obtain ⟨q, hq, halike⟩ := ofSource_of_scan h.1 ht hdepth hread hscan hs
  have hsame := (resolvedProgram_unresolvedProgram_iff h.1).2 hunnamed.1
  exact ⟨q, hq, halike.trans hsame⟩

/-- **Which programs are read back from their texts**: exactly the faithful
ones. Of the others, those with a legible text are read back as other
programs. -/
theorem ofSource_programText_iff {root : Node}
    (h : root.isProgram (.resolved t Literal.isWritable true) = true)
    (ht : root.checkDeclarations = .ok t) (hdepth : root.programDepth ≤ levelsOf frames) :
    ∃ text, root.programText = .ok text
      ∧ ((∃ q, ofSource text frames = .ok q) ↔ root.isLegible = true)
      ∧ ((∃ q, ofSource text frames = .ok q ∧ root.Alike q) ↔ root.isFaithful = true) := by
  obtain ⟨text, htext, hfails, hreads⟩ := ofSource_of_isProgram h ht hdepth
  have hiff := resolvedProgram_unresolvedProgram_iff h
  have hformed : root.isFaithful = root.isWellFormed t := by
    rw [isWellFormed_eq, h, Bool.true_and]
  rw [hformed]
  refine ⟨text, htext, ⟨?_, fun hlegible => ?_⟩, ⟨?_, fun hwell => ?_⟩⟩
  · rintro ⟨q, hq⟩
    exact hfails q hq
  · obtain ⟨q, hq, -⟩ := hreads hlegible
    exact ⟨q, hq⟩
  · rintro ⟨q, hq, halike⟩
    have hlegible := hfails q hq
    obtain ⟨q', hq', halike'⟩ := hreads hlegible
    obtain rfl := Except.ok.inj (hq.symm.trans hq')
    have hsame : (root.unresolvedProgram.resolvedProgram t).erase = root.erase :=
      halike'.symm.trans halike
    -- what was read back consists of literals that read back
    rw [isLegible, ← isProgram_unresolvedProgram] at hlegible
    have hread := isProgram_resolvedProgram (t := t) hlegible
    rw [← isProgram_erase, hsame, isProgram_erase] at hread
    rw [isWellFormed_eq_unnamed, hiff.1 hsame, hread, Bool.true_and]
  · have hraw : root.unresolvedProgram.isProgram (.source Literal.isReadable) = true :=
      isProgram_unresolved (fun v hv _ => hv) hwell
    rw [isWellFormed_eq_unnamed, Bool.and_eq_true] at hwell
    rw [isProgram_unresolvedProgram] at hraw
    obtain ⟨q, hq, halike⟩ := hreads hraw
    exact ⟨q, hq, halike.trans (hiff.2 hwell.1)⟩

/-- **Reading undoes writing.** A well-formed program whose declarations
pass the check has a text, and reading the text gives a program that
differs from it in positions only. -/
theorem ofSource_programText {root : Node} (ht : root.checkDeclarations = .ok t)
    (h : root.isWellFormed t = true) (hdepth : root.programDepth ≤ levelsOf frames) :
    ∃ text q, root.programText = .ok text ∧ ofSource text frames = .ok q ∧ root.Alike q := by
  rw [isWellFormed_eq, Bool.and_eq_true] at h
  obtain ⟨text, htext, -, hiff⟩ := ofSource_programText_iff h.1 ht hdepth
  obtain ⟨q, hq, halike⟩ := hiff.2 h.2
  exact ⟨text, q, htext, hq, halike⟩

/-- The first item of a list, found by a function that is called through
a lambda. -/
def firstProgram : Node :=
  program none
    [dataDecl none "List" ["a"]
      [constructorDecl none "Nil" [],
        constructorDecl none "Cons" [typeSpec (.mk "a" []), typeSpec (.mk "List" [.mk "a" []])]],
      funDecl none "first" ["a"] [param none "xs" (typeSpec (.mk "List" [.mk "a" []]))]
        (caseOf none (var none "xs")
          [arm none (patternVar none "Nil") (literal none (.real 0.5)),
            arm none (patternCtor none "Cons" [patternVar none "x", patternWild none])
              (letIn none "y" (seq none (unit none) (var none "x")) (var none "y") absent)])
        absent]
    (call none
      (lambda none ["f"]
        (call none (var none "f")
          [construct none "Cons" [literal none (.char "\n"), construct none "Nil" []]]))
      [var none "first"])

/-- The constructors of lists. -/
def listTable : ConstructorTable := ⟨[("List", [⟨"Nil", "List", 0⟩, ⟨"Cons", "List", 2⟩])]⟩

theorem ofSource_programText_firstProgram :
    firstProgram.isWellFormed listTable = true
      ∧ ∃ text q, firstProgram.programText = .ok text ∧ ofSource text 1000 = .ok q
        ∧ firstProgram.Alike q := by
  have hcheck : firstProgram.checkDeclarations = .ok listTable := by
    unfold checkDeclarations scopes
    rw [walk_eq_preorder rfl]
    rfl
  have hformed : firstProgram.isWellFormed listTable = true := by decide
  exact ⟨hformed, ofSource_programText hcheck hformed (by decide)⟩

end Node

end EmberLang
