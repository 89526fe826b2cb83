import EmberLang.Proofs.Accepted
import EmberLang.Proofs.CheckedCode
import EmberLang.Proofs.Grammar

/-!
# How a program text is rejected

Whatever a text holds, reading it ends in a program or in an error of four
kinds: a character that begins no token, a token out of place, a
constructor declared twice, or a declaration made twice. Nothing that a
later stage takes for granted can be missing. The lexemes that the scanner
gives are numerals that read as numbers and characters that stand for one
(`Lexeme.converts_of_isProper`), the tree that the parser gives has a name
wherever a name is looked up, and resolving a checked tree always succeeds.

Two limits remain, and both are exact. A text is too deeply nested only if
it has as many tokens as there are levels. And an integer literal of more
than `Decimal.maxDigits` digits is a failure that is no error of the
program (`Node.ofSource_numeralText`): it has no kind and no position.
-/

namespace EmberLang

/-! ## Scanning -/

namespace Scan

/-- The scanner fails at a character that nothing begins with. -/
theorem loop_error {done : List Token} {p : Position} {cs : List Char} {e : Error}
    (h : loop done p cs = .error e) : ∃ c ∈ cs, e.cause = .strayCharacter c := by
  fun_induction loop done p cs with
  | case1 done p => cases h
  | case2 done p c more s hg ih =>
    obtain ⟨d, hd, he⟩ := ih h
    refine ⟨d, ?_, he⟩
    rw [(gap?_eq hg).1]
    exact List.mem_append_right _ hd
  | case3 done p c more hg l rest hl ih =>
    obtain ⟨d, hd, he⟩ := ih h
    refine ⟨d, ?_, he⟩
    rw [(lexeme?_eq hl).1]
    exact List.mem_append_right _ hd
  | case4 done p c more hg hl =>
    obtain rfl := Except.error.inj h
    exact ⟨c, List.mem_cons_self, rfl⟩

end Scan

/-! ## Numerals -/

namespace Decimal

open Scan
open RealParts hiding exponent

theorem isSome_readUnsigned_fraction (negative : Bool) {whole more : List Char} (hne : whole ≠ [])
    (hwhole : ∀ c ∈ whole, c.isDigit = true)
    (h : (readExponent (more.dropWhile Char.isDigit)).isSome = true) :
    (readUnsigned negative (whole ++ '.' :: more)).isSome = true := by
  obtain ⟨htake, hdrop⟩ := takeWhile_append_of_all (r := '.' :: more) hwhole (by rintro c ⟨⟩; rfl)
  have hempty : whole.isEmpty = false := List.isEmpty_eq_false_iff.2 hne
  obtain ⟨e, he⟩ := Option.isSome_iff_exists.1 h
  unfold readUnsigned
  rw [htake, hdrop]
  simp [hempty, he]

theorem isSome_readUnsigned_exponent (negative : Bool) {whole rest : List Char} (hne : whole ≠ [])
    (hwhole : ∀ c ∈ whole, c.isDigit = true)
    (hrest : ∀ c ∈ rest.head?, c.isDigit = false ∧ c ≠ '.')
    (h : (readExponent rest).isSome = true) :
    (readUnsigned negative (whole ++ rest)).isSome = true := by
  obtain ⟨htake, hdrop⟩ := takeWhile_append_of_all hwhole fun c hc => (hrest c hc).1
  have hempty : whole.isEmpty = false := List.isEmpty_eq_false_iff.2 hne
  obtain ⟨e, he⟩ := Option.isSome_iff_exists.1 h
  unfold readUnsigned
  rw [htake, hdrop]
  dsimp only
  split
  · exact absurd rfl (hrest '.' rfl).2
  · simp [hempty, he]

/-- **An exponent that was scanned is read.** -/
theorem isSome_readExponent {cs : List Char} {s : Split} (h : exponent cs = some s) :
    (readExponent s.1).isSome = true ∧ (∀ c ∈ s.1, isRealChar c = true) ∧ s.1.head? ≠ some '.' := by
  unfold exponent at h
  split at h
  · next mark cs =>
    split at h
    · next hmark =>
      have hmarkChar : isRealChar mark = true ∧ mark ≠ '.' := by
        rw [Bool.or_eq_true, decide_eq_true_eq, decide_eq_true_eq] at hmark
        rcases hmark with rfl | rfl <;> decide
      have hhead (ds : List Char) : (mark :: ds).head? ≠ some '.' := fun h =>
        hmarkChar.2 (Option.some.inj h)
      split at h
      · next sign ds =>
        split at h
        · next hsign =>
          obtain ⟨t, ht, rfl⟩ := Option.map_eq_some_iff.1 h
          have hdigits := digits1_digits ht
          have hsplit : splitSign (sign :: t.1) = (sign == '-', t.1) ∧ isRealChar sign = true := by
            rw [Bool.or_eq_true, decide_eq_true_eq, decide_eq_true_eq] at hsign
            rcases hsign with rfl | rfl <;> exact ⟨rfl, rfl⟩
          refine ⟨?_, ?_, hhead _⟩
          · rw [readExponent, hsplit.1]
            simp [hmark, (digits1_eq ht).2, List.all_eq_true.2 hdigits]
          · exact List.forall_mem_cons.2 ⟨hmarkChar.1, List.forall_mem_cons.2
              ⟨hsplit.2, fun c hc => isRealChar_of_isDigit (hdigits c hc)⟩⟩
        · obtain ⟨t, ht, rfl⟩ := Option.map_eq_some_iff.1 h
          have hdigits := digits1_digits ht
          have hsplit : splitSign t.1 = (false, t.1) := by
            cases ht' : t.1 with
            | nil => rfl
            | cons d ds => exact splitSign_signText false (hdigits d (ht' ▸ List.mem_cons_self)) ds
          refine ⟨?_, ?_, hhead _⟩
          · rw [readExponent, hsplit]
            simp [hmark, (digits1_eq ht).2, List.all_eq_true.2 hdigits]
          · exact List.forall_mem_cons.2
              ⟨hmarkChar.1, fun c hc => isRealChar_of_isDigit (hdigits c hc)⟩
      · cases h
    · cases h
  · cases h

/-- **What makes a numeral real is read with it.** -/
theorem isSome_readUnsigned_realTail (negative : Bool) {whole cs : List Char} {s : Split}
    (hne : whole ≠ []) (hwhole : ∀ c ∈ whole, c.isDigit = true) (h : realTail cs = some s) :
    (readUnsigned negative (whole ++ s.1)).isSome = true ∧ ∀ c ∈ s.1, isRealChar c = true := by
  unfold realTail at h
  split at h
  · next cs =>
    obtain ⟨fraction, hfraction, h⟩ := Option.map_eq_some_iff.1 h
    have hdigits := digits1_digits hfraction
    have hchars : ∀ c ∈ fraction.1, isRealChar c = true := fun c hc =>
      isRealChar_of_isDigit (hdigits c hc)
    split at h
    · next e he =>
      subst h
      obtain ⟨hread, hechars, -⟩ := isSome_readExponent he
      refine ⟨isSome_readUnsigned_fraction negative hne hwhole ?_, ?_⟩
      · show (readExponent ((fraction.1 ++ e.1).dropWhile Char.isDigit)).isSome = true
        rw [(takeWhile_append_of_all hdigits (exponent_alone he).2).2]
        exact hread
      · exact List.forall_mem_cons.2 ⟨rfl, List.forall_mem_append.2 ⟨hchars, hechars⟩⟩
    · subst h
      refine ⟨isSome_readUnsigned_fraction negative hne hwhole ?_, ?_⟩
      · rw [show fraction.1.dropWhile Char.isDigit = [] from
          congrArg Prod.snd (splitWhile_of_all hdigits)]
        rfl
      · exact List.forall_mem_cons.2 ⟨rfl, hchars⟩
  · obtain ⟨hread, hchars, hpoint⟩ := isSome_readExponent h
    refine ⟨isSome_readUnsigned_exponent negative hne hwhole (fun c hc => ?_) hread, hchars⟩
    exact ⟨(exponent_alone h).2 c hc, fun heq => hpoint (heq ▸ hc)⟩

/-- **A real numeral that was scanned is read as a number.** -/
theorem isSome_readReal {negative : Bool} {cs rest : List Char} {numeral : String}
    (h : Scan.numeral (signText negative) cs = some (.real numeral, rest)) :
    (readReal numeral.toList).isSome = true := by
  obtain ⟨whole, hwhole, hl⟩ := Option.map_eq_some_iff.1 h
  split at hl
  · next tail htail =>
    obtain ⟨hnumeral, -⟩ := Prod.mk.inj hl
    obtain rfl := Lexeme.real.inj hnumeral
    have hne := (digits1_eq hwhole).2
    have hdigits := digits1_digits hwhole
    obtain ⟨hread, htailChars⟩ := isSome_readUnsigned_realTail negative hne hdigits htail
    rw [String.toList_ofList, List.append_assoc]
    cases hw : whole.1 with
    | nil => exact absurd hw hne
    | cons c ds =>
      rw [hw] at hread hdigits
      have hchars : ∀ d ∈ ds ++ tail.1, isRealChar d = true := List.forall_mem_append.2
        ⟨fun d hd => isRealChar_of_isDigit (hdigits d (List.mem_cons_of_mem _ hd)), htailChars⟩
      rw [List.cons_append, readReal_eq_readUnsigned negative (hdigits c List.mem_cons_self) hchars]
      exact hread
  · cases (Prod.mk.inj hl).1

end Decimal

/-! ## Literals -/

namespace Lexeme

/-- **Whether a lexeme can be converted** to the literal that it stands
for, its length apart: an integer is digits after a sign, a real reads as a
number, and between quotes stands a character or an escape that has a
meaning. -/
def converts : Lexeme → Bool
  | int numeral =>
    let ds := (Decimal.splitMinus numeral.toList).2
    !ds.isEmpty && ds.all Char.isDigit
  | real numeral => (Decimal.readReal numeral.toList).isSome
  | char inner =>
    match inner.toList with
    | [_] => true
    | ['\\', c] => (Literal.ofEscape? c).isSome
    | _ => false
  | _ => true

theorem isSome_ofEscape? {c : Char} (h : Scan.escapable.contains c = true) :
    (Literal.ofEscape? c).isSome = true := by
  simp only [Scan.escapable, List.contains_cons, List.contains_nil, Bool.or_false, Bool.or_eq_true,
    beq_iff_eq] at h
  rcases h with rfl | rfl | rfl | rfl | rfl | rfl <;> rfl

theorem converts_of_numeral {negative : Bool} {cs rest : List Char} {l : Lexeme}
    (h : Scan.numeral (Decimal.signText negative) cs = some (l, rest)) : l.converts = true := by
  cases l with
  | real numeral =>
    rw [converts]
    exact Decimal.isSome_readReal h
  | int numeral =>
    obtain ⟨whole, hwhole, hl⟩ := Option.map_eq_some_iff.1 h
    split at hl
    · cases (Prod.mk.inj hl).1
    · obtain ⟨hnumeral, -⟩ := Prod.mk.inj hl
      obtain rfl := int.inj hnumeral
      have hdigits := Scan.digits1_digits hwhole
      have hne := (Scan.digits1_eq hwhole).2
      simp [converts, Decimal.splitMinus_signText negative hdigits, hne, List.all_eq_true.2 hdigits]
  | _ => rcases Scan.numeral_cases h with ⟨_, _, h⟩ | ⟨_, h⟩ <;> cases h

/-- **Every lexeme that the scanner gives can be converted.** -/
theorem converts_of_isProper {l : Lexeme} (h : l.isProper = true) : l.converts = true := by
  rcases Scan.lexeme?_cases (eq_of_beq h) with
    ⟨k, rfl⟩ | ⟨s, rfl⟩ | ⟨m, rfl⟩ | ⟨negative, ds, hl⟩ | ⟨ds, hl⟩ | ⟨ds, hl⟩ | ⟨ds, hl⟩
  · rfl
  · rfl
  · rfl
  · exact converts_of_numeral hl
  · rcases Scan.character_cases hl with ⟨c, hc, rfl⟩ | ⟨c, rfl⟩
    · simp [converts, isSome_ofEscape? hc]
    · simp [converts]
  · obtain ⟨s, rfl, -⟩ := Scan.sigilName_cases hl
    rfl
  · obtain ⟨s, rfl, -⟩ := Scan.sigilName_cases hl
    rfl

/-- The only lexemes that are literals and not read are integers of too
many digits. -/
theorem maxDigits_lt_of_literal? {l : Lexeme} {e : Stuck}
    (h : Parser.literal? l = some (.error e)) :
    e = .numeralTooLong ∧ Decimal.maxDigits < l.digitCount := by
  cases l with
  | int numeral =>
    have h := Option.some.inj h
    unfold Decimal.readDigits at h
    dsimp only at h
    split at h
    · cases h
    · next hnone =>
      split at hnone
      · cases hnone
      · next hlong => exact ⟨(Except.error.inj h).symm, Nat.lt_of_not_le hlong⟩
  | keyword k => cases k <;> cases h
  | _ => cases h

end Lexeme

/-! ## Checking -/

/-- **A clash of declarations.** -/
def Failure.IsClash (f : Failure) : Prop :=
  ∃ name p, f = .of (.duplicateConstructor name) p ∨ f = .of (.duplicateDeclaration name) p

namespace ConstructorTable

theorem clash_newConstructors (t : ConstructorTable) (typeName : Name) (done : List Constructor)
    {ns : List Node} (hns : ∀ n ∈ ns, n.isConstructorDecl = true) :
    FailsOnly Failure.IsClash (t.newConstructors typeName done ns) := by
  induction ns generalizing done with
  | nil => exact .ok _
  | cons n ns ih =>
    rw [List.forall_mem_cons] at hns
    obtain ⟨hn, hns⟩ := hns
    cases n with
    | constructorDecl p name fieldTypes =>
      rw [Node.isConstructorDecl, Bool.and_eq_true] at hn
      unfold newConstructors
      dsimp only [Node.name?, Node.arity?]
      rw [Node.check_of_isIdent hn.1, ok_bind]
      split
      · exact .error ⟨_, _, .inl rfl⟩
      · exact ih _ hns
    | _ => cases hn

theorem clash_declareAll (t : ConstructorTable) {V : Node.Vocabulary} {ds : List Node}
    (hds : ∀ d ∈ ds, d.isDeclaration V = true) : FailsOnly Failure.IsClash (t.declareAll ds) := by
  induction ds generalizing t with
  | nil => exact .ok _
  | cons d ds ih =>
    rw [List.forall_mem_cons] at hds
    obtain ⟨hd, hds⟩ := hds
    cases d with
    | dataDecl p name tps constructors =>
      simp only [Node.isDeclaration, Bool.and_eq_true] at hd
      refine FailsOnly.bind ?_ fun t' _ => ih t' hds
      unfold declare
      rw [Node.check_of_isIdent hd.1.1.1, ok_bind]
      split
      · exact .error ⟨_, _, .inr rfl⟩
      · exact (t.clash_newConstructors name [] (List.all_eq_true.1 hd.2)).bind fun _ _ => .ok _
    | _ => exact ih t hds

end ConstructorTable

namespace Node

theorem name?_of_isDeclaration {V : Vocabulary} {d : Node} (h : d.isDeclaration V = true) :
    ∃ name, d.name? = some name ∧ name.isIdent = true := by
  cases d with
  | externDecl | dataDecl | typeDecl | funDecl =>
    simp only [isDeclaration, Bool.and_eq_true] at h
    exact ⟨_, rfl, by tauto⟩
  | _ => cases h

theorem clash_checkScope (t : ConstructorTable) (seen : List Name) {V : Vocabulary} {ds : List Node}
    (hds : ∀ d ∈ ds, d.isDeclaration V = true) :
    FailsOnly Failure.IsClash (checkScope t seen ds) := by
  induction ds generalizing seen with
  | nil => exact .ok _
  | cons d ds ih =>
    obtain ⟨hd, hds⟩ := List.forall_mem_cons.1 hds
    obtain ⟨name, hname, hident⟩ := name?_of_isDeclaration hd
    unfold checkScope
    rw [hname]
    dsimp only
    rw [check_of_isIdent hident, ok_bind]
    split
    · exact .error ⟨_, _, .inr rfl⟩
    · exact ih _ hds

/-- **The check of a tree of the right shape finds clashes only.** -/
theorem clash_checkDeclarations {V : Vocabulary} {root : Node} (h : root.isProgram V = true) :
    FailsOnly Failure.IsClash root.checkDeclarations := by
  cases root with
  | program p ds body =>
    refine (ConstructorTable.clash_declareAll (V := V) _ fun d hd => ?_).bind fun t _ => ?_
    · obtain ⟨es, hes, hd⟩ := List.mem_flatten.1 hd
      exact isDeclaration_of_mem_scopes h hes d hd
    · refine FailsOnly.bind (FailsOnly.forM fun es hes => ?_) fun _ _ => .ok _
      exact clash_checkScope t [] (isDeclaration_of_mem_scopes h hes)
  | _ => cases h

theorem clash_resolveProgram {V : Vocabulary} {root : Node} (h : root.isProgram V = true) :
    FailsOnly Failure.IsClash root.resolveProgram := by
  intro f hf
  cases hcheck : root.checkDeclarations with
  | ok t =>
    rw [resolveProgram_eq h hcheck] at hf
    cases hf
  | error g =>
    have hfails : root.resolveProgram = .error g := by
      unfold resolveProgram
      rw [hcheck]
      rfl
    obtain rfl := Except.error.inj (hfails.symm.trans hf)
    exact clash_checkDeclarations h g hcheck

/-! ## Reading a text -/

/-- **Every rejection of a text is classified.** If it has a character that
begins no token, it is rejected for that. Otherwise all its lexemes can be
converted, and what is read is a program that passes the check of its
declarations; or it is rejected for a token out of place or for a clash of
declarations. The two limits are met only by texts of many tokens and by
integer literals of many digits. -/
theorem ofSource_classified (text : String) (frames : Int) :
    match scan text with
    | .error e => ofSource text frames = .error (.error e) ∧ e.cause.kind = "LexError"
    | .ok s => (∀ t ∈ s.tokens, t.lexeme.converts = true) ∧
      match ofSource text frames with
      | .ok root => ∃ t, root.checkDeclarations = .ok t
          ∧ root.isProgram (.resolved t Literal.isWritable true) = true
      | .error (.error e) =>
          e.cause.kind ∈ ["ParseError", "DuplicateConstructorError", "DuplicateDeclarationError"]
            ∨ e.cause = .nestingTooDeep ∧ levelsOf frames ≤ s.tokens.length
      | .error .numeralTooLong => ∃ t ∈ s.tokens, Decimal.maxDigits < t.lexeme.digitCount
      | .error _ => False := by
  cases hscan : scan text with
  | error e =>
    obtain ⟨c, -, hc⟩ := Scan.loop_error hscan
    refine ⟨?_, by rw [hc]; rfl⟩
    unfold ofSource
    rw [hscan]
  | ok s =>
    have hproper := proper_of_scan hscan
    refine ⟨fun t ht => Lexeme.converts_of_isProper (hproper t ht).1, ?_⟩
    have hsource : ofSource text frames
        = ofTokens (levelsOf frames) s >>= fun q => q.resolveProgram := by
      unfold ofSource
      rw [hscan]
    cases hread : ofSource text frames with
    | ok root => exact isProgram_of_ofSource hread
    | error f =>
      rw [hsource] at hread
      cases htree : ofTokens (levelsOf frames) s with
      | ok q =>
        rw [htree] at hread
        have hprogram := isProgram_of_ofTokens hproper htree
        obtain ⟨name, p, rfl | rfl⟩ := clash_resolveProgram hprogram f hread
        · exact .inl (by simp [Cause.kind])
        · exact .inl (by simp [Cause.kind])
      | error g =>
        rw [htree] at hread
        obtain rfl := Except.error.inj hread
        unfold ofTokens at htree
        split at htree
        · cases htree
        · next stuck hrun =>
          obtain rfl := Except.error.inj htree
          have hstops := (Parser.program_gives Parser.proper_closed (levelsOf frames) s.tokens
            hproper).2 stuck hrun
          cases stuck with
          | unexpected expected rest => cases rest <;> exact .inl List.mem_cons_self
          | tooDeep rest => exact .inr ⟨rfl, hstops⟩
          | numeralTooLong =>
            obtain ⟨t, ht, hlong⟩ := hstops
            exact ⟨t, ht, (Lexeme.maxDigits_lt_of_literal? hlong).2⟩

/-! ## Numerals that are too long -/

/-- A program that is one numeral. -/
def numeralText (ds : List Char) : String := "begin in " ++ String.ofList ds ++ " end"

theorem scan_numeralText {ds : List Char} (hne : ds ≠ []) (hds : ∀ c ∈ ds, c.isDigit = true) :
    ∃ s, scan (numeralText ds) = .ok s ∧ s.tokens.map Token.lexeme
      = [.keyword .kwBegin, .keyword .kwIn, .int (String.ofList ds), .keyword .kwEnd] := by
  have hspace (r : List Char) : Scan.Breaks (' ' :: r) := Scan.breaks_cons (by decide) r
  have hnumeral : (Lexeme.int (String.ofList ds)).isProper = true :=
    Lexeme.isProper_digits false hne hds
  have htext : (numeralText ds).toList = (Lexeme.keyword .kwBegin).text.toList
      ++ ' ' :: ((Lexeme.keyword .kwIn).text.toList
      ++ ' ' :: ((Lexeme.int (String.ofList ds)).text.toList
      ++ ' ' :: ((Lexeme.keyword .kwEnd).text.toList ++ []))) := by
    simp [numeralText, Lexeme.text, Keyword.text]
  refine scan_of_pieces ?_
  rw [htext, Scan.pieces_lexeme (Lexeme.isProper_keyword _) (hspace _),
    Scan.pieces_space (by decide), Scan.pieces_lexeme (Lexeme.isProper_keyword _) (hspace _),
    Scan.pieces_space (by decide), Scan.pieces_lexeme hnumeral (hspace _),
    Scan.pieces_space (by decide), Scan.pieces_lexeme (Lexeme.isProper_keyword _) Scan.breaks_nil,
    Scan.pieces_nil]
  rfl

theorem primary_error {inner : Parser.Level} {t : Token} {ts : List Token} {e : Stuck}
    (h : Parser.literal? t.lexeme = some (.error e)) : inner.primary (t :: ts) = .error e := by
  have hnext : ((t :: ts).head?.map Token.lexeme).bind Parser.literal? = some (.error e) := h
  simp only [Parser.Level.primary, Parser.here, Parser.peek, bind, StateT.bind, Except.bind, hnext]
  rfl

/-- **A numeral of too many digits is no literal**, and what is reported is
no error of the program. -/
theorem ofSource_numeralText {ds : List Char} (hds : ∀ c ∈ ds, c.isDigit = true)
    (hlong : Decimal.maxDigits < ds.length) (frames : Int) :
    ofSource (numeralText ds) frames = .error .numeralTooLong := by
  have hne : ds ≠ [] := List.ne_nil_of_length_pos (Nat.zero_lt_of_lt hlong)
  obtain ⟨s, hscan, hlexemes⟩ := scan_numeralText hne hds
  have hread : Decimal.readDigits (String.ofList ds) = none := by
    unfold Decimal.readDigits
    rw [String.toList_ofList,
      show Decimal.splitMinus ds = (false, ds) from Decimal.splitMinus_signText false hds]
    dsimp only
    rw [if_neg (Nat.not_le_of_lt hlong)]
  have hliteral : Parser.literal? (.int (String.ofList ds)) = some (.error .numeralTooLong) := by
    rw [Parser.literal?, hread]
  have hlevels : levelsOf frames = levelsOf frames - 1 + 1 := by
    unfold levelsOf
    omega
  unfold ofSource ofTokens
  rw [hscan]
  dsimp only
  obtain ⟨tokens, stop⟩ := s
  obtain ⟨⟨_, p⟩, _, rfl, rfl, hafterBegin⟩ := List.map_eq_cons_iff.1 hlexemes
  obtain ⟨⟨_, q⟩, _, rfl, rfl, hafterIn⟩ := List.map_eq_cons_iff.1 hafterBegin
  obtain ⟨⟨_, r⟩, _, rfl, rfl, hafterNumeral⟩ := List.map_eq_cons_iff.1 hafterIn
  obtain ⟨⟨_, t⟩, _, rfl, rfl, hafterEnd⟩ := List.map_eq_cons_iff.1 hafterNumeral
  obtain rfl := List.map_eq_nil_iff.1 hafterEnd
  have hrun : (Parser.program (Parser.level (levelsOf frames))).run
      [⟨.keyword .kwBegin, p⟩, ⟨.keyword .kwIn, q⟩, ⟨.int (String.ofList ds), r⟩,
        ⟨.keyword .kwEnd, t⟩] = .error .numeralTooLong := by
    rw [hlevels]
    -- the keywords are taken, and the body begins with the numeral
    change Except.bind (Except.bind (Except.bind ((Parser.level (levelsOf frames - 1)).primary
      [⟨.int (String.ofList ds), r⟩, ⟨.keyword .kwEnd, t⟩]) _) _) _ = _
    rw [primary_error hliteral]
    rfl
  dsimp only
  rw [hrun]
  rfl

/-- One digit more than the limit. -/
theorem ofSource_longNumeral :
    ofSource (numeralText (List.replicate 4301 '7')) = .error .numeralTooLong := by
  refine ofSource_numeralText (fun c hc => ?_) ?_ defaultFrames
  · rw [List.eq_of_mem_replicate hc]
    decide
  · rw [List.length_replicate]
    decide

end Node

end EmberLang
