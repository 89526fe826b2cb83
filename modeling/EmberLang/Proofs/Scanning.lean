import EmberLang.Token.Scanner
import Mathlib

/-!
# Scanning in pieces

The scanner carries positions and stops at the first character that begins
no lexeme, which makes it awkward to reason about a text by its parts. The
**pieces** of a text leave out the positions and go on after such a
character. A text scans if and only if all its pieces are lexemes, and these
are then the lexemes of its tokens – `pieces_of_scan` and `scan_of_pieces`.

The pieces of two texts one after the other are those of the first and then
those of the second, as long as no lexeme runs over the seam. The scanner
takes the longest match, so what is asked is a condition on the second text
alone: that it begins with a character that no lexeme goes on with –
`Breaks`. A lexeme is **proper** if its own text reads as just that lexeme,
and whatever the scanner takes is proper.
-/

namespace EmberLang

namespace Scan

/-- **A piece of a text**: a lexeme, or a character at which no lexeme
begins. -/
inductive Piece where
  | lexeme (l : Lexeme)
  | stray (c : Char)
  deriving DecidableEq, Repr

/-- **The pieces of a text.** Other than `loop` this goes on after a stray
character. -/
def pieces (cs : List Char) : List Piece :=
  match cs with
  | [] => []
  | c :: more =>
    match _hg : gap? (c :: more) with
    | some s => pieces s.2
    | none =>
      match _hl : lexeme? (c :: more) with
      | some (l, rest) => .lexeme l :: pieces rest
      | none => .stray c :: pieces more
termination_by cs.length
decreasing_by
  · exact gap?_shorter _hg
  · exact lexeme?_shorter _hl
  · exact Nat.lt_succ_self _

@[simp]
theorem pieces_nil : pieces [] = [] := by rw [pieces]

theorem pieces_of_gap {cs : List Char} {s : Split} (h : gap? cs = some s) :
    pieces cs = pieces s.2 := by
  cases cs with
  | nil => cases h
  | cons c more =>
    rw [pieces]
    split
    · next s' hs =>
      rw [h] at hs
      rw [Option.some.inj hs]
    · next hs =>
      rw [h] at hs
      cases hs

theorem pieces_of_lexeme {cs rest : List Char} {l : Lexeme} (hg : gap? cs = none)
    (hl : lexeme? cs = some (l, rest)) : pieces cs = .lexeme l :: pieces rest := by
  cases cs with
  | nil => cases hl
  | cons c more =>
    rw [pieces]
    split
    · next s hs =>
      rw [hg] at hs
      cases hs
    · split
      · next l' rest' hl' =>
        rw [hl] at hl'
        obtain ⟨rfl, rfl⟩ := Prod.mk.inj (Option.some.inj hl')
        rfl
      · next hl' =>
        rw [hl] at hl'
        cases hl'

theorem pieces_of_stray {c : Char} {more : List Char} (hg : gap? (c :: more) = none)
    (hl : lexeme? (c :: more) = none) : pieces (c :: more) = .stray c :: pieces more := by
  rw [pieces]
  split
  · next s hs =>
    rw [hg] at hs
    cases hs
  · split
    · next l' rest' hl' =>
      rw [hl] at hl'
      cases hl'
    · rfl

/-- What the scanner's loop reads are the pieces of the text. -/
theorem loop_ok {done : List Token} {p : Position} {cs : List Char} {s : Scanned}
    (h : loop done p cs = .ok s) :
    ∃ ts, s.tokens = done.reverse ++ ts ∧ pieces cs = (ts.map Token.lexeme).map .lexeme := by
  fun_induction loop done p cs with
  | case1 done p =>
    obtain rfl := Except.ok.inj h
    exact ⟨[], by simp⟩
  | case2 done p c more s' hg ih =>
    obtain ⟨ts, htokens, hts⟩ := ih h
    exact ⟨ts, htokens, by rw [pieces_of_gap hg, hts]⟩
  | case3 done p c more hg l rest hl ih =>
    obtain ⟨ts, htokens, hts⟩ := ih h
    refine ⟨⟨l, p⟩ :: ts, ?_, ?_⟩
    · rw [htokens, List.reverse_cons, List.append_assoc, List.singleton_append]
    · rw [pieces_of_lexeme hg hl, hts, List.map_cons, List.map_cons]
  | case4 done p c more hg hl => cases h

/-- The loop reads a text that is nothing but lexemes. -/
theorem loop_total (done : List Token) (p : Position) {cs : List Char} {ls : List Lexeme}
    (h : pieces cs = ls.map .lexeme) : ∃ s, loop done p cs = .ok s := by
  fun_induction loop done p cs generalizing ls with
  | case1 done p => exact ⟨_, rfl⟩
  | case2 done p c more s' hg ih => exact ih ((pieces_of_gap hg).symm.trans h)
  | case3 done p c more hg l rest hl ih =>
    rw [pieces_of_lexeme hg hl] at h
    cases ls with
    | nil => cases h
    | cons l' ls => exact ih (List.cons.inj h).2
  | case4 done p c more hg hl =>
    rw [pieces_of_stray hg hl] at h
    cases ls with
    | nil => cases h
    | cons l' ls => cases (List.cons.inj h).1

end Scan

/-- **What reads as tokens has these as its pieces.** -/
theorem pieces_of_scan {text : String} {s : Scanned} (h : scan text = .ok s) :
    Scan.pieces text.toList = (s.tokens.map Token.lexeme).map .lexeme := by
  obtain ⟨ts, htokens, hts⟩ := Scan.loop_ok h
  rw [htokens, hts, List.reverse_nil, List.nil_append]

/-- **A text of lexemes alone reads as tokens** with these lexemes. -/
theorem scan_of_pieces {text : String} {ls : List Lexeme}
    (h : Scan.pieces text.toList = ls.map .lexeme) :
    ∃ s, scan text = .ok s ∧ s.tokens.map Token.lexeme = ls := by
  obtain ⟨s, hs⟩ := Scan.loop_total [] .start h
  refine ⟨s, hs, ?_⟩
  rw [pieces_of_scan hs] at h
  exact (List.map_inj_right fun _ _ => Scan.Piece.lexeme.inj).1 h

namespace Scan

/-! ## Where a lexeme ends -/

/-- A character that ends every lexeme before it. -/
def isBreak (c : Char) : Bool := !isIdentPart c && c != '.' && c != '>'

/-- **A text before which every lexeme ends.** -/
def Breaks (r : List Char) : Prop := ∀ c ∈ r.head?, isBreak c = true

theorem breaks_nil : Breaks [] := by rintro c ⟨⟩

theorem breaks_cons {c : Char} (h : isBreak c = true) (r : List Char) : Breaks (c :: r) := by
  rintro d ⟨⟩
  exact h

/-- What stops a rule does so behind any text that the rule would take. -/
theorem splitWhile_append {p : Char → Bool} {cs r : List Char}
    (h : (splitWhile p cs).2 = [] → ∀ c ∈ r.head?, p c = false) :
    splitWhile p (cs ++ r) = ((splitWhile p cs).1, (splitWhile p cs).2 ++ r) := by
  unfold splitWhile at h ⊢
  induction cs with
  | nil =>
    cases r with
    | nil => rfl
    | cons c r => simp [h rfl c rfl]
  | cons d cs ih =>
    by_cases hd : p d = true
    · simp only [List.cons_append, List.takeWhile_cons, List.dropWhile_cons, hd, if_true] at h ⊢
      rw [Prod.mk.injEq] at ih ⊢
      exact ⟨by rw [(ih h).1], (ih h).2⟩
    · simp [hd]

theorem digits1_append {cs r : List Char} {s : Split} (hs : digits1 cs = some s)
    (h : s.2 = [] → ∀ c ∈ r.head?, c.isDigit = false) :
    digits1 (cs ++ r) = some (s.1, s.2 ++ r) := by
  unfold digits1 at hs ⊢
  split at hs
  · cases hs
  · next hne =>
    obtain rfl := Option.some.inj hs
    rw [splitWhile_append h, if_neg hne]

namespace Breaks

variable {r : List Char}

theorem not_identPart (h : Breaks r) : ∀ c ∈ r.head?, isIdentPart c = false := by
  intro c hc
  have hbreak := h c hc
  simp only [isBreak, Bool.and_eq_true, Bool.not_eq_true'] at hbreak
  exact hbreak.1.1

theorem not_namePart (h : Breaks r) : ∀ c ∈ r.head?, isNamePart c = false := by
  intro c hc
  have hc := h.not_identPart c hc
  simp only [isIdentPart, Bool.or_eq_false_iff] at hc
  exact hc.1

theorem not_digit (h : Breaks r) : ∀ c ∈ r.head?, c.isDigit = false := by
  intro c hc
  have hc := h.not_namePart c hc
  simp only [isNamePart, Char.isAlphanum, Bool.or_eq_false_iff] at hc
  exact hc.1.2

theorem exponent_eq_none (h : Breaks r) : exponent r = none := by
  cases r with
  | nil => rfl
  | cons c r =>
    have hc := h.not_namePart c rfl
    unfold exponent
    dsimp only
    rw [if_neg]
    intro hmark
    rw [Bool.or_eq_true, decide_eq_true_eq, decide_eq_true_eq] at hmark
    rcases hmark with rfl | rfl <;> revert hc <;> decide

theorem realTail_eq_none (h : Breaks r) : realTail r = none := by
  unfold realTail
  split
  · exact absurd (h '.' rfl) (by decide)
  · exact h.exponent_eq_none

end Breaks

theorem exponent_append {cs r : List Char} {s : Split} (hs : exponent cs = some s)
    (h : s.2 = [] → ∀ c ∈ r.head?, c.isDigit = false) :
    exponent (cs ++ r) = some (s.1, s.2 ++ r) := by
  cases cs with
  | nil => cases hs
  | cons mark cs =>
    unfold exponent at hs
    dsimp only at hs
    split at hs
    · next hmark =>
      split at hs
      · next sign ds =>
        unfold exponent
        rw [List.cons_append, List.cons_append]
        dsimp only
        rw [if_pos hmark]
        split at hs
        · next hsign =>
          obtain ⟨t, ht, rfl⟩ := Option.map_eq_some_iff.1 hs
          rw [if_pos hsign, digits1_append ht h]
          rfl
        · next hsign =>
          obtain ⟨t, ht, rfl⟩ := Option.map_eq_some_iff.1 hs
          rw [if_neg hsign, ← List.cons_append, digits1_append ht h]
          rfl
      · cases hs
    · cases hs

theorem realTail_append {cs r taken : List Char} (hs : realTail cs = some (taken, []))
    (h : Breaks r) : realTail (cs ++ r) = some (taken, r) := by
  unfold realTail at hs
  split at hs
  · next cs =>
    obtain ⟨fraction, hfraction, hs⟩ := Option.map_eq_some_iff.1 hs
    show (digits1 (cs ++ r)).map _ = _
    rw [digits1_append hfraction fun _ => h.not_digit, Option.map_some]
    split at hs
    · next e he =>
      obtain ⟨rfl, hrest⟩ := Prod.mk.inj hs
      rw [exponent_append he fun _ => h.not_digit, hrest, List.nil_append]
    · next he =>
      obtain ⟨rfl, hrest⟩ := Prod.mk.inj hs
      rw [hrest, List.nil_append, h.exponent_eq_none]
  · next hdot =>
    have hlonger := exponent_append hs fun _ => h.not_digit
    cases cs with
    | nil => cases hs
    | cons c cs =>
      unfold realTail
      split
      · next heq =>
        obtain ⟨rfl, -⟩ := List.cons.inj heq
        exact absurd rfl (hdot cs)
      · exact hlonger

theorem numeral_append {sign cs r : List Char} {l : Lexeme} (hs : numeral sign cs = some (l, []))
    (h : Breaks r) : numeral sign (cs ++ r) = some (l, r) := by
  obtain ⟨whole, hwhole, hs⟩ := Option.map_eq_some_iff.1 hs
  unfold numeral
  rw [digits1_append hwhole fun _ => h.not_digit, Option.map_some]
  split at hs
  · next tail htail =>
    obtain ⟨rfl, hrest⟩ := Prod.mk.inj hs
    obtain ⟨taken, rest⟩ := tail
    obtain rfl : rest = [] := hrest
    rw [realTail_append htail h]
  · next htail =>
    obtain ⟨rfl, hrest⟩ := Prod.mk.inj hs
    rw [hrest, List.nil_append, h.realTail_eq_none]

theorem character_append {cs : List Char} {l : Lexeme} (hs : character cs = some (l, []))
    (r : List Char) : character (cs ++ r) = some (l, r) := by
  unfold character at hs
  split at hs
  · next c cs =>
    split at hs
    · next hc =>
      obtain ⟨rfl, rfl⟩ := Prod.mk.inj (Option.some.inj hs)
      show (if escapable.contains c then _ else none) = _
      rw [if_pos hc]
      rfl
    · cases hs
  · next c cs hnot =>
    split at hs
    · cases hs
    · next hc =>
      obtain ⟨rfl, rfl⟩ := Prod.mk.inj (Option.some.inj hs)
      have hbackslash : c ≠ '\\' := by
        rintro rfl
        exact hc rfl
      show character (c :: '\'' :: r) = _
      rw [character, if_neg hc]
      exact fun _ heq _ => absurd heq hbackslash
  · cases hs

theorem sigilName_append {lexeme : String → Lexeme} {cs r : List Char} {l : Lexeme}
    (hs : sigilName lexeme cs = some (l, [])) (h : Breaks r) :
    sigilName lexeme (cs ++ r) = some (l, r) := by
  cases cs with
  | nil => cases hs
  | cons c cs =>
    unfold sigilName at hs ⊢
    dsimp only [List.cons_append] at hs ⊢
    split at hs
    · next hc =>
      obtain ⟨rfl, hrest⟩ := Prod.mk.inj (Option.some.inj hs)
      rw [if_pos hc, splitWhile_append fun _ => h.not_namePart, hrest, List.nil_append]
    · cases hs

theorem mark?_append {cs r : List Char} {m : Mark} (hs : mark? cs = some (m, []))
    (h : Breaks r) : mark? (cs ++ r) = some (m, r) := by
  have hcs : cs = m.text.toList := by simpa using (mark?_eq hs).1
  rw [hcs]
  cases m with
  | equal =>
    -- The one mark that is the beginning of another.
    show mark? ('=' :: r) = _
    rw [mark?]
    rintro cs rfl
    exact absurd (h '>' rfl) (by decide)
  | _ => rfl

/-- A minus sign before a numeral is no mark. -/
theorem mark?_minus_eq_none {sign cs : List Char} {p : Lexeme × List Char}
    (hs : numeral sign cs = some p) (r : List Char) : mark? ('-' :: (cs ++ r)) = none := by
  obtain ⟨whole, hwhole, -⟩ := Option.map_eq_some_iff.1 hs
  cases cs with
  | nil => cases hwhole
  | cons d cs =>
    have hd : d ≠ '>' := by
      rintro rfl
      cases hwhole
    cases hm : mark? ('-' :: (d :: cs ++ r)) with
    | none => rfl
    | some p =>
      have heq := (mark?_eq hm).1
      cases hp : p.1 with
      | arrow =>
        rw [hp] at heq
        exact absurd (List.cons.inj (List.cons.inj heq).2).1 hd
      | _ =>
        rw [hp] at heq
        exact absurd (List.cons.inj heq).1 (by decide)

/-- **A lexeme extends no further than to a break.** -/
theorem lexeme?_append {cs r : List Char} {l : Lexeme} (hs : lexeme? cs = some (l, []))
    (h : Breaks r) : lexeme? (cs ++ r) = some (l, r) := by
  cases cs with
  | nil => cases hs
  | cons c cs =>
    unfold lexeme? at hs ⊢
    dsimp only [List.cons_append] at hs ⊢
    -- The kinds of lexemes one after the other, in the order in which they are
    -- tried.
    split at hs
    · next hc =>
      obtain ⟨rfl, hrest⟩ := Prod.mk.inj (Option.some.inj hs)
      rw [if_pos hc, splitWhile_append fun _ => h.not_identPart, hrest, List.nil_append]
    · next hstart =>
      rw [if_neg hstart]
      split at hs
      · next hc =>
        rw [if_pos hc]
        exact numeral_append hs h
      · next hdigit =>
        rw [if_neg hdigit]
        split at hs
        · next hc =>
          rw [if_pos hc]
          exact character_append hs r
        · next hquote =>
          rw [if_neg hquote]
          split at hs
          · next hc =>
            rw [if_pos hc]
            exact sigilName_append hs h
          · next hat =>
            rw [if_neg hat]
            split at hs
            · next hc =>
              rw [if_pos hc]
              exact sigilName_append hs h
            · next hhash =>
              rw [if_neg hhash]
              split at hs
              · next m rest hm =>
                obtain ⟨rfl, rfl⟩ := Prod.mk.inj (Option.some.inj hs)
                have hlonger := mark?_append hm h
                rw [List.cons_append] at hlonger
                rw [hlonger]
              · split at hs
                · next hc =>
                  rw [hc, mark?_minus_eq_none hs, if_pos rfl]
                  exact numeral_append hs h
                · cases hs

/-- Where a gap begins, no lexeme does. -/
theorem lexeme?_eq_none {c : Char} (h : isSpace c = true ∨ c = '/') (cs : List Char) :
    lexeme? (c :: cs) = none := by
  simp only [isSpace, Bool.or_eq_true, beq_iff_eq] at h
  rcases h with ((((rfl | rfl) | rfl) | rfl) | rfl) | rfl <;> rfl

theorem gap?_eq_none_of_lexeme? {cs rest : List Char} {l : Lexeme}
    (hs : lexeme? cs = some (l, rest)) (r : List Char) : gap? (cs ++ r) = none := by
  cases cs with
  | nil => cases hs
  | cons c cs =>
    have hc : ¬ (isSpace c = true ∨ c = '/') := by
      intro hc
      rw [lexeme?_eq_none hc cs] at hs
      cases hs
    rw [not_or] at hc
    rw [List.cons_append, gap?, if_neg hc.1]
    · exact fun _ heq _ => absurd heq hc.2
    · exact fun _ heq _ => absurd heq hc.2

end Scan

/-! ## Lexemes one by one -/

/-- **Whether a lexeme is one**: whether its text, on its own, reads as this
lexeme and leaves nothing. -/
def Lexeme.isProper (l : Lexeme) : Bool := Scan.lexeme? l.text.toList == some (l, [])

theorem Lexeme.isProper_keyword (k : Keyword) : (Lexeme.keyword k).isProper = true := by
  cases k <;> decide

theorem Lexeme.isProper_mark (m : Mark) : (Lexeme.mark m).isProper = true := by
  cases m <;> decide

/-- What can stand after one sigil can stand after the other. -/
theorem Lexeme.isProper_directive {s : String} (h : (Lexeme.intrinsic s).isProper = true) :
    (Lexeme.directive s).isProper = true := by
  have hscan : Scan.sigilName .intrinsic s.toList = some (.intrinsic s, []) := by
    have hlexeme := eq_of_beq h
    rw [text, String.toList_append] at hlexeme
    exact hlexeme
  unfold isProper
  rw [text, String.toList_append, beq_iff_eq]
  show Scan.sigilName .directive s.toList = _
  unfold Scan.sigilName at hscan ⊢
  split at hscan
  · split at hscan
    · next hc =>
      obtain ⟨hs, hrest⟩ := Prod.mk.inj (Option.some.inj hscan)
      rw [if_pos hc]
      dsimp only
      rw [hrest, Lexeme.intrinsic.inj hs]
    · cases hscan
  · cases hscan

namespace Scan

variable {r : List Char}

/-- **A lexeme before a break is a piece.** -/
theorem pieces_lexeme {l : Lexeme} (hl : l.isProper = true) (h : Breaks r) :
    pieces (l.text.toList ++ r) = .lexeme l :: pieces r := by
  have hl := eq_of_beq hl
  exact pieces_of_lexeme (gap?_eq_none_of_lexeme? hl r) (lexeme?_append hl h)

/-- A mark is a piece wherever it stands, if it begins no longer mark. -/
theorem pieces_mark {m : Mark} (hm : m ≠ .equal) (r : List Char) :
    pieces (m.text.toList ++ r) = .lexeme (.mark m) :: pieces r := by
  have hl := eq_of_beq (Lexeme.isProper_mark m)
  refine pieces_of_lexeme (gap?_eq_none_of_lexeme? hl r) ?_
  cases m with
  | equal => exact absurd rfl hm
  | _ => rfl

theorem gap?_space {c : Char} (hc : isSpace c = true) (r : List Char) :
    gap? (c :: r) = some (c :: r.takeWhile isSpace, r.dropWhile isSpace) := by
  have hslash : c ≠ '/' := by
    rintro rfl
    exact absurd hc (by decide)
  rw [gap?, if_pos hc]
  · rfl
  · exact fun _ heq _ => absurd heq hslash
  · exact fun _ heq _ => absurd heq hslash

/-- **A blank is no piece.** -/
theorem pieces_space {c : Char} (hc : isSpace c = true) (r : List Char) :
    pieces (c :: r) = pieces r := by
  rw [pieces_of_gap (gap?_space hc r)]
  cases r with
  | nil => rfl
  | cons d r =>
    by_cases hd : isSpace d = true
    · rw [pieces_of_gap (gap?_space hd r), List.dropWhile_cons_of_pos hd]
    · rw [List.dropWhile_cons_of_neg hd]

/-- Blanks are no pieces. -/
theorem pieces_spaces {cs : List Char} (hcs : ∀ c ∈ cs, isSpace c = true) (r : List Char) :
    pieces (cs ++ r) = pieces r := by
  induction cs with
  | nil => rfl
  | cons c cs ih =>
    rw [List.cons_append, pieces_space (hcs c List.mem_cons_self)]
    exact ih fun d hd => hcs d (List.mem_cons_of_mem c hd)

/-! ## What is read is proper

Each rule, given just what it took, takes it again. -/

theorem splitWhile_of_all {p : Char → Bool} {cs : List Char} (h : ∀ c ∈ cs, p c = true) :
    splitWhile p cs = (cs, []) := by
  have htake : (cs ++ []).takeWhile p = cs ++ [].takeWhile p := List.takeWhile_append_of_pos h
  have hdrop : (cs ++ []).dropWhile p = [].dropWhile p := List.dropWhile_append_of_pos h
  rw [List.append_nil, List.takeWhile_nil, List.append_nil] at htake
  rw [List.append_nil, List.dropWhile_nil] at hdrop
  exact Prod.ext htake hdrop

theorem splitWhile_alone (p : Char → Bool) (cs : List Char) :
    splitWhile p (splitWhile p cs).1 = ((splitWhile p cs).1, []) :=
  splitWhile_of_all fun _ hc => List.all_eq_true.1 List.all_takeWhile _ hc

theorem digits1_alone {cs : List Char} {s : Split} (h : digits1 cs = some s) :
    digits1 s.1 = some (s.1, []) := by
  unfold digits1 at h ⊢
  split at h
  · cases h
  · next hne =>
    obtain rfl := Option.some.inj h
    rw [splitWhile_alone, if_neg hne]

theorem digits1_digits {cs : List Char} {s : Split} (h : digits1 cs = some s) :
    ∀ c ∈ s.1, c.isDigit = true := by
  unfold digits1 at h
  split at h
  · cases h
  · obtain rfl := Option.some.inj h
    exact fun c hc => List.all_eq_true.1 List.all_takeWhile c hc

theorem exponent_alone {cs : List Char} {s : Split} (h : exponent cs = some s) :
    exponent s.1 = some (s.1, []) ∧ ∀ c ∈ s.1.head?, c.isDigit = false := by
  unfold exponent at h
  split at h
  · next mark cs =>
    split at h
    · next hmark =>
      have hdigit : mark.isDigit = false := by
        rw [Bool.or_eq_true, decide_eq_true_eq, decide_eq_true_eq] at hmark
        rcases hmark with rfl | rfl <;> rfl
      split at h
      · next sign ds =>
        split at h
        · next hsign =>
          obtain ⟨t, ht, rfl⟩ := Option.map_eq_some_iff.1 h
          refine ⟨?_, by rintro c ⟨⟩; exact hdigit⟩
          unfold exponent
          dsimp only
          rw [if_pos hmark, if_pos hsign, digits1_alone ht]
          rfl
        · next hsign =>
          obtain ⟨t, ht, rfl⟩ := Option.map_eq_some_iff.1 h
          refine ⟨?_, by rintro c ⟨⟩; exact hdigit⟩
          obtain ⟨heq, hne⟩ := digits1_eq ht
          unfold exponent
          dsimp only
          rw [if_pos hmark]
          cases ht' : t.1 with
          | nil => exact absurd ht' hne
          | cons d ds' =>
            rw [ht'] at heq
            obtain ⟨rfl, -⟩ := List.cons.inj heq
            dsimp only
            rw [if_neg hsign, ← ht', digits1_alone ht]
            rfl
      · cases h
    · cases h
  · cases h

theorem realTail_alone {cs : List Char} {s : Split} (h : realTail cs = some s) :
    realTail s.1 = some (s.1, []) ∧ ∀ c ∈ s.1.head?, c.isDigit = false := by
  unfold realTail at h
  split at h
  · next cs =>
    obtain ⟨fraction, hfraction, h⟩ := Option.map_eq_some_iff.1 h
    have halone := digits1_alone hfraction
    split at h
    · next e he =>
      obtain ⟨heAlone, hehead⟩ := exponent_alone he
      subst h
      refine ⟨?_, by rintro c ⟨⟩; rfl⟩
      show (digits1 (fraction.1 ++ e.1)).map _ = _
      rw [digits1_append halone fun _ => hehead, List.nil_append, Option.map_some, heAlone]
    · next he =>
      subst h
      refine ⟨?_, by rintro c ⟨⟩; rfl⟩
      show (digits1 fraction.1).map _ = _
      rw [halone]
      rfl
  · next hdot =>
    obtain ⟨halone, hhead⟩ := exponent_alone h
    refine ⟨?_, hhead⟩
    unfold realTail
    split
    · next heq =>
      rw [heq] at halone
      cases halone
    · exact halone

theorem numeral_alone {sign cs rest : List Char} {l : Lexeme}
    (h : numeral sign cs = some (l, rest)) :
    ∃ d ds, l.text.toList = sign ++ d :: ds ∧ numeral sign (d :: ds) = some (l, [])
      ∧ d.isDigit = true := by
  obtain ⟨whole, hwhole, h⟩ := Option.map_eq_some_iff.1 h
  have halone := digits1_alone hwhole
  obtain ⟨d, ds, hdigits⟩ := List.exists_cons_of_ne_nil (digits1_eq hwhole).2
  have hd : d.isDigit = true := digits1_digits hwhole d (hdigits ▸ List.mem_cons_self)
  split at h
  · next tail htail =>
    obtain ⟨rfl, -⟩ := Prod.mk.inj h
    obtain ⟨htailAlone, hhead⟩ := realTail_alone htail
    refine ⟨d, ds ++ tail.1, ?_, ?_, hd⟩
    · rw [Lexeme.text, String.toList_ofList, hdigits, List.append_assoc, List.cons_append]
    · unfold numeral
      rw [← List.cons_append, ← hdigits, digits1_append halone fun _ => hhead, Option.map_some,
        List.nil_append, htailAlone]
  · obtain ⟨rfl, -⟩ := Prod.mk.inj h
    refine ⟨d, ds, ?_, ?_, hd⟩
    · rw [Lexeme.text, String.toList_ofList, hdigits]
    · unfold numeral
      rw [← hdigits, halone]
      rfl

theorem character_alone {cs rest : List Char} {l : Lexeme} (h : character cs = some (l, rest)) :
    ∃ taken, l.text.toList = '\'' :: taken ∧ character taken = some (l, []) := by
  unfold character at h
  split at h
  · next c cs =>
    split at h
    · next hc =>
      obtain ⟨rfl, rfl⟩ := Prod.mk.inj (Option.some.inj h)
      refine ⟨['\\', c, '\''], by simp [Lexeme.text], ?_⟩
      show (if escapable.contains c then _ else none) = _
      rw [if_pos hc]
    · cases h
  · next c cs hnot =>
    split at h
    · cases h
    · next hc =>
      obtain ⟨rfl, rfl⟩ := Prod.mk.inj (Option.some.inj h)
      refine ⟨[c, '\''], by simp [Lexeme.text], ?_⟩
      rw [character, if_neg hc]
      rintro cs' - ⟨⟩
  · cases h

theorem sigilName_alone {lexeme : String → Lexeme} {cs rest : List Char} {l : Lexeme}
    (h : sigilName lexeme cs = some (l, rest)) :
    ∃ name : String, l = lexeme name ∧ sigilName lexeme name.toList = some (l, []) := by
  unfold sigilName at h
  split at h
  · next c cs =>
    split at h
    · next hc =>
      obtain ⟨rfl, -⟩ := Prod.mk.inj (Option.some.inj h)
      refine ⟨_, rfl, ?_⟩
      rw [String.toList_ofList]
      unfold sigilName
      dsimp only
      rw [if_pos hc, splitWhile_alone]
    · cases h
  · cases h

theorem not_isNameStart_of_isDigit {c : Char} (h : c.isDigit = true) :
    ¬ isNameStart c = true := by
  simp only [Char.isDigit, Bool.and_eq_true, decide_eq_true_eq, UInt32.le_iff_toNat_le, ge_iff_le]
    at h
  simp only [isNameStart, Char.isAlpha, Char.isUpper, Char.isLower, Bool.or_eq_true,
    Bool.and_eq_true, decide_eq_true_eq, beq_iff_eq, UInt32.le_iff_toNat_le, ge_iff_le]
  rintro ((⟨hlow, -⟩ | ⟨hlow, -⟩) | rfl)
  · exact absurd (Nat.le_trans hlow h.2) (by decide)
  · exact absurd (Nat.le_trans hlow h.2) (by decide)
  · revert h
    decide

/-- **What is read as a lexeme reads as this lexeme on its own.** -/
theorem lexeme?_alone {cs rest : List Char} {l : Lexeme} (h : lexeme? cs = some (l, rest)) :
    lexeme? l.text.toList = some (l, []) := by
  unfold lexeme? at h
  split at h
  · cases h
  · next c cs =>
    split at h
    · next hc =>
      obtain ⟨rfl, -⟩ := Prod.mk.inj (Option.some.inj h)
      rw [word_text, String.toList_ofList]
      unfold lexeme?
      dsimp only
      rw [if_pos hc, splitWhile_alone]
    · split at h
      · obtain ⟨d, ds, htext, halone, hd⟩ := numeral_alone h
        rw [htext, List.nil_append]
        unfold lexeme?
        dsimp only
        rw [if_neg (not_isNameStart_of_isDigit hd), if_pos hd, halone]
      · split at h
        · obtain ⟨taken, htext, halone⟩ := character_alone h
          rw [htext]
          exact halone
        · split at h
          · obtain ⟨name, rfl, halone⟩ := sigilName_alone h
            show lexeme? ("@" ++ name).toList = _
            rw [String.toList_append]
            exact halone
          · split at h
            · obtain ⟨name, rfl, halone⟩ := sigilName_alone h
              show lexeme? ("#" ++ name).toList = _
              rw [String.toList_append]
              exact halone
            · split at h
              · obtain ⟨rfl, -⟩ := Prod.mk.inj (Option.some.inj h)
                exact eq_of_beq (Lexeme.isProper_mark _)
              · split at h
                · obtain ⟨d, ds, htext, halone, hd⟩ := numeral_alone h
                  have hmark := mark?_minus_eq_none halone []
                  rw [List.append_nil] at hmark
                  rw [htext]
                  unfold lexeme?
                  dsimp only [List.cons_append, List.nil_append]
                  rw [if_neg (by decide), if_neg (by decide), if_neg (by decide),
                    if_neg (by decide), if_neg (by decide), hmark]
                  exact halone
                · cases h

end Scan

theorem Lexeme.isProper_of_lexeme? {cs rest : List Char} {l : Lexeme}
    (h : Scan.lexeme? cs = some (l, rest)) : l.isProper = true := by
  unfold isProper
  rw [Scan.lexeme?_alone h, beq_self_eq_true]

end EmberLang
