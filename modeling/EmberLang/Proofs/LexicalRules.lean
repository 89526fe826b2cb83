import EmberLang.Proofs.Accepted
import Mathlib.Computability.Language
import Mathlib.Data.List.DropRight

/-!
# The lexical rules

What a text may hold is said by rules, and a rule is a language: the words,
the numerals, the characters between quotes, the names with a sigil, the
marks, and the gaps between all of these. The languages below are written
with alternatives, sequence and repetition, and they know nothing of how a
text is split.

The scanner splits a text as the rules have it. It takes, at each place,
the longest word that any rule of a token has there, and it stops only
where no rule has a word. So a numeral is real whenever it can be, `=>` is
one mark, and a keyword is one only where no longer name stands. A gap is
the longest run of blanks, the whole rest of a line, or what a block
comment holds up to its first `*/`.

What it takes is cut from the text without a remainder, and every token is
placed where it stands: its line counts the newlines before it, and its
column the characters since the last of them.
-/

namespace EmberLang

open scoped Computability
open Scan

namespace Rule

/-! ## The rules -/

/-- One character of a class. -/
def oneOf (p : Char → Bool) : Language Char := {w | ∃ c, p c = true ∧ w = [c]}

/-- One character. -/
def only (c : Char) : Language Char := oneOf (· == c)

/-- Digits, at least one. -/
def digits : Language Char := oneOf Char.isDigit * (oneOf Char.isDigit)∗

/-- The marks of an exponent. -/
def isExponentMark (c : Char) : Bool := c = 'e' || c = 'E'

/-- The signs of an exponent. -/
def isSign (c : Char) : Bool := c = '+' || c = '-'

/-- An exponent: its mark, an optional sign, and digits. -/
def exponent : Language Char := oneOf isExponentMark * ((1 + oneOf isSign) * digits)

/-- What makes a numeral real: a fraction with an optional exponent, or an
exponent alone. -/
def realTail : Language Char := only '.' * (digits * (1 + exponent)) + exponent

/-- Integer numerals. -/
def int : Language Char := (1 + only '-') * digits

/-- Real numerals. -/
def real : Language Char := (1 + only '-') * (digits * realTail)

/-- Words: names and keywords. -/
def word : Language Char := oneOf isNameStart * (oneOf isIdentPart)∗

/-- Characters between quotes. -/
def character : Language Char :=
  only '\'' * ((oneOf (fun c => c != '\'' && c != '\\' && c != '\n')
    + only '\\' * oneOf escapable.contains) * only '\'')

/-- Names with a sigil. -/
def sigil (c : Char) : Language Char := only c * (oneOf isNameStart * (oneOf isNamePart)∗)

/-- The punctuation marks. -/
def mark : Language Char := {w | ∃ m : Mark, w = m.text.toList}

/-- **What a token may be.** -/
def token : Language Char := word + (int + real) + character + sigil '@' + sigil '#' + mark

/-- Runs of blanks. -/
def blanks : Language Char := oneOf isSpace * (oneOf isSpace)∗

/-- Comments to the end of the line. -/
def lineComment : Language Char := only '/' * (only '/' * (oneOf (· != '\n'))∗)

/-- What may follow the opening of a block comment, up to some `*/`. -/
def commentRest : Language Char := (oneOf fun _ => true)∗ * (only '*' * only '/')

/-- Block comments. -/
def blockComment : Language Char := only '/' * (only '*' * commentRest)

/-- **What a gap may be.** -/
def gap : Language Char := blanks + lineComment + blockComment

theorem mem_oneOf_mul {p : Char → Bool} {L : Language Char} {w : List Char} :
    w ∈ oneOf p * L ↔ ∃ c v, p c = true ∧ v ∈ L ∧ w = c :: v := by
  rw [Language.mem_mul]
  constructor
  · rintro ⟨_, ⟨c, hc, rfl⟩, v, hv, rfl⟩
    exact ⟨c, v, hc, hv, rfl⟩
  · rintro ⟨c, v, hc, hv, rfl⟩
    exact ⟨[c], ⟨c, hc, rfl⟩, v, hv, rfl⟩

theorem mem_kstar_oneOf {p : Char → Bool} {w : List Char} :
    w ∈ (oneOf p)∗ ↔ ∀ c ∈ w, p c = true := by
  rw [Language.mem_kstar]
  constructor
  · rintro ⟨ws, rfl, hws⟩ c hc
    obtain ⟨v, hv, hcv⟩ := List.mem_flatten.1 hc
    obtain ⟨d, hd, rfl⟩ := hws v hv
    rwa [List.mem_singleton.1 hcv]
  · intro h
    refine ⟨w.map fun c => [c], by rw [← List.flatMap_def, List.flatMap_singleton'], ?_⟩
    rintro v hv
    obtain ⟨c, hc, rfl⟩ := List.mem_map.1 hv
    exact ⟨c, h c hc, rfl⟩

theorem mem_digits {w : List Char} : w ∈ digits ↔ w ≠ [] ∧ ∀ c ∈ w, c.isDigit = true := by
  rw [digits, mem_oneOf_mul]
  constructor
  · rintro ⟨c, v, hc, hv, rfl⟩
    exact ⟨List.cons_ne_nil c v, List.forall_mem_cons.2 ⟨hc, mem_kstar_oneOf.1 hv⟩⟩
  · rintro ⟨hne, h⟩
    cases w with
    | nil => exact absurd rfl hne
    | cons c v =>
      obtain ⟨hc, hv⟩ := List.forall_mem_cons.1 h
      exact ⟨c, v, hc, mem_kstar_oneOf.2 hv, rfl⟩

theorem mem_optional_mul {K L : Language Char} {w : List Char} :
    w ∈ (1 + K) * L ↔ w ∈ L ∨ w ∈ K * L := by
  rw [add_mul, one_mul, Language.mem_add]

theorem mem_mul_optional {K L : Language Char} {w : List Char} :
    w ∈ L * (1 + K) ↔ w ∈ L ∨ w ∈ L * K := by
  rw [mul_add, mul_one, Language.mem_add]

/-! ## Longest words -/

/-- **How a rule splits a text**: off its longest word there, if it has
one. -/
def Splits (L : Language Char) (cs : List Char) : Option Split → Prop
  | some s => cs = s.1 ++ s.2 ∧ s.1 ∈ L ∧ ∀ v ∈ L, v <+: cs → v.length ≤ s.1.length
  | none => ∀ v ∈ L, ¬ v <+: cs

variable {p : Char → Bool} {K L : Language Char} {c : Char} {cs : List Char} {r : Option Split}

theorem splits_oneOf_mul_nil (p : Char → Bool) (L : Language Char) :
    Splits (oneOf p * L) [] none := by
  intro v hv h
  obtain ⟨c, w, -, -, rfl⟩ := mem_oneOf_mul.1 hv
  exact List.cons_ne_nil c w (List.prefix_nil.1 h)

/-- A sequence that begins with a character of a class. -/
theorem splits_oneOf_mul (hc : p c = true) (h : Splits L cs r) :
    Splits (oneOf p * L) (c :: cs) (r.map fun s => (c :: s.1, s.2)) := by
  have hhead {v : List Char} (hv : v ∈ oneOf p * L) (hpre : v <+: c :: cs) :
      ∃ w ∈ L, w <+: cs ∧ v = c :: w := by
    obtain ⟨d, w, -, hw, rfl⟩ := mem_oneOf_mul.1 hv
    obtain ⟨rfl, hw'⟩ := List.cons_prefix_cons.1 hpre
    exact ⟨w, hw, hw', rfl⟩
  cases r with
  | none =>
    intro v hv hpre
    obtain ⟨w, hw, hw', -⟩ := hhead hv hpre
    exact h w hw hw'
  | some s =>
    obtain ⟨heq, hmem, hlongest⟩ := h
    refine ⟨congrArg (c :: ·) heq, mem_oneOf_mul.2 ⟨c, s.1, hc, hmem, rfl⟩, fun v hv hpre => ?_⟩
    obtain ⟨w, hw, hw', rfl⟩ := hhead hv hpre
    exact Nat.succ_le_succ (hlongest w hw hw')

theorem splits_oneOf_mul_none (hc : ¬ p c = true) : Splits (oneOf p * L) (c :: cs) none := by
  intro v hv h
  obtain ⟨d, w, hd, -, rfl⟩ := mem_oneOf_mul.1 hv
  exact hc ((List.cons_prefix_cons.1 h).1 ▸ hd)

/-- An alternative that has no word here changes nothing. -/
theorem Splits.add_right (h : Splits L cs r) (hK : Splits K cs none) : Splits (L + K) cs r := by
  cases r with
  | none => exact fun v hv => hv.elim (h v) (hK v)
  | some s =>
    exact ⟨h.1, .inl h.2.1, fun v hv hpre => hv.elim (h.2.2 v · hpre) (absurd hpre <| hK v ·)⟩

theorem Splits.add_left (h : Splits L cs r) (hK : Splits K cs none) : Splits (K + L) cs r :=
  add_comm L K ▸ h.add_right hK

/-- A repetition takes all it can. -/
theorem splits_kstar (p : Char → Bool) (cs : List Char) :
    Splits (oneOf p)∗ cs (some (splitWhile p cs)) := by
  refine ⟨(splitWhile_eq p cs).symm, mem_kstar_oneOf.2 ?_, ?_⟩
  · exact fun c hc => List.all_eq_true.1 List.all_takeWhile c hc
  · rintro v hv ⟨more, rfl⟩
    have htake : (v ++ more).takeWhile p = v ++ more.takeWhile p :=
      List.takeWhile_append_of_pos (mem_kstar_oneOf.1 hv)
    show v.length ≤ ((v ++ more).takeWhile p).length
    rw [htake, List.length_append]
    exact Nat.le_add_right _ _

theorem splits_digits (cs : List Char) : Splits digits cs (digits1 cs) := by
  cases cs with
  | nil => exact splits_oneOf_mul_nil _ _
  | cons c cs =>
    by_cases hc : c.isDigit = true
    · have heq : digits1 (c :: cs)
          = (some (splitWhile Char.isDigit cs)).map fun s => (c :: s.1, s.2) := by
        simp [digits1, splitWhile, hc]
      rw [heq]
      exact splits_oneOf_mul hc (splits_kstar _ cs)
    · have heq : digits1 (c :: cs) = none := by simp [digits1, splitWhile, hc]
      rw [heq]
      exact splits_oneOf_mul_none hc

/-- Digits followed by something else are all the digits there are. -/
theorem prefix_of_digits_append {ds t : List Char} {s : Split} (hds : ds ∈ digits)
    (ht : ∃ d u, t = d :: u ∧ ¬ d.isDigit = true) (h : ds ++ t <+: cs) (hs : digits1 cs = some s) :
    ds = s.1 ∧ t <+: s.2 := by
  obtain ⟨d, u, rfl, hd⟩ := ht
  obtain ⟨more, rfl⟩ := h
  obtain ⟨hne, hall⟩ := mem_digits.1 hds
  have hsplit : splitWhile Char.isDigit (ds ++ (d :: u ++ more)) = (ds, d :: u ++ more) := by
    rw [splitWhile_append, splitWhile_of_all hall]
    · rfl
    · rintro - c ⟨⟩
      exact Bool.eq_false_of_not_eq_true hd
  rw [List.append_assoc, digits1, hsplit, if_neg hne] at hs
  obtain rfl := Option.some.inj hs
  exact ⟨rfl, List.prefix_append _ _⟩

/-- **Digits with an optional part behind them.** The part does not begin
with a digit, so it is looked for behind all of the digits. -/
theorem splits_digits_mul_optional {part : List Char → Option Split}
    (hK : ∀ cs, Splits K cs (part cs)) (hstart : ∀ v ∈ K, ∃ d u, v = d :: u ∧ ¬ d.isDigit = true)
    (cs : List Char) :
    Splits (digits * (1 + K)) cs ((digits1 cs).map fun s =>
      match part s.2 with
      | some e => (s.1 ++ e.1, e.2)
      | none => s) := by
  have hdigits := splits_digits cs
  cases hs : digits1 cs with
  | none =>
    rw [hs] at hdigits
    intro v hv hpre
    obtain ⟨ds, hds, t, -, rfl⟩ := Language.mem_mul.1 hv
    exact hdigits ds hds ((List.prefix_append ds t).trans hpre)
  | some s =>
    rw [hs] at hdigits
    obtain ⟨heq, hmem, hlongest⟩ := hdigits
    have hpart := hK s.2
    rw [Option.map_some]
    cases he : part s.2 with
    | none =>
      rw [he] at hpart
      refine ⟨heq, mem_mul_optional.2 (.inl hmem), fun v hv hpre => ?_⟩
      rcases mem_mul_optional.1 hv with hv | hv
      · exact hlongest v hv hpre
      -- A longer word would have its part right behind all of the digits.
      · obtain ⟨ds, hds, t, ht, rfl⟩ := Language.mem_mul.1 hv
        exact absurd (prefix_of_digits_append hds (hstart t ht) hpre hs).2 (hpart t ht)
    | some e =>
      rw [he] at hpart
      obtain ⟨heq', hmem', hlongest'⟩ := hpart
      refine ⟨by rw [heq, heq', List.append_assoc],
        mem_mul_optional.2 (.inr (Language.append_mem_mul hmem hmem')), fun v hv hpre => ?_⟩
      show v.length ≤ (s.1 ++ e.1).length
      rw [List.length_append]
      rcases mem_mul_optional.1 hv with hv | hv
      · exact Nat.le_add_right_of_le (hlongest v hv hpre)
      · obtain ⟨ds, hds, t, ht, rfl⟩ := Language.mem_mul.1 hv
        obtain ⟨rfl, ht'⟩ := prefix_of_digits_append hds (hstart t ht) hpre hs
        rw [List.length_append]
        exact Nat.add_le_add_left (hlongest' t ht ht') _

theorem not_isDigit_of_isExponentMark (h : isExponentMark c = true) : ¬ c.isDigit = true := by
  rcases Bool.or_eq_true_iff.1 h with h | h <;> rw [of_decide_eq_true h] <;> decide

theorem not_isDigit_of_isSign (h : isSign c = true) : ¬ c.isDigit = true := by
  rcases Bool.or_eq_true_iff.1 h with h | h <;> rw [of_decide_eq_true h] <;> decide

/-- Digits with an optional sign before them. -/
theorem splits_signed (c : Char) (cs : List Char) :
    Splits ((1 + oneOf isSign) * digits) (c :: cs)
      (if isSign c then (digits1 cs).map fun s => (c :: s.1, s.2) else digits1 (c :: cs)) := by
  rw [add_mul, one_mul]
  split
  · next hc =>
    exact (splits_oneOf_mul hc (splits_digits cs)).add_left
      (splits_oneOf_mul_none (not_isDigit_of_isSign hc))
  · next hc => exact (splits_digits (c :: cs)).add_right (splits_oneOf_mul_none hc)

theorem splits_exponent (cs : List Char) : Splits exponent cs (Scan.exponent cs) := by
  match cs with
  | [] => exact splits_oneOf_mul_nil _ _
  | [c] =>
    have heq : Scan.exponent [c] = none := by simp [Scan.exponent]
    rw [heq]
    intro v hv hpre
    obtain ⟨d, w, -, hw, rfl⟩ := mem_oneOf_mul.1 hv
    have hw' : w <+: [] := (List.cons_prefix_cons.1 hpre).2
    exact (mem_optional_mul.1 hw).elim (splits_oneOf_mul_nil _ _ w · hw')
      (splits_oneOf_mul_nil _ _ w · hw')
  | c :: d :: cs =>
    have heq : Scan.exponent (c :: d :: cs) = if isExponentMark c then
        (if isSign d then (digits1 cs).map fun s => (d :: s.1, s.2) else digits1 (d :: cs)).map
          fun s => (c :: s.1, s.2)
        else none := by
      show (if isExponentMark c then
          if isSign d then (digits1 cs).map fun s => (c :: d :: s.1, s.2)
          else (digits1 (d :: cs)).map fun s => (c :: s.1, s.2)
        else none) = _
      cases isExponentMark c <;> cases isSign d <;> simp [Function.comp_def]
    rw [heq]
    split
    · next hc => exact splits_oneOf_mul hc (splits_signed d cs)
    · next hc => exact splits_oneOf_mul_none hc

theorem not_isDigit_of_mem_exponent {v : List Char} (hv : v ∈ exponent) :
    ∃ d u, v = d :: u ∧ ¬ d.isDigit = true := by
  obtain ⟨c, u, hc, -, rfl⟩ := mem_oneOf_mul.1 hv
  exact ⟨c, u, rfl, not_isDigit_of_isExponentMark hc⟩

theorem splits_realTail (cs : List Char) : Splits realTail cs (Scan.realTail cs) := by
  rw [realTail]
  by_cases hcs : ∃ ds, cs = '.' :: ds
  · obtain ⟨ds, rfl⟩ := hcs
    have h := splits_oneOf_mul (p := (· == '.')) (c := '.') rfl
      (splits_digits_mul_optional splits_exponent (fun _ => not_isDigit_of_mem_exponent) ds)
    have heq : Scan.realTail ('.' :: ds) = ((digits1 ds).map fun s =>
        match Scan.exponent s.2 with
        | some e => (s.1 ++ e.1, e.2)
        | none => s).map fun s => ('.' :: s.1, s.2) := by
      rw [Scan.realTail, Option.map_map]
      refine congrArg (Option.map · (digits1 ds)) (funext fun s => ?_)
      cases he : Scan.exponent s.2 <;> simp [he]
    rw [heq]
    exact h.add_right (splits_oneOf_mul_none (by decide))
  · have hexp : Scan.realTail cs = Scan.exponent cs := by
      rw [Scan.realTail]
      exact fun ds h => hcs ⟨ds, h⟩
    rw [hexp]
    refine (splits_exponent cs).add_left ?_
    cases cs with
    | nil => exact splits_oneOf_mul_nil _ _
    | cons c cs =>
      refine splits_oneOf_mul_none fun hc => hcs ⟨cs, ?_⟩
      rw [beq_iff_eq.1 hc]

theorem not_isDigit_of_mem_realTail {v : List Char} (hv : v ∈ realTail) :
    ∃ d u, v = d :: u ∧ ¬ d.isDigit = true := by
  rcases hv with hv | hv
  · obtain ⟨c, u, hc, -, rfl⟩ := mem_oneOf_mul.1 hv
    refine ⟨c, u, rfl, ?_⟩
    rw [beq_iff_eq.1 hc]
    decide
  · exact not_isDigit_of_mem_exponent hv

/-! ## Lexemes -/

/-- How a lexeme splits the text it was read from. -/
def splitOf (found : Option (Lexeme × List Char)) : Option Split :=
  found.map fun f => (f.1.text.toList, f.2)

theorem int_add_real : int + real = (1 + only '-') * (digits * (1 + realTail)) := by
  rw [int, real, ← mul_add, mul_add digits, mul_one]

theorem splitOf_numeral (sign cs : List Char) :
    splitOf (numeral sign cs) = ((digits1 cs).map fun s =>
      match Scan.realTail s.2 with
      | some e => (s.1 ++ e.1, e.2)
      | none => s).map fun s => (sign ++ s.1, s.2) := by
  rw [splitOf, numeral, Option.map_map, Option.map_map]
  refine congrArg (Option.map · (digits1 cs)) (funext fun s => ?_)
  cases ht : Scan.realTail s.2 <;> simp [ht, Lexeme.text]

/-- **Numerals without a sign.** -/
theorem splits_unsigned (cs : List Char) :
    Splits (digits * (1 + realTail)) cs ((digits1 cs).map fun s =>
      match Scan.realTail s.2 with
      | some e => (s.1 ++ e.1, e.2)
      | none => s) :=
  splits_digits_mul_optional splits_realTail (fun _ => not_isDigit_of_mem_realTail) cs

theorem splits_unsigned_none (hc : ¬ c.isDigit = true) (cs : List Char) :
    Splits (digits * (1 + realTail)) (c :: cs) none := by
  rw [digits, mul_assoc]
  exact splits_oneOf_mul_none hc

theorem splits_word (hc : isNameStart c = true) (cs : List Char) :
    Splits word (c :: cs)
      (some (c :: (splitWhile isIdentPart cs).1, (splitWhile isIdentPart cs).2)) :=
  splits_oneOf_mul hc (splits_kstar isIdentPart cs)

/-- A numeral without a sign. -/
theorem splits_int_add_real (hc : c.isDigit = true) (cs : List Char) :
    Splits (int + real) (c :: cs) (splitOf (numeral [] (c :: cs))) := by
  rw [int_add_real, add_mul, one_mul, splitOf_numeral]
  simp only [List.nil_append, Prod.mk.eta, Option.map_id']
  refine (splits_unsigned (c :: cs)).add_right (splits_oneOf_mul_none ?_)
  rw [beq_iff_eq]
  rintro rfl
  exact absurd hc (by decide)

/-- A numeral with its minus sign. -/
theorem splits_int_add_real_minus (cs : List Char) :
    Splits (int + real) ('-' :: cs) (splitOf (numeral ['-'] cs)) := by
  rw [int_add_real, add_mul, one_mul, splitOf_numeral]
  exact (splits_oneOf_mul (p := (· == '-')) rfl (splits_unsigned cs)).add_left
    (splits_unsigned_none (by decide) cs)

theorem splits_int_add_real_none (hc : ¬ c.isDigit = true) (hminus : c ≠ '-') (cs : List Char) :
    Splits (int + real) (c :: cs) none := by
  rw [int_add_real, add_mul, one_mul]
  exact (splits_unsigned_none hc cs).add_right (splits_oneOf_mul_none (by rwa [beq_iff_eq]))

theorem mem_character {v : List Char} : v ∈ character ↔
    (∃ c, (c ≠ '\'' ∧ c ≠ '\\' ∧ c ≠ '\n') ∧ v = ['\'', c, '\''])
      ∨ ∃ c, escapable.contains c = true ∧ v = ['\'', '\\', c, '\''] := by
  rw [character, only, mem_oneOf_mul]
  constructor
  · rintro ⟨_, w, hq, hw, rfl⟩
    obtain rfl := beq_iff_eq.1 hq
    obtain ⟨x, hx, _, ⟨_, hq, rfl⟩, rfl⟩ := Language.mem_mul.1 hw
    obtain rfl := beq_iff_eq.1 hq
    rcases hx with ⟨c, hc, rfl⟩ | hx
    · refine .inl ⟨c, ?_, rfl⟩
      simpa [and_assoc] using hc
    · obtain ⟨_, _, hb, ⟨c, hc, rfl⟩, rfl⟩ := mem_oneOf_mul.1 hx
      obtain rfl := beq_iff_eq.1 hb
      exact .inr ⟨c, hc, rfl⟩
  · have hquote : ['\''] ∈ oneOf (· == '\'') := ⟨'\'', rfl, rfl⟩
    rintro (⟨c, hc, rfl⟩ | ⟨c, hc, rfl⟩)
    · have hplain : [c] ∈ oneOf fun c => c != '\'' && c != '\\' && c != '\n' :=
        ⟨c, by simpa [and_assoc] using hc, rfl⟩
      exact ⟨'\'', _, rfl, Language.append_mem_mul (.inl hplain) hquote, rfl⟩
    · have hescaped : ['\\', c] ∈ only '\\' * oneOf escapable.contains :=
        mem_oneOf_mul.2 ⟨'\\', [c], rfl, ⟨c, hc, rfl⟩, rfl⟩
      exact ⟨'\'', _, rfl, Language.append_mem_mul (.inr hescaped) hquote, rfl⟩

/-- A character between quotes that a text begins with. -/
theorem prefix_of_mem_character {v : List Char} (hv : v ∈ character) (h : v <+: '\'' :: cs) :
    (∃ c ds, (c ≠ '\'' ∧ c ≠ '\\' ∧ c ≠ '\n') ∧ cs = c :: '\'' :: ds ∧ v.length = 3)
      ∨ ∃ c ds, escapable.contains c = true ∧ cs = '\\' :: c :: '\'' :: ds ∧ v.length = 4 := by
  obtain ⟨ds, hds⟩ := h
  rcases mem_character.1 hv with ⟨c, hc, rfl⟩ | ⟨c, hc, rfl⟩
  · exact .inl ⟨c, ds, hc, (List.cons.inj hds).2.symm, rfl⟩
  · exact .inr ⟨c, ds, hc, (List.cons.inj hds).2.symm, rfl⟩

theorem splits_character (cs : List Char) :
    Splits character ('\'' :: cs) (splitOf (Scan.character cs)) := by
  unfold Scan.character
  split
  · next c ds =>
    split
    · next hc =>
      refine ⟨by simp [Lexeme.text], mem_character.2 (.inr ⟨c, hc, by simp [Lexeme.text]⟩), ?_⟩
      intro v hv h
      have : v.length ≤ 4 := by
        rcases prefix_of_mem_character hv h with ⟨_, _, _, _, hlen⟩ | ⟨_, _, _, _, hlen⟩ <;> omega
      simpa [Lexeme.text] using this
    · next hc =>
      intro v hv h
      rcases prefix_of_mem_character hv h with ⟨d, _, hd, heq, -⟩ | ⟨d, _, hd, heq, -⟩
      · exact hd.2.1 (List.cons.inj heq).1.symm
      · rw [(List.cons.inj (List.cons.inj heq).2).1] at hc
        exact hc hd
  · next c ds hshape =>
    split
    · next hc =>
      intro v hv h
      rcases prefix_of_mem_character hv h with ⟨d, _, hd, heq, -⟩ | ⟨d, es, hd, heq, -⟩
      · rw [(List.cons.inj heq).1] at hc
        simp [hd] at hc
      · exact hshape es (List.cons.inj heq).1 (List.cons.inj (List.cons.inj heq).2).2
    · next hc =>
      have hc : c ≠ '\'' ∧ c ≠ '\\' ∧ c ≠ '\n' := by simpa [and_assoc] using hc
      refine ⟨by simp [Lexeme.text], mem_character.2 (.inl ⟨c, hc, by simp [Lexeme.text]⟩), ?_⟩
      intro v hv h
      rcases prefix_of_mem_character hv h with ⟨_, _, _, _, hlen⟩ | ⟨_, _, _, heq, -⟩
      · simp [Lexeme.text, hlen]
      · exact absurd (List.cons.inj heq).1 hc.2.1
  · next hescaped hplain =>
    intro v hv h
    rcases prefix_of_mem_character hv h with ⟨d, ds, -, rfl, -⟩ | ⟨d, ds, -, rfl, -⟩
    · exact hplain d ds rfl
    · exact hescaped d ds rfl

theorem text_intrinsic (op : String) :
    (Lexeme.intrinsic op).text.toList = '@' :: op.toList := by simp [Lexeme.text]

theorem text_directive (name : String) :
    (Lexeme.directive name).text.toList = '#' :: name.toList := by simp [Lexeme.text]

theorem splits_sigil {sign : Char} {lexeme : String → Lexeme}
    (htext : ∀ name, (lexeme name).text.toList = sign :: name.toList) (cs : List Char) :
    Splits (sigil sign) (sign :: cs) (splitOf (sigilName lexeme cs)) := by
  cases cs with
  | nil => exact splits_oneOf_mul (r := none) (beq_self_eq_true sign) (splits_oneOf_mul_nil _ _)
  | cons c cs =>
    rw [sigilName]
    split
    · next hc =>
      rw [sigil, only]
      have h := splits_oneOf_mul (p := (· == sign)) (beq_self_eq_true sign)
        (splits_oneOf_mul hc (splits_kstar isNamePart cs))
      simpa [splitOf, htext] using h
    · next hc =>
      exact splits_oneOf_mul (r := none) (beq_self_eq_true sign) (splits_oneOf_mul_none hc)

/-- No mark that a text begins with is longer than the one that is found
there. -/
theorem length_le_mark? {m : Mark} (h : m.text.toList <+: cs) :
    ∃ f, mark? cs = some f ∧ m.text.toList.length ≤ f.1.text.toList.length := by
  obtain ⟨ds, rfl⟩ := h
  cases m with
  | equal =>
    by_cases hds : ∃ es, ds = '>' :: es
    · obtain ⟨es, rfl⟩ := hds
      exact ⟨(.fatArrow, es), rfl, by simp [Mark.text]⟩
    · refine ⟨(.equal, ds), ?_, le_rfl⟩
      show mark? ('=' :: ds) = _
      rw [mark?]
      exact fun es hes => hds ⟨es, hes⟩
  | _ => exact ⟨_, rfl, le_rfl⟩

theorem splits_mark (cs : List Char) :
    Splits mark cs ((mark? cs).map fun f => (f.1.text.toList, f.2)) := by
  cases hm : mark? cs with
  | none =>
    rintro _ ⟨m, rfl⟩ h
    obtain ⟨f, hf, -⟩ := length_le_mark? h
    rw [hm] at hf
    cases hf
  | some f =>
    refine ⟨(mark?_eq hm).1, ⟨f.1, rfl⟩, ?_⟩
    rintro _ ⟨m, rfl⟩ h
    obtain ⟨g, hg, hlen⟩ := length_le_mark? h
    rw [hm] at hg
    obtain rfl := Option.some.inj hg
    exact hlen

/-- The characters that marks begin with. -/
def markStarts : List Char :=
  ['=', '-', '|', ',', '(', ')', '[', ']', '\x7b', '\x7d', ':', ';']

theorem notMem_markStarts (hp : markStarts.all (fun d => !p d) = true) (hc : p c = true) :
    c ∉ markStarts := by
  intro h
  have hnot := List.all_eq_true.1 hp c h
  rw [hc] at hnot
  cases hnot

theorem splits_mark_none (hc : c ∉ markStarts) (cs : List Char) : Splits mark (c :: cs) none := by
  rintro _ ⟨m, rfl⟩ ⟨ds, h⟩
  cases m <;> exact hc ((List.cons.inj h).1 ▸ by decide)

/-- Where a mark begins, no numeral does. -/
theorem splits_int_add_real_of_mark? {f : Mark × List Char} (hc : ¬ c.isDigit = true)
    (h : mark? (c :: cs) = some f) : Splits (int + real) (c :: cs) none := by
  by_cases hminus : c = '-'
  · subst hminus
    have hnumeral := splits_int_add_real_minus cs
    cases hn : numeral ['-'] cs with
    | none => rwa [hn] at hnumeral
    | some n =>
      have hmark := mark?_minus_eq_none hn []
      rw [List.append_nil, h] at hmark
      cases hmark
  · exact splits_int_add_real_none hc hminus cs

theorem splits_word_none (hc : ¬ isNameStart c = true) (cs : List Char) :
    Splits word (c :: cs) none := splits_oneOf_mul_none hc

theorem splits_character_none (hc : c ≠ '\'') (cs : List Char) :
    Splits character (c :: cs) none := splits_oneOf_mul_none (by rwa [beq_iff_eq])

theorem splits_sigil_none (sign : Char) (hc : c ≠ sign) (cs : List Char) :
    Splits (sigil sign) (c :: cs) none := splits_oneOf_mul_none (by rwa [beq_iff_eq])

theorem splits_token_nil : Splits token [] none := by
  have hnumeral : Splits (int + real) [] none := by
    rw [int_add_real, add_mul, one_mul, digits, mul_assoc]
    exact (splits_oneOf_mul_nil _ _).add_right (splits_oneOf_mul_nil _ _)
  exact splits_oneOf_mul_nil _ _
    |>.add_right hnumeral
    |>.add_right (splits_oneOf_mul_nil _ _)
    |>.add_right (splits_oneOf_mul_nil _ _)
    |>.add_right (splits_oneOf_mul_nil _ _)
    |>.add_right (splits_mark [])

/-- **The scanner takes the longest word of any token rule**, and finds
nothing only where there is none. Which rule can have a word at all shows in
the first character; only marks and numerals share one, the minus sign. -/
theorem splits_token (cs : List Char) : Splits token cs (splitOf (lexeme? cs)) := by
  cases cs with
  | nil => exact splits_token_nil
  | cons c cs =>
    rw [lexeme?]
    split
    · next hc =>
      have hne {d : Char} (hd : ¬ isNameStart d = true) : c ≠ d := fun h => hd (h ▸ hc)
      have h := splits_word hc cs
        |>.add_right (splits_int_add_real_none (fun h => not_isNameStart_of_isDigit h hc)
          (hne (by decide)) cs)
        |>.add_right (splits_character_none (hne (by decide)) cs)
        |>.add_right (splits_sigil_none '@' (hne (by decide)) cs)
        |>.add_right (splits_sigil_none '#' (hne (by decide)) cs)
        |>.add_right (splits_mark_none (notMem_markStarts (by decide) hc) cs)
      rw [token]
      simpa [splitOf, word_text] using h
    next hword =>
    split
    · next hc =>
      have hne {d : Char} (hd : ¬ d.isDigit = true) : c ≠ d := fun h => hd (h ▸ hc)
      exact splits_int_add_real hc cs
        |>.add_left (splits_word_none hword cs)
        |>.add_right (splits_character_none (hne (by decide)) cs)
        |>.add_right (splits_sigil_none '@' (hne (by decide)) cs)
        |>.add_right (splits_sigil_none '#' (hne (by decide)) cs)
        |>.add_right (splits_mark_none (notMem_markStarts (by decide) hc) cs)
    next hdigit =>
    split
    · next hc =>
      subst hc
      exact splits_character cs
        |>.add_left ((splits_word_none hword cs).add_right
          (splits_int_add_real_none hdigit (by decide) cs))
        |>.add_right (splits_sigil_none '@' (by decide) cs)
        |>.add_right (splits_sigil_none '#' (by decide) cs)
        |>.add_right (splits_mark_none (by decide) cs)
    next hquote =>
    have hbefore : ∀ hminus : c ≠ '-', Splits (word + (int + real) + character) (c :: cs) none :=
      fun hminus => splits_word_none hword cs
        |>.add_right (splits_int_add_real_none hdigit hminus cs)
        |>.add_right (splits_character_none hquote cs)
    split
    · next hc =>
      subst hc
      exact splits_sigil text_intrinsic cs
        |>.add_left (hbefore (by decide))
        |>.add_right (splits_sigil_none '#' (by decide) cs)
        |>.add_right (splits_mark_none (by decide) cs)
    next hat =>
    split
    · next hc =>
      subst hc
      exact splits_sigil text_directive cs
        |>.add_left ((hbefore (by decide)).add_right (splits_sigil_none '@' (by decide) cs))
        |>.add_right (splits_mark_none (by decide) cs)
    next hhash =>
    have hothers {r : Option Split} (h : Splits (int + real) (c :: cs) r) :
        Splits (word + (int + real) + character + sigil '@' + sigil '#') (c :: cs) r :=
      h.add_left (splits_word_none hword cs)
        |>.add_right (splits_character_none hquote cs)
        |>.add_right (splits_sigil_none '@' hat cs)
        |>.add_right (splits_sigil_none '#' hhash cs)
    -- What is left is a mark or a negative numeral. A minus sign is part of a
    -- mark only in an arrow, and no digit stands behind it there.
    have hmark := splits_mark (c :: cs)
    rw [token]
    cases hm : mark? (c :: cs) with
    | some f =>
      rw [hm] at hmark
      exact hmark.add_left (hothers (splits_int_add_real_of_mark? hdigit hm))
    | none =>
      rw [hm] at hmark
      dsimp only
      split
      · next hc =>
        subst hc
        exact (hothers (splits_int_add_real_minus cs)).add_right hmark
      · next hc => exact (hothers (splits_int_add_real_none hdigit hc cs)).add_right hmark

end Rule

/-- **The rule of a lexeme's family.** Keywords are words. -/
def Lexeme.rule : Lexeme → Language Char
  | ident _ | keyword _ => Rule.word
  | int _ => Rule.int
  | real _ => Rule.real
  | char _ => Rule.character
  | intrinsic _ => Rule.sigil '@'
  | directive _ => Rule.sigil '#'
  | mark _ => Rule.mark

namespace Rule

theorem text_mem_rule_of_numeral {sign cs rest : List Char} {l : Lexeme}
    (hsign : sign ∈ 1 + only '-') (h : numeral sign cs = some (l, rest)) :
    l.text.toList ∈ l.rule := by
  obtain ⟨whole, hwhole, hl⟩ := Option.map_eq_some_iff.1 h
  have hdigits := splits_digits cs
  rw [hwhole] at hdigits
  split at hl
  · next tail htail =>
    have hreal := splits_realTail whole.2
    rw [htail] at hreal
    obtain ⟨rfl, -⟩ := Prod.mk.inj hl
    rw [Lexeme.text, String.toList_ofList, List.append_assoc]
    exact Language.append_mem_mul hsign (Language.append_mem_mul hdigits.2.1 hreal.2.1)
  · obtain ⟨rfl, -⟩ := Prod.mk.inj hl
    rw [Lexeme.text, String.toList_ofList]
    exact Language.append_mem_mul hsign hdigits.2.1

/-- **A lexeme is a word of its own rule.** -/
theorem text_mem_rule {cs rest : List Char} {l : Lexeme} (h : lexeme? cs = some (l, rest)) :
    l.text.toList ∈ l.rule := by
  cases cs with
  | nil => cases h
  | cons c cs =>
    rw [lexeme?] at h
    split at h
    · next hc =>
      obtain ⟨rfl, -⟩ := Prod.mk.inj (Option.some.inj h)
      have hrule : (Scan.word (c :: (splitWhile isIdentPart cs).1)).rule = word := by
        unfold Scan.word
        split <;> rfl
      rw [hrule, word_text, String.toList_ofList]
      exact (splits_word hc cs).2.1
    split at h
    · exact text_mem_rule_of_numeral (.inl rfl) h
    split at h
    · have hsplit := splits_character cs
      rw [h] at hsplit
      obtain ⟨c, -, rfl⟩ | ⟨c, rfl⟩ := character_cases h
      · exact hsplit.2.1
      · exact hsplit.2.1
    split at h
    · obtain ⟨name, rfl, -⟩ := sigilName_eq h
      have hsplit := splits_sigil text_intrinsic cs
      rw [h] at hsplit
      exact hsplit.2.1
    split at h
    · obtain ⟨name, rfl, -⟩ := sigilName_eq h
      have hsplit := splits_sigil text_directive cs
      rw [h] at hsplit
      exact hsplit.2.1
    split at h
    · next m _ _ =>
      obtain ⟨rfl, -⟩ := Prod.mk.inj (Option.some.inj h)
      exact ⟨m, rfl⟩
    split at h
    · exact text_mem_rule_of_numeral (.inr ⟨'-', rfl, rfl⟩) h
    · cases h

/-- A name that is read spells no keyword. -/
theorem ne_keyword_of_lexeme? {cs rest : List Char} {name : String}
    (h : lexeme? cs = some (.ident name, rest)) (k : Keyword) : name ≠ k.text := by
  rintro rfl
  have hname := Lexeme.isProper_of_lexeme? h
  have hkeyword := Lexeme.isProper_keyword k
  rw [Lexeme.isProper, beq_iff_eq] at hname hkeyword
  cases hname.symm.trans hkeyword

/-! ## Gaps -/

/-- **The longest word of a rule** that a text begins with: `w`, before
`rest`. -/
structure Longest (L : Language Char) (w rest : List Char) : Prop where
  /-- It is a word of the rule. -/
  mem : w ∈ L
  /-- None is longer. -/
  longest : ∀ v ∈ L, v <+: w ++ rest → v.length ≤ w.length

/-- The shortest word of a rule that a text begins with. -/
structure Shortest (L : Language Char) (w rest : List Char) : Prop where
  /-- It is a word of the rule. -/
  mem : w ∈ L
  /-- None is shorter. -/
  shortest : ∀ v ∈ L, v <+: w ++ rest → w.length ≤ v.length

theorem Splits.longest {s : Split} (h : Splits L cs (some s)) : Longest L s.1 s.2 :=
  ⟨h.2.1, fun v hv hpre => h.2.2 v hv (h.1.symm ▸ hpre)⟩

/-- **A gap before the rest of a text**: a whole run of blanks, a comment to
the end of its line, or a block comment to its first end. -/
inductive IsGap (w rest : List Char) : Prop
  | blanks (h : Longest blanks w rest)
  | lineComment (h : Longest lineComment w rest)
  | blockComment (h : Shortest blockComment w rest)

theorem mem_commentRest {v : List Char} : v ∈ commentRest ↔ ∃ u, v = u ++ ['*', '/'] := by
  rw [commentRest, Language.mem_mul]
  constructor
  · rintro ⟨u, -, w, hw, rfl⟩
    obtain ⟨c, _, hc, ⟨d, hd, rfl⟩, rfl⟩ := mem_oneOf_mul.1 hw
    exact ⟨u, by rw [beq_iff_eq.1 hc, beq_iff_eq.1 hd]⟩
  · rintro ⟨u, rfl⟩
    refine ⟨u, mem_kstar_oneOf.2 fun _ _ => rfl, ['*', '/'], ?_, rfl⟩
    exact mem_oneOf_mul.2 ⟨'*', ['/'], rfl, ⟨'/', rfl, rfl⟩, rfl⟩

theorem commentEnd_mem {s : Split} (h : commentEnd cs = some s) : s.1 ∈ commentRest := by
  rw [mem_commentRest]
  fun_induction commentEnd cs generalizing s with
  | case1 => cases h
  | case2 => cases h
  | case3 cs =>
    obtain rfl := Option.some.inj h
    exact ⟨[], rfl⟩
  | case4 c cs _ _ ih =>
    obtain ⟨t, ht, rfl⟩ := Option.map_eq_some_iff.1 h
    obtain ⟨u, hu⟩ := ih ht
    exact ⟨c :: u, by rw [hu, List.cons_append]⟩

/-- A block comment is looked for up to every end it may have. -/
theorem commentEnd_le {u : List Char} (h : u ++ ['*', '/'] <+: cs) :
    ∃ s, commentEnd cs = some s ∧ s.1.length ≤ u.length + 2 := by
  fun_induction commentEnd cs generalizing u with
  | case1 => simp at h
  | case2 => simpa using h.length_le
  | case3 cs => exact ⟨_, rfl, Nat.le_add_left 2 u.length⟩
  | case4 c cs hnil hend ih =>
    cases u with
    | nil =>
      obtain ⟨ds, hds⟩ := h
      obtain ⟨hc, hcs⟩ := List.cons.inj hds
      exact absurd hcs.symm (hend ds hc.symm)
    | cons d u =>
      obtain ⟨s, hs, hlen⟩ := ih (List.cons_prefix_cons.1 h).2
      exact ⟨(c :: s.1, s.2), by rw [hs, Option.map_some], by simpa using hlen⟩

theorem prefix_of_mem_blockComment {v : List Char} (hv : v ∈ blockComment) (h : v <+: cs) :
    ∃ u ds, cs = '/' :: '*' :: ds ∧ u ++ ['*', '/'] <+: ds ∧ v.length = u.length + 4 := by
  obtain ⟨c, w, hc, hw, rfl⟩ := mem_oneOf_mul.1 hv
  obtain ⟨d, x, hd, hx, rfl⟩ := mem_oneOf_mul.1 hw
  obtain ⟨u, rfl⟩ := mem_commentRest.1 hx
  obtain ⟨ds, rfl⟩ := h
  rw [beq_iff_eq.1 hc, beq_iff_eq.1 hd]
  exact ⟨u, (u ++ ['*', '/']) ++ ds, by simp, List.prefix_append _ _, by simp⟩

/-- A block comment is read to its first end. -/
theorem shortest_of_commentEnd {t : Split} (h : commentEnd cs = some t) :
    Shortest blockComment ('/' :: '*' :: t.1) t.2 := by
  refine ⟨mem_oneOf_mul.2 ⟨'/', _, rfl, mem_oneOf_mul.2 ⟨'*', _, rfl, commentEnd_mem h, rfl⟩, rfl⟩,
    fun v hv hpre => ?_⟩
  obtain ⟨u, ds, hds, hu, hlen⟩ := prefix_of_mem_blockComment hv hpre
  obtain rfl : t.1 ++ t.2 = ds := (List.cons.inj (List.cons.inj hds).2).2
  obtain ⟨t', ht', hle⟩ := commentEnd_le hu
  rw [← commentEnd_eq h, h] at ht'
  obtain rfl := Option.some.inj ht'
  simp only [List.length_cons]
  omega

/-- **What is skipped is a gap.** -/
theorem isGap_of_gap? {s : Split} (h : gap? cs = some s) : IsGap s.1 s.2 := by
  unfold gap? at h
  split at h
  · next cs =>
    obtain rfl := Option.some.inj h
    exact .lineComment (splits_oneOf_mul (p := (· == '/')) rfl
      (splits_oneOf_mul (p := (· == '/')) rfl (splits_kstar _ cs))).longest
  · next cs =>
    obtain ⟨t, ht, rfl⟩ := Option.map_eq_some_iff.1 h
    exact .blockComment (shortest_of_commentEnd ht)
  · split at h
    · next c cs _ _ hc =>
      obtain rfl := Option.some.inj h
      exact .blanks (splits_oneOf_mul hc (splits_kstar isSpace cs)).longest
    · cases h
  · cases h

/-- **Where nothing is skipped, no gap begins.** -/
theorem not_prefix_of_gap?_eq_none (h : gap? cs = none) : ∀ v ∈ gap, ¬ v <+: cs := by
  rintro v ((hv | hv) | hv) hpre
  · obtain ⟨c, w, hc, -, rfl⟩ := mem_oneOf_mul.1 hv
    obtain ⟨ds, rfl⟩ := hpre
    rw [List.cons_append, gap?_space hc] at h
    cases h
  · obtain ⟨c, w, hc, hw, rfl⟩ := mem_oneOf_mul.1 hv
    obtain ⟨d, x, hd, -, rfl⟩ := mem_oneOf_mul.1 hw
    obtain ⟨ds, rfl⟩ := hpre
    rw [beq_iff_eq.1 hc, beq_iff_eq.1 hd] at h
    cases h
  · obtain ⟨u, ds, rfl, hu, -⟩ := prefix_of_mem_blockComment hv hpre
    obtain ⟨t, ht, -⟩ := commentEnd_le hu
    rw [gap?, ht] at h
    cases h

end Rule

/-! ## Positions -/

/-- **Where a text ends**: one line more than it has newlines, and one column
more than it has characters since the last of them. -/
def Position.endOf (cs : List Char) : Position :=
  ⟨1 + cs.count '\n', 1 + (cs.rtakeWhile (· != '\n')).length⟩

theorem Position.endOf_concat (cs : List Char) (c : Char) :
    endOf (cs ++ [c]) = (endOf cs).next c := by
  by_cases hc : c = '\n'
  · subst hc
    simp [endOf, next, Int.add_assoc]
  · simp [endOf, next, hc, Int.add_assoc]

/-- **Counting on from a place is counting all that is before.** -/
theorem Position.after_endOf (cs ds : List Char) : (endOf cs).after ds = endOf (cs ++ ds) := by
  induction ds generalizing cs with
  | nil => rw [after_nil, List.append_nil]
  | cons c ds ih => rw [after_cons, ← endOf_concat, ih, List.append_assoc, List.singleton_append]

/-! ## What a text is made of -/

/-- **A part of a text**: a gap, or a token. -/
inductive Part where
  /-- A gap. -/
  | gap (cs : List Char)
  /-- A token. -/
  | token (t : Token)

namespace Part

/-- The characters of a part. -/
def text : Part → List Char
  | gap cs => cs
  | token t => t.lexeme.text.toList

/-- The token that a part is. -/
def token? : Part → Option Token
  | gap _ => none
  | token t => some t

/-- **Whether a part is right where it stands**, with its text between
`before` and `rest`. A gap is a gap there. A token is a word of the rule of
its family, no token could be longer there, no name is a keyword, and its
position is where the text before it ends. -/
def Fits (before rest : List Char) : Part → Prop
  | gap cs => Rule.IsGap cs rest
  | token t =>
    t.lexeme.text.toList ∈ t.lexeme.rule
      ∧ (∀ v ∈ Rule.token, v <+: t.lexeme.text.toList ++ rest →
          v.length ≤ t.lexeme.text.toList.length)
      ∧ (∀ name, t.lexeme = .ident name → ∀ k : Keyword, name ≠ k.text)
      ∧ t.position = Position.endOf before

end Part

/-- **A text cut into parts**: each is right where it stands, behind the text
`before` and those before it, and before those after it and `rest`. -/
inductive IsCut (rest : List Char) : List Char → List Part → Prop
  | nil (before : List Char) : IsCut rest before []
  | cons {before : List Char} {part : Part} {parts : List Part}
      (hpart : part.Fits before (parts.flatMap Part.text ++ rest))
      (hparts : IsCut rest (before ++ part.text) parts) : IsCut rest before (part :: parts)

namespace Scan

/-- **How a scan of the text `cs` ends**, behind the text `before` and the
tokens `done`: with the whole text cut into parts, or with a part of it, and
a character after it where no rule has a word. -/
def Cuts (done : List Token) (before cs : List Char) : Except Error Scanned → Prop
  | .ok s => ∃ parts, IsCut [] before parts ∧ cs = parts.flatMap Part.text
      ∧ s = ⟨done.reverse ++ parts.filterMap Part.token?, Position.endOf (before ++ cs)⟩
  | .error e => ∃ parts c rest, IsCut (c :: rest) before parts
      ∧ cs = parts.flatMap Part.text ++ c :: rest
      ∧ e = ⟨.strayCharacter c, Position.endOf (before ++ parts.flatMap Part.text)⟩
      ∧ ∀ v ∈ Rule.token + Rule.gap, ¬ v <+: c :: rest

/-- **One part more.** -/
theorem Cuts.cons {done : List Token} {before cs : List Char} {r : Except Error Scanned}
    (part : Part) (hpart : part.Fits before cs)
    (h : Cuts (part.token?.toList ++ done) (before ++ part.text) cs r) :
    Cuts done before (part.text ++ cs) r := by
  cases r with
  | ok s =>
    obtain ⟨parts, hcut, rfl, rfl⟩ := h
    refine ⟨part :: parts, .cons (by rwa [List.append_nil]) hcut, rfl, ?_⟩
    cases part <;> simp [List.filterMap_cons, Part.token?, Part.text]
  | error e =>
    obtain ⟨parts, c, rest, hcut, rfl, rfl, hnone⟩ := h
    refine ⟨part :: parts, c, rest, .cons hpart hcut, ?_, ?_, hnone⟩
    · rw [List.flatMap_cons, List.append_assoc]
    · rw [List.flatMap_cons, List.append_assoc]

theorem loop_cuts (done : List Token) (before cs : List Char) :
    Cuts done before cs (loop done (Position.endOf before) cs) := by
  generalize hp : Position.endOf before = p
  fun_induction loop done p cs generalizing before with
  | case1 done p =>
    subst hp
    exact ⟨[], .nil before, rfl, by simp⟩
  | case2 done p c more s hg ih =>
    subst hp
    rw [(gap?_eq hg).1]
    exact Cuts.cons (.gap s.1) (Rule.isGap_of_gap? hg)
      (ih (before ++ s.1) (Position.after_endOf before s.1).symm)
  | case3 done p c more hg l rest hl ih =>
    subst hp
    have hsplit := Rule.splits_token (c :: more)
    rw [hl] at hsplit
    rw [(lexeme?_eq hl).1]
    refine Cuts.cons (.token ⟨l, Position.endOf before⟩)
      ⟨Rule.text_mem_rule hl, hsplit.longest.longest, ?_, rfl⟩
      (ih (before ++ l.text.toList) (Position.after_endOf before _).symm)
    rintro name rfl
    exact Rule.ne_keyword_of_lexeme? hl
  | case4 done p c more hg hl =>
    subst hp
    have hsplit := Rule.splits_token (c :: more)
    rw [hl] at hsplit
    refine ⟨[], c, more, .nil before, rfl, by simp, fun v hv => hv.elim (hsplit v) ?_⟩
    exact Rule.not_prefix_of_gap?_eq_none hg v

end Scan

/-- **Scanning loses nothing, and places every token exactly.** A text that
is scanned is cut, from its first character to its last, into gaps and the
tokens that are given, in order. Every lexeme is the longest that any rule
allows where it stands, and the position of every token, and of the end, is
read off the text before it. A text that is not scanned is cut in the same
way up to the character that is named, and there no rule has a word. -/
theorem scan_cuts (text : String) :
    match scan text with
    | .ok s => ∃ parts, IsCut [] [] parts ∧ text.toList = parts.flatMap Part.text
        ∧ s.tokens = parts.filterMap Part.token? ∧ s.stop = Position.endOf text.toList
    | .error e => ∃ parts c rest, IsCut (c :: rest) [] parts
        ∧ text.toList = parts.flatMap Part.text ++ c :: rest
        ∧ e = ⟨.strayCharacter c, Position.endOf (parts.flatMap Part.text)⟩
        ∧ ∀ v ∈ Rule.token + Rule.gap, ¬ v <+: c :: rest := by
  have h := Scan.loop_cuts [] [] text.toList
  have hstart : Position.endOf [] = .start := rfl
  rw [hstart] at h
  unfold scan
  cases hloop : Scan.loop [] .start text.toList with
  | ok s =>
    rw [hloop] at h
    obtain ⟨parts, hcut, htext, rfl⟩ := h
    exact ⟨parts, hcut, htext, rfl, rfl⟩
  | error e => rwa [hloop] at h

end EmberLang
