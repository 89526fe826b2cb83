import EmberLang.Proofs.Numerals
import EmberLang.Proofs.ShortestDecimal
import Mathlib.Tactic.IntervalCases

/-!
# Reals read back

The text of a finite real has two layouts, and both are cases of one form:
digits, a fraction, an exponent, of which the last two may be missing, but
not both (`RealParts`). A text of this form is one lexeme
(`RealParts.isProper`), and it reads as the number that its parts say
(`RealParts.readReal_text`). The layouts of the printer place the point
elsewhere and fill up with zeros, and neither changes the number, so that
what is read back is the shortest decimal of the real and with it the real
(`readReal_realText`).
-/

namespace EmberLang.Decimal

/-! ## Digits -/

/-- The number that a list of digits is. -/
def digitsValue (ds : List Char) : ℕ := ofDigits (ds.map asciiDigit)

theorem digitsValue_append (cs ds : List Char) :
    digitsValue (cs ++ ds) = digitsValue cs * 10 ^ ds.length + digitsValue ds := by
  unfold digitsValue ofDigits
  induction ds using List.reverseRecOn with
  | nil => simp
  | append_singleton ds d ih =>
    rw [← List.append_assoc, List.map_append, List.foldl_append, ih, List.map_append,
      List.foldl_append, List.length_append, List.length_singleton, pow_succ]
    dsimp only [List.map, List.foldl]
    ring

theorem digitsValue_replicate_zero (k : ℕ) : digitsValue (List.replicate k '0') = 0 := by
  induction k with
  | zero => rfl
  | succ k ih => rw [List.replicate_succ', digitsValue_append, ih]; rfl

theorem digitsValue_zeros_append (k : ℕ) (ds : List Char) :
    digitsValue (List.replicate k '0' ++ ds) = digitsValue ds := by
  rw [digitsValue_append, digitsValue_replicate_zero, zero_mul, zero_add]

theorem digitsValue_append_zeros (ds : List Char) (k : ℕ) :
    digitsValue (ds ++ List.replicate k '0') = digitsValue ds * 10 ^ k := by
  rw [digitsValue_append, digitsValue_replicate_zero, List.length_replicate, add_zero]

theorem isDigit_of_mem_replicate {k : ℕ} : ∀ c ∈ List.replicate k '0', c.isDigit = true := by
  intro c hc
  rw [List.eq_of_mem_replicate hc]
  rfl

/-- The digits of a number begin with a zero only if it is zero. -/
theorem toDigits_zero {n : ℕ} {ds : List Char} (h : Nat.toDigits 10 n = '0' :: ds) :
    ds = [] ∧ n = 0 := by
  have hvalue : n = digitsValue ds := by
    have hn : digitsValue (Nat.toDigits 10 n) = n := ofDigits_toDigits n
    rw [h, show '0' :: ds = List.replicate 1 '0' ++ ds from rfl, digitsValue_zeros_append] at hn
    exact hn.symm
  have hlt : digitsValue ds < 10 ^ ds.length := by
    have hdigits := all_isDigit_toDigits n
    rw [h, List.forall_mem_cons] at hdigits
    exact ofDigits_map_lt hdigits.2
  cases ds with
  | nil => exact ⟨rfl, hvalue⟩
  | cons d ds =>
    rw [← hvalue] at hlt
    have hlength := (Nat.length_toDigits_le_iff (by decide) (List.length_pos_of_ne_nil
      (List.cons_ne_nil d ds))).2 hlt
    rw [h] at hlength
    simp at hlength

/-- The zeros at the end of a number, apart from its other digits. -/
theorem toDigits_eq_significantDigits (n : ℕ) :
    ∃ k, Nat.toDigits 10 n = significantDigits n ++ List.replicate k '0' := by
  have hsplit := List.takeWhile_append_dropWhile (p := (· == '0'))
    (l := (Nat.toDigits 10 n).reverse)
  have hzeros : (Nat.toDigits 10 n).reverse.takeWhile (· == '0')
      = List.replicate ((Nat.toDigits 10 n).reverse.takeWhile (· == '0')).length '0' :=
    List.eq_replicate_of_mem fun c hc => by
      simpa using List.all_eq_true.1 List.all_takeWhile c hc
  refine ⟨((Nat.toDigits 10 n).reverse.takeWhile (· == '0')).length, ?_⟩
  have hreverse := congrArg List.reverse hsplit
  rw [List.reverse_append, List.reverse_reverse, hzeros, List.reverse_replicate] at hreverse
  exact hreverse.symm

/-! ## The parts of a text -/

/-- **The parts of a real as it is written.** -/
structure RealParts where
  /-- The digits before the point. -/
  whole : List Char
  /-- The digits after the point; without any, there is no point. -/
  fraction : List Char
  /-- Whether the exponent is negative, and its digits. -/
  exponent? : Option (Bool × List Char)

namespace RealParts

/-- A fraction with its point. -/
def fractionText (fraction : List Char) : List Char :=
  if fraction = [] then [] else '.' :: fraction

/-- An exponent with its mark and its sign. -/
def exponentText : Option (Bool × List Char) → List Char
  | none => []
  | some (negative, ds) => 'e' :: (if negative then '-' else '+') :: ds

/-- The text of the parts. -/
def text (p : RealParts) : List Char :=
  p.whole ++ (fractionText p.fraction ++ exponentText p.exponent?)

/-- The exponent as a number. -/
def exponent (p : RealParts) : ℤ :=
  match p.exponent? with
  | none => 0
  | some (negative, ds) => signed negative (digitsValue ds)

/-- All digits, as an integer. -/
def mantissa (p : RealParts) : ℕ := digitsValue (p.whole ++ p.fraction)

/-- The power of ten that the mantissa is multiplied with. -/
def power (p : RealParts) : ℤ := p.exponent - p.fraction.length

/-- **The number that the parts say.** -/
def value (p : RealParts) : ℚ := p.mantissa * 10 ^ p.power

/-- Parts that make the text of a real, and not that of an integer. -/
structure Sound (p : RealParts) : Prop where
  /-- Something stands before the point. -/
  whole_ne : p.whole ≠ []
  /-- They are digits. -/
  whole : ∀ c ∈ p.whole, c.isDigit = true
  /-- A zero stands first only if it stands alone. -/
  leading : p.whole.head? = some '0' → p.whole = ['0']
  /-- So are those after the point. -/
  fraction : ∀ c ∈ p.fraction, c.isDigit = true
  /-- An exponent has digits, and nothing else. -/
  exponent : ∀ negative ds, p.exponent? = some (negative, ds) →
    ds ≠ [] ∧ ∀ c ∈ ds, c.isDigit = true
  /-- There is a fraction or an exponent. -/
  real : p.fraction ≠ [] ∨ p.exponent?.isSome = true

variable {p : RealParts}

/-! ### One lexeme -/

theorem exponentText_not_digit (e : Option (Bool × List Char)) :
    ∀ c ∈ (exponentText e).head?, c.isDigit = false := by
  rcases e with _ | ⟨negative, ds⟩
  · rintro c ⟨⟩
  · rintro c ⟨⟩
    rfl

theorem fractionText_not_digit (fraction : List Char) (e : Option (Bool × List Char)) :
    ∀ c ∈ (fractionText fraction ++ exponentText e).head?, c.isDigit = false := by
  unfold fractionText
  split
  · exact exponentText_not_digit e
  · rintro c ⟨⟩
    rfl

theorem digits1_append_of_all {ds r : List Char} (hne : ds ≠ []) (h : ∀ c ∈ ds, c.isDigit = true)
    (hr : ∀ c ∈ r.head?, c.isDigit = false) : Scan.digits1 (ds ++ r) = some (ds, r) := by
  rw [Scan.digits1_append (Scan.digits1_of_all hne h) fun _ => hr]
  rfl

theorem Sound.scan_exponent (hp : p.Sound) {e : Bool × List Char} (he : p.exponent? = some e) :
    Scan.exponent (exponentText p.exponent?) = some (exponentText p.exponent?, []) := by
  obtain ⟨negative, ds⟩ := e
  obtain ⟨hne, hds⟩ := hp.exponent negative ds he
  rw [he]
  show Scan.exponent ('e' :: (if negative then '-' else '+') :: ds) = _
  have hsign : ((if negative then '-' else '+') = '+' || (if negative then '-' else '+') = '-')
      = true := by cases negative <;> rfl
  rw [Scan.exponent, if_pos (by decide), if_pos hsign, Scan.digits1_of_all hne hds]
  rfl

theorem Sound.scan_realTail (hp : p.Sound) :
    Scan.realTail (fractionText p.fraction ++ exponentText p.exponent?)
      = some (fractionText p.fraction ++ exponentText p.exponent?, []) := by
  by_cases hfraction : p.fraction = []
  · obtain ⟨e, he⟩ := Option.isSome_iff_exists.1 (hp.real.resolve_left (not_not_intro hfraction))
    rw [fractionText, if_pos hfraction, List.nil_append]
    have hscan := hp.scan_exponent he
    rw [he] at hscan ⊢
    exact hscan
  · rw [fractionText, if_neg hfraction, List.cons_append, Scan.realTail,
      digits1_append_of_all hfraction hp.fraction (exponentText_not_digit _)]
    cases he : p.exponent? with
    | none => rw [Option.map_some]; simp [exponentText, Scan.exponent]
    | some e =>
      have hscan := hp.scan_exponent he
      rw [he] at hscan
      rw [Option.map_some]
      dsimp only
      rw [hscan]
      rfl

/-- **A text of this form is one lexeme.** -/
theorem Sound.isProper (hp : p.Sound) (negative : Bool) :
    (Lexeme.real (String.ofList (signText negative ++ p.text))).isProper = true := by
  unfold Lexeme.isProper
  rw [show (Lexeme.real (String.ofList (signText negative ++ p.text))).text.toList
    = signText negative ++ p.text from String.toList_ofList]
  have hnumeral : Scan.numeral (signText negative) p.text
      = some (.real (String.ofList (signText negative ++ p.text)), []) := by
    unfold Scan.numeral text
    rw [digits1_append_of_all hp.whole_ne hp.whole (fractionText_not_digit _ _), Option.map_some]
    dsimp only
    rw [hp.scan_realTail]
    simp
  cases hwhole : p.whole with
  | nil => exact absurd hwhole hp.whole_ne
  | cons c cs =>
    have htext : p.text = c :: (cs ++ (fractionText p.fraction ++ exponentText p.exponent?)) := by
      rw [text, hwhole, List.cons_append]
    have hc : c.isDigit = true := hp.whole c (hwhole ▸ List.mem_cons_self)
    rw [htext] at hnumeral ⊢
    rw [Scan.lexeme?_signText negative _ hc, hnumeral]
    exact beq_self_eq_true _

/-! ### Reading -/

/-- The characters that the text of a real is made of. -/
def isRealChar (c : Char) : Bool :=
  c.isDigit || c == '.' || c == 'e' || c == 'E' || c == '+' || c == '-'

theorem isRealChar_of_isDigit {c : Char} (h : c.isDigit = true) : isRealChar c = true := by
  simp [isRealChar, h]

theorem isRealChar_signText (negative : Bool) : ∀ c ∈ signText negative, isRealChar c = true := by
  cases negative with
  | true => simp [signText, isRealChar]
  | false => simp [signText]

theorem Sound.isRealChar_of_mem (hp : p.Sound) {c : Char} (hc : c ∈ p.text) :
    isRealChar c = true := by
  rcases List.mem_append.1 hc with hc | hc
  · exact isRealChar_of_isDigit (hp.whole c hc)
  rcases List.mem_append.1 hc with hc | hc
  · unfold fractionText at hc
    split at hc
    · cases hc
    · rcases List.mem_cons.1 hc with rfl | hc
      · rfl
      · exact isRealChar_of_isDigit (hp.fraction c hc)
  · cases he : p.exponent? with
    | none =>
      rw [he] at hc
      cases hc
    | some e =>
      obtain ⟨sign, ds⟩ := e
      rw [he] at hc
      rcases List.mem_cons.1 hc with rfl | hc
      · rfl
      rcases List.mem_cons.1 hc with rfl | hc
      · cases sign <;> rfl
      · exact isRealChar_of_isDigit ((hp.exponent sign ds he).2 c hc)

/-- The characters of a real, one by one. -/
theorem exists_of_isRealChar {c : Char} (h : isRealChar c = true) :
    c ∈ "0123456789.eE+-".toList := by
  unfold isRealChar at h
  simp only [Bool.or_eq_true, beq_iff_eq, or_assoc] at h
  rcases h with h | rfl | rfl | rfl | rfl | rfl
  · obtain ⟨hlow, hhigh⟩ := Char.isDigit_iff_toNat.1 h
    have hc : c = Char.ofNat c.toNat := (Char.ofNat_toNat c).symm
    rw [hc]
    generalize c.toNat = k at hlow hhigh
    change 48 ≤ k at hlow
    change k ≤ 57 at hhigh
    interval_cases k <;> decide
  all_goals decide

theorem forall_isRealChar {P : Char → Prop} [DecidablePred P]
    (h : ("0123456789.eE+-".toList.all fun c => decide (P c)) = true) {c : Char}
    (hc : isRealChar c = true) : P c :=
  of_decide_eq_true (List.all_eq_true.1 h c (exists_of_isRealChar hc))

theorem not_isNumeralBlank {c : Char} (h : isRealChar c = true) : Text.isNumeralBlank c = false :=
  forall_isRealChar (P := fun c => Text.isNumeralBlank c = false) (by decide) h

theorem trim_of_forall {blank : Char → Bool} {cs : List Char} (h : ∀ c ∈ cs, blank c = false) :
    Text.trim blank cs = cs := by
  have hdrop {ds : List Char} (hds : ∀ c ∈ ds, blank c = false) : ds.dropWhile blank = ds := by
    cases ds with
    | nil => rfl
    | cons d ds => rw [List.dropWhile_cons_of_neg (by rw [hds d List.mem_cons_self]; decide)]
  unfold Text.trim
  rw [hdrop h, hdrop fun c hc => h c (List.mem_reverse.1 hc), List.reverse_reverse]

theorem asciiDigits_of_forall {cs : List Char} (h : ∀ c ∈ cs, isRealChar c = true) :
    asciiDigits cs = cs := by
  have hone {c : Char} (hc : isRealChar c = true) : asciiDigits [c] = [c] :=
    forall_isRealChar (P := fun c => asciiDigits [c] = [c]) (by decide) hc
  refine (List.map_congr_left fun c hc => ?_).trans (List.map_id cs)
  exact List.head_eq_of_cons_eq (hone (h c hc))

theorem dropUnderscores_of_forall {cs : List Char} (before : Bool)
    (h : ∀ c ∈ cs, isRealChar c = true) : dropUnderscores before cs = some cs := by
  induction cs generalizing before with
  | nil => rfl
  | cons c cs ih =>
    have hc : c ≠ '_' := by
      rintro rfl
      exact absurd (h '_' List.mem_cons_self) (by decide)
    rw [dropUnderscores, ih _ fun d hd => h d (List.mem_cons_of_mem _ hd)]
    · rfl
    · exact hc

theorem splitSign_signText (negative : Bool) {c : Char} (hc : c.isDigit = true) (cs : List Char) :
    splitSign (signText negative ++ c :: cs) = (negative, c :: cs) := by
  cases negative with
  | true => rfl
  | false =>
    show splitSign (c :: cs) = _
    unfold splitSign
    split
    · next heq =>
      obtain ⟨rfl, -⟩ := List.cons.inj heq
      exact absurd hc (by decide)
    · next heq =>
      obtain ⟨rfl, -⟩ := List.cons.inj heq
      exact absurd hc (by decide)
    · rfl

/-- A text that begins with a digit is no name of a real. -/
theorem name_ne {c : Char} (hc : c.isDigit = true) (cs : List Char) (name : String)
    (hname : name.toList.head?.all (!·.isDigit) = true) :
    String.ofList ((c :: cs).map Char.toLower) ≠ name := by
  intro heq
  have hlower : c.toLower.isDigit = true :=
    forall_isRealChar (P := fun c => c.isDigit = true → c.toLower.isDigit = true) (by decide)
      (isRealChar_of_isDigit hc) hc
  have hhead : name.toList.head? = some c.toLower := by
    rw [← heq, String.toList_ofList]
    rfl
  rw [hhead, Option.all_some, hlower] at hname
  cases hname

/-- **A numeral is read after its sign**, with nothing to trim, to
translate or to leave out. -/
theorem readReal_eq_readUnsigned (negative : Bool) {c : Char} (hc : c.isDigit = true)
    {cs : List Char} (hcs : ∀ d ∈ cs, isRealChar d = true) :
    readReal (signText negative ++ c :: cs) = readUnsigned negative (c :: cs) := by
  have hbody : ∀ d ∈ c :: cs, isRealChar d = true :=
    List.forall_mem_cons.2 ⟨isRealChar_of_isDigit hc, hcs⟩
  have hchars : ∀ d ∈ signText negative ++ c :: cs, isRealChar d = true :=
    List.forall_mem_append.2 ⟨isRealChar_signText negative, hbody⟩
  have hinf := name_ne hc cs "inf" (by decide)
  have hinfinity := name_ne hc cs "infinity" (by decide)
  have hnan := name_ne hc cs "nan" (by decide)
  unfold readReal Text.trimNumeral
  rw [trim_of_forall fun d hd => not_isNumeralBlank (hchars d hd), asciiDigits_of_forall hchars,
    splitSign_signText negative hc]
  simp only [hinf, hinfinity, hnan, decide_false, Bool.or_self, Bool.false_eq_true, if_false,
    dropUnderscores_of_forall false hbody]
  rfl

theorem takeWhile_append_of_all {ds r : List Char} (h : ∀ c ∈ ds, c.isDigit = true)
    (hr : ∀ c ∈ r.head?, c.isDigit = false) :
    (ds ++ r).takeWhile Char.isDigit = ds ∧ (ds ++ r).dropWhile Char.isDigit = r := by
  have hsplit : Scan.splitWhile Char.isDigit (ds ++ r) = _ := Scan.splitWhile_append fun _ => hr
  rw [Scan.splitWhile_of_all h] at hsplit
  exact ⟨congrArg Prod.fst hsplit, congrArg Prod.snd hsplit⟩

theorem Sound.readExponent_text (hp : p.Sound) :
    readExponent (exponentText p.exponent?) = some p.exponent := by
  unfold RealParts.exponent
  cases he : p.exponent? with
  | none => rfl
  | some e =>
    obtain ⟨negative, ds⟩ := e
    obtain ⟨hne, hds⟩ := hp.exponent negative ds he
    have hsign : splitSign ((if negative then '-' else '+') :: ds) = (negative, ds) := by
      cases negative <;> rfl
    have hall : ds.all Char.isDigit = true := List.all_eq_true.2 hds
    show readExponent ('e' :: (if negative then '-' else '+') :: ds) = _
    rw [readExponent, hsign]
    dsimp only
    rw [if_pos (by simp [hne, hall])]
    rfl

theorem Sound.readUnsigned_text (hp : p.Sound) (negative : Bool) :
    readUnsigned negative p.text = some (ofDecimal negative p.mantissa p.power) := by
  obtain ⟨htake, hdrop⟩ := takeWhile_append_of_all hp.whole
    (fractionText_not_digit p.fraction p.exponent?)
  have hwhole : p.whole.isEmpty = false := by
    rw [List.isEmpty_eq_false_iff]
    exact hp.whole_ne
  have hexponent := hp.readExponent_text
  unfold readUnsigned text mantissa power digitsValue
  rw [htake, hdrop]
  by_cases hfraction : p.fraction = []
  · rw [fractionText, if_pos hfraction, List.nil_append, hfraction]
    cases he : p.exponent? with
    | none =>
      rw [he] at hexponent
      dsimp only [exponentText]
      rw [hwhole]
      show (readExponent (exponentText none) >>= _) = _
      rw [hexponent]
      rfl
    | some e =>
      rw [he] at hexponent
      dsimp only [exponentText]
      rw [hwhole]
      show (readExponent (exponentText (some e)) >>= _) = _
      rw [hexponent]
      rfl
  · obtain ⟨htake, hdrop⟩ := takeWhile_append_of_all hp.fraction
      (exponentText_not_digit p.exponent?)
    rw [fractionText, if_neg hfraction, List.cons_append]
    dsimp only
    rw [hwhole]
    show (readExponent ((p.fraction ++ exponentText p.exponent?).dropWhile Char.isDigit)
      >>= fun e => some (ofDecimal negative (ofDigits ((p.whole
        ++ (p.fraction ++ exponentText p.exponent?).takeWhile Char.isDigit).map asciiDigit))
        (e - ((p.fraction ++ exponentText p.exponent?).takeWhile Char.isDigit).length))) = _
    rw [htake, hdrop, hexponent]
    rfl

/-- **A text of this form reads as the number that its parts say.** -/
theorem Sound.readReal_text (hp : p.Sound) (negative : Bool) :
    readReal (signText negative ++ p.text) = some (ofDecimal negative p.mantissa p.power) := by
  have hread := hp.readUnsigned_text negative
  cases hwhole : p.whole with
  | nil => exact absurd hwhole hp.whole_ne
  | cons c cs =>
    have htext : p.text = c :: (cs ++ (fractionText p.fraction ++ exponentText p.exponent?)) := by
      rw [text, hwhole, List.cons_append]
    have hchars : ∀ d ∈ p.text, isRealChar d = true := fun d hd => hp.isRealChar_of_mem hd
    rw [htext] at hread hchars ⊢
    have hc : c.isDigit = true := hp.whole c (hwhole ▸ List.mem_cons_self)
    rw [readReal_eq_readUnsigned negative hc fun d hd => hchars d (List.mem_cons_of_mem _ hd)]
    exact hread

end RealParts

/-! ## The two layouts -/

section Layouts

variable {ds : List Char} (hds : ∀ c ∈ ds, c.isDigit = true) (hne : ds ≠ [])

/-- The number of given digits with the point after the first `k`. -/
def placed (ds : List Char) (k : ℤ) : ℚ := digitsValue ds * 10 ^ (k - ds.length)

include hds hne

theorem positional_parts (hlead : ds.head? ≠ some '0') (k : ℤ) :
    ∃ p : RealParts, positional ds k = p.text ∧ p.Sound ∧ p.value = placed ds k := by
  unfold positional
  by_cases hk : k ≤ 0
  -- The point stands before all digits, with zeros between.
  · rw [if_pos hk]
    refine ⟨⟨['0'], List.replicate (-k).toNat '0' ++ ds, none⟩, ?_, ?_, ?_⟩
    · simp [RealParts.text, RealParts.fractionText, RealParts.exponentText, hne]
    · refine ⟨by simp, by simp, fun _ => rfl, ?_, by simp, .inl (by simp [hne])⟩
      intro c hc
      rcases List.mem_append.1 hc with hc | hc
      · exact isDigit_of_mem_replicate c hc
      · exact hds c hc
    · unfold RealParts.value RealParts.mantissa RealParts.power RealParts.exponent placed
      dsimp only
      rw [show ['0'] ++ (List.replicate (-k).toNat '0' ++ ds)
        = List.replicate ((-k).toNat + 1) '0' ++ ds by simp [List.replicate_succ],
        digitsValue_zeros_append, List.length_append, List.length_replicate]
      congr 2
      push_cast
      omega
  · rw [if_neg hk]
    obtain ⟨j, rfl⟩ := Int.eq_ofNat_of_zero_le (not_le.1 hk).le
    have hj : j ≠ 0 := by
      rintro rfl
      exact hk le_rfl
    dsimp only
    rw [Int.toNat_natCast]
    have hwhole : ∀ c ∈ ds.take j ++ List.replicate (j - ds.length) '0', c.isDigit = true := by
      intro c hc
      rcases List.mem_append.1 hc with hc | hc
      · exact hds c (List.mem_of_mem_take hc)
      · exact isDigit_of_mem_replicate c hc
    have hwhole_ne : ds.take j ++ List.replicate (j - ds.length) '0' ≠ [] := by
      simp [hj, hne]
    have hleading : (ds.take j ++ List.replicate (j - ds.length) '0').head? = some '0' →
        ds.take j ++ List.replicate (j - ds.length) '0' = ['0'] := by
      intro hzero
      rw [List.head?_append_of_ne_nil _ (by simp [hj, hne]), List.head?_take, if_neg hj] at hzero
      exact absurd hzero hlead
    split
    · next hdrop =>
      -- All digits stand before the point, and zeros may follow.
      have hlength : ds.length ≤ j := List.drop_eq_nil_iff.1 hdrop
      refine ⟨⟨_, ['0'], none⟩, ?_, ⟨hwhole_ne, hwhole, hleading, by simp, by simp,
        .inl (by simp)⟩, ?_⟩
      · simp [RealParts.text, RealParts.fractionText, RealParts.exponentText]
      · unfold RealParts.value RealParts.mantissa RealParts.power RealParts.exponent placed
        dsimp only
        rw [List.take_of_length_le hlength, List.append_assoc,
          show List.replicate (j - ds.length) '0' ++ ['0']
            = List.replicate (j - ds.length + 1) '0' from List.replicate_succ'.symm,
          digitsValue_append_zeros]
        push_cast
        rw [mul_assoc, ← zpow_natCast, ← zpow_add₀ (by norm_num)]
        congr 2
        push_cast [hlength]
        simp
    · next hdrop =>
      -- The point stands among the digits.
      have hlength : j < ds.length := not_le.1 fun h => hdrop (List.drop_eq_nil_iff.2 h)
      refine ⟨⟨_, ds.drop j, none⟩, ?_, ⟨hwhole_ne, hwhole, hleading, ?_, by simp, .inl hdrop⟩, ?_⟩
      · unfold RealParts.text RealParts.fractionText RealParts.exponentText
        rw [if_neg hdrop, List.append_nil]
      · exact fun c hc => hds c (List.mem_of_mem_drop hc)
      · unfold RealParts.value RealParts.mantissa RealParts.power RealParts.exponent placed
        dsimp only
        rw [Nat.sub_eq_zero_of_le hlength.le, List.replicate_zero, List.append_nil,
          List.take_append_drop, List.length_drop]
        congr 2
        push_cast [hlength.le]
        ring

theorem scientific_parts (e : ℤ) :
    ∃ p : RealParts, scientific realLayout ds e = p.text ∧ p.Sound
      ∧ p.value = placed ds (e + 1) := by
  cases ds with
  | nil => exact absurd rfl hne
  | cons d rest =>
    refine ⟨⟨[d], rest, some (decide (e < 0),
      List.replicate (2 - (Nat.toDigits 10 e.natAbs).length) '0' ++ Nat.toDigits 10 e.natAbs)⟩,
      ?_, ?_, ?_⟩
    · unfold scientific RealParts.text RealParts.fractionText RealParts.exponentText
      cases rest <;> simp [realLayout]
    · refine ⟨by simp, by simpa using hds d List.mem_cons_self, by simp,
        fun c hc => hds c (List.mem_cons_of_mem _ hc), ?_, .inr rfl⟩
      rintro negative ds' ⟨⟩
      refine ⟨by simp [Nat.toDigits_ne_nil], fun c hc => ?_⟩
      rcases List.mem_append.1 hc with hc | hc
      · exact isDigit_of_mem_replicate c hc
      · exact all_isDigit_toDigits _ c hc
    · unfold RealParts.value RealParts.mantissa RealParts.power RealParts.exponent placed
      dsimp only
      rw [digitsValue_zeros_append]
      unfold digitsValue
      rw [ofDigits_toDigits, signed_natAbs, List.singleton_append, List.length_cons]
      congr 2
      push_cast
      ring

end Layouts

/-- **The text of a positive real says its shortest decimal.** -/
theorem magnitudeText_parts {m : ℕ} {q : ℤ} (hm : Canonical m q) :
    ∃ p : RealParts, magnitudeText m q = p.text ∧ p.Sound
      ∧ p.value = (shortest m q).1 * 10 ^ (shortest m q).2 := by
  set n := (shortest m q).1 with hn
  set e := (shortest m q).2 with he
  have hpos : 0 < n := shortest_pos hm
  obtain ⟨k, hk⟩ := toDigits_eq_significantDigits n
  have hvalue : n = digitsValue (significantDigits n) * 10 ^ k := by
    rw [← digitsValue_append_zeros, ← hk]
    exact (ofDigits_toDigits n).symm
  have hds : ∀ c ∈ significantDigits n, c.isDigit = true := fun c hc =>
    all_isDigit_toDigits n c (hk ▸ List.mem_append_left _ hc)
  have hne : significantDigits n ≠ [] := by
    intro hnil
    rw [hnil, show digitsValue [] = 0 from rfl, zero_mul] at hvalue
    omega
  have hlead : (significantDigits n).head? ≠ some '0' := by
    intro hzero
    obtain ⟨ds, hds⟩ := List.head?_eq_some_iff.1 hzero
    rw [hds, List.cons_append] at hk
    exact absurd (toDigits_zero hk).2 hpos.ne'
  -- Both layouts place the point so that the number is the decimal.
  have hplaced : placed (significantDigits n) (e + (Nat.toDigits 10 n).length - 1 + 1)
      = n * 10 ^ e := by
    unfold placed
    rw [sub_add_cancel, hk, List.length_append, List.length_replicate]
    conv_rhs => rw [hvalue]
    push_cast
    rw [mul_assoc, ← zpow_natCast, ← zpow_add₀ (by norm_num)]
    congr 2
    ring
  unfold magnitudeText
  rw [← hplaced, show shortest m q = (n, e) from rfl]
  dsimp only
  split
  · exact positional_parts hds hne hlead _
  · exact scientific_parts hds hne _

/-- A real without magnitude is one of the two zeros, by its sign. -/
theorem ofDecimal_zero {x : Float} {q : ℤ} (hx : magnitude x = .finite 0 q) :
    ofDecimal (isNegative x) 0 (-1) = x := by
  have hlt := x.toBits.toNat_lt
  have hbits : x.toBits.toNat % 2 ^ 63 = 0 := by
    rcases bits_of_magnitude hx with ⟨hfield, hfraction, -⟩ | ⟨-, -, hfraction, -⟩
    · omega
    · omega
  have hzero (sign : Float.Model.UnpackedFloat.Sign)
      (h : x.toBits.toNat = (Float.Model.pack (.zero sign)).toBits.toNat) :
      x = .ofModel (Float.Model.pack (.zero sign)) := eq_ofModel_of_toNat h
  by_cases hneg : isNegative x = true
  · have hsign := (isNegative_iff x).1 hneg
    rw [hzero .negative (by show x.toBits.toNat = 2 ^ 63; omega)]
    decide
  · have hsign := mt (isNegative_iff x).2 hneg
    rw [hzero .positive (by show x.toBits.toNat = 0; omega)]
    decide

/-- **The text of a finite real** is made of parts that read as the
real. -/
theorem realText_parts {x : Float} (h : isFinite x = true) :
    ∃ p : RealParts, realText x = String.ofList (signText (isNegative x) ++ p.text) ∧ p.Sound
      ∧ ofDecimal (isNegative x) p.mantissa p.power = x := by
  unfold isFinite at h
  unfold realText
  cases hx : magnitude x with
  | nan => rw [hx] at h; cases h
  | infinite => rw [hx] at h; cases h
  | finite m q =>
    have hsign (body : List Char) : (if isNegative x then '-' :: body else body)
        = signText (isNegative x) ++ body := by
      unfold signText
      split <;> rfl
    dsimp only
    rw [hsign]
    by_cases hzero : m = 0
    · rw [if_pos hzero]
      refine ⟨⟨['0'], ['0'], none⟩, rfl, ⟨by simp, by simp, by simp, by simp, by simp,
        .inl (by simp)⟩, ?_⟩
      exact ofDecimal_zero (hzero ▸ hx)
    · rw [if_neg hzero]
      have hm := canonical_of_magnitude hx hzero
      obtain ⟨p, htext, hp, hvalue⟩ := magnitudeText_parts hm
      have hrounds : RoundsTo (p.mantissa * 10 ^ p.power) m q := by
        show RoundsTo p.value m q
        rw [hvalue]
        exact roundsTo_shortest hm
      have hpos : 0 < p.mantissa := by
        have := hrounds.pos hm
        by_contra hzero
        rw [Nat.eq_zero_of_not_pos hzero, Nat.cast_zero, zero_mul] at this
        exact lt_irrefl 0 this
      exact ⟨p, by rw [htext], hp, ofDecimal_eq hx hm hpos hrounds⟩

/-- **The text of a finite real is one lexeme.** -/
theorem isProper_realText {x : Float} (h : isFinite x = true) :
    (Lexeme.real (realText x)).isProper = true := by
  obtain ⟨p, htext, hp, -⟩ := realText_parts h
  rw [htext]
  exact hp.isProper _

/-- **The text of a finite real reads as the real.** -/
theorem readReal_realText {x : Float} (h : isFinite x = true) :
    readReal (realText x).toList = some x := by
  obtain ⟨p, htext, hp, hread⟩ := realText_parts h
  rw [htext, String.toList_ofList, hp.readReal_text, hread]

end EmberLang.Decimal
