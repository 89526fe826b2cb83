import EmberLang.Proofs.Spelling
import Mathlib
import EmberLang.Tree.Parser

/-!
# Integers read back

The text of an integer is a sign and digits, so the scanner takes it as
one numeral (`Lexeme.isProper_int`), and the numeral reads as the integer
again (`Decimal.readDigits_toString`). In the other direction a numeral
that reads at all reads as an integer that has a text
(`Decimal.isPrintable_of_readDigits`): the limit on the number of digits
is the same for reading and for writing.
-/

namespace EmberLang

namespace Decimal

/-! ## Integers -/

/-- The minus sign of a number, if it has one. -/
def signText (negative : Bool) : List Char := if negative then ['-'] else []

theorem toList_toString (n : Int) :
    (toString n).toList = signText (n < 0) ++ Nat.toDigits 10 n.natAbs := by
  rw [Int.toString_eq_repr, Int.repr_eq_if]
  unfold signText
  by_cases hn : 0 ≤ n
  · rw [if_pos hn, if_neg (by simp; omega), Nat.toList_repr]
    rw [show n.toNat = n.natAbs by omega]
    rfl
  · rw [if_neg hn, if_pos (by simp; omega), String.toList_append, Nat.toList_repr]
    rw [show (-n).toNat = n.natAbs by omega]
    rfl

theorem all_isDigit_toDigits (n : Nat) : ∀ c ∈ Nat.toDigits 10 n, c.isDigit = true :=
  fun _ hc => Nat.isDigit_of_mem_toDigits (by decide) (by decide) hc

/-- The digits of a number have its value. -/
theorem ofDigits_toDigits (n : Nat) : ofDigits ((Nat.toDigits 10 n).map asciiDigit) = n := by
  have hvalue : Nat.ofDigitChars 10 (Nat.toDigits 10 n) 0 = n := Nat.ofDigitChars_ten_toDigits
  rw [Nat.ofDigitChars_eq_foldl] at hvalue
  unfold ofDigits
  rw [List.foldl_map]
  exact hvalue

theorem splitMinus_signText_cons (negative : Bool) {c : Char} (hc : c.isDigit = true)
    (cs : List Char) : splitMinus (signText negative ++ c :: cs) = (negative, c :: cs) := by
  cases negative with
  | true => rfl
  | false =>
    have hminus : c ≠ '-' := by
      rintro rfl
      exact absurd hc (by decide)
    show splitMinus (c :: cs) = _
    rw [splitMinus]
    exact fun ds e => hminus (List.cons.inj e).1

theorem splitMinus_signText (negative : Bool) {ds : List Char} (h : ∀ c ∈ ds, c.isDigit = true) :
    splitMinus (signText negative ++ ds) = (negative, ds) := by
  cases ds with
  | nil => cases negative <;> rfl
  | cons c cs => exact splitMinus_signText_cons negative (h c List.mem_cons_self) cs

theorem signed_natAbs (n : Int) : signed (n < 0) n.natAbs = n := by
  unfold signed
  by_cases hn : n < 0
  · rw [if_pos (decide_eq_true hn)]
    omega
  · rw [if_neg (by simp; omega)]
    omega

theorem length_toDigits_of_isPrintable {n : Int} (h : isPrintable n = true) :
    (Nat.toDigits 10 n.natAbs).length ≤ maxDigits := by
  rw [isPrintable, decide_eq_true_eq, Nat.pow_eq] at h
  have hpos : 0 < maxDigits := by decide
  -- the power itself is never computed
  generalize maxDigits = limit at h hpos ⊢
  exact (Nat.length_toDigits_le_iff (by decide) hpos).2 h

/-- **The text of an integer reads as the integer.** -/
theorem readDigits_toString {n : Int} (h : isPrintable n = true) :
    readDigits (toString n) = some n := by
  unfold readDigits
  rw [toList_toString, splitMinus_signText _ (all_isDigit_toDigits _)]
  dsimp only
  rw [if_pos (length_toDigits_of_isPrintable h), ofDigits_toDigits, signed_natAbs]

theorem ofDigits_lt {ds : List Nat} (h : ∀ d ∈ ds, d < 10) : ofDigits ds < 10 ^ ds.length := by
  unfold ofDigits
  induction ds using List.reverseRecOn with
  | nil => decide
  | append_singleton ds d ih =>
    have hds := ih fun c hc => h c (List.mem_append_left _ hc)
    have hd := h d (by simp)
    rw [List.foldl_append, List.length_append, List.length_singleton, Nat.pow_succ]
    dsimp only [List.foldl]
    omega

theorem ofDigits_map_lt {ds : List Char} (h : ∀ c ∈ ds, c.isDigit = true) :
    ofDigits (ds.map asciiDigit) < 10 ^ ds.length := by
  rw [← List.length_map (f := asciiDigit)]
  refine ofDigits_lt fun d hd => ?_
  obtain ⟨c, hc, rfl⟩ := List.mem_map.1 hd
  have hdigit : 48 ≤ c.toNat ∧ c.toNat ≤ 57 := Char.isDigit_iff_toNat.1 (h c hc)
  show c.toNat - 48 < 10
  omega

/-- **A numeral that reads at all reads as an integer that has a
text.** -/
theorem isPrintable_of_readDigits {text : String} {n : Int} (h : readDigits text = some n)
    (hdigits : ∀ c ∈ (splitMinus text.toList).2, c.isDigit = true) : isPrintable n = true := by
  unfold readDigits at h
  dsimp only at h
  split at h
  · next hlength =>
    obtain rfl := Option.some.inj h
    have hlt := ofDigits_map_lt hdigits
    rw [isPrintable, decide_eq_true_eq, Nat.pow_eq]
    generalize maxDigits = limit at hlength ⊢
    have habs : ∀ (b : Bool) (k : Nat), (signed b k).natAbs = k := by
      intro b k
      cases b <;> simp [signed]
    rw [habs]
    exact Nat.lt_of_lt_of_le hlt (Nat.pow_le_pow_right (by decide) hlength)
  · cases h

end Decimal

namespace Scan

theorem digits1_of_all {ds : List Char} (hne : ds ≠ []) (h : ∀ c ∈ ds, c.isDigit = true) :
    digits1 ds = some (ds, []) := by
  unfold digits1
  rw [splitWhile_of_all h, if_neg hne]

theorem numeral_of_all (sign : List Char) {ds : List Char} (hne : ds ≠ [])
    (h : ∀ c ∈ ds, c.isDigit = true) :
    numeral sign ds = some (.int (String.ofList (sign ++ ds)), []) := by
  unfold numeral
  rw [digits1_of_all hne h]
  rfl

/-- A numeral after its sign is what the text begins with. -/
theorem lexeme?_signText (negative : Bool) {c : Char} (cs : List Char) (hc : c.isDigit = true) :
    lexeme? (Decimal.signText negative ++ c :: cs)
      = numeral (Decimal.signText negative) (c :: cs) := by
  cases negative with
  | false =>
    show lexeme? (c :: cs) = numeral [] (c :: cs)
    rw [lexeme?, if_neg (not_isNameStart_of_isDigit hc), if_pos hc]
  | true =>
    show lexeme? ('-' :: c :: cs) = numeral ['-'] (c :: cs)
    have hmark : mark? ('-' :: c :: cs) = none := by
      unfold mark?
      -- The only mark with a minus is the arrow.
      split <;> first
        | rfl
        | next h => exact absurd (List.cons.inj h).1 (by decide)
        | next h =>
          obtain ⟨rfl, -⟩ := List.cons.inj (List.cons.inj h).2
          exact absurd hc (by decide)
    rw [lexeme?, if_neg (by decide), if_neg (by decide), if_neg (by decide), if_neg (by decide),
      if_neg (by decide), hmark]
    rfl

end Scan

namespace Lexeme

/-- Digits after a sign are a numeral. -/
theorem isProper_digits (negative : Bool) {ds : List Char} (hne : ds ≠ [])
    (hds : ∀ c ∈ ds, c.isDigit = true) :
    (int (String.ofList (Decimal.signText negative ++ ds))).isProper = true := by
  unfold isProper
  rw [show (int (String.ofList (Decimal.signText negative ++ ds))).text.toList
    = Decimal.signText negative ++ ds from String.toList_ofList]
  cases ds with
  | nil => exact absurd rfl hne
  | cons c cs =>
    rw [Scan.lexeme?_signText negative cs (hds c List.mem_cons_self), Scan.numeral_of_all _ hne hds]
    exact beq_self_eq_true _

/-- **The text of an integer is a numeral.** -/
theorem isProper_int (n : Int) : (int (toString n)).isProper = true := by
  rw [← String.ofList_toList (s := toString n), Decimal.toList_toString]
  exact isProper_digits _ Nat.toDigits_ne_nil (Decimal.all_isDigit_toDigits n.natAbs)

end Lexeme

end EmberLang
