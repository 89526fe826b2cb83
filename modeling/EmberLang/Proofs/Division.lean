import EmberLang.Intrinsic.Standard
import EmberLang.Proofs.Outcome
import Mathlib.Data.Rat.Floor
import Mathlib.Tactic.FieldSimp
import Mathlib.Tactic.Linarith
import Mathlib.Tactic.Ring

/-!
# Division of integers

The quotient of two integers is put together from their magnitudes and from
a comparison of their signs, and the remainder is what the quotient leaves.
That this is division with rounding toward zero takes four combinations of
signs, a dividend that is zero and divisions without a remainder, which the
comparison of signs does not tell apart.

All of them are one case once the signs are factors:
`Intrinsic.quotient_eq` and `Intrinsic.remainder_eq`. A quotient and a
remainder of the right size and sign determine each other, because such a
quotient can only be the exact one without its fraction
(`Intrinsic.IsDivision.eq_towardZero`). `IntrinsicTable.standard_divides`
says all this of the two entries of the standard table.
-/

namespace EmberLang

namespace Intrinsic

/-- **A division of integers with rounding toward zero**: the quotient and
the remainder make up the dividend, and the remainder is smaller than the
divisor and of the sign of the dividend, unless it is zero. -/
structure IsDivision (a b q r : Int) : Prop where
  /-- They make up the dividend. -/
  whole : a = b * q + r
  /-- The remainder is small. -/
  small : |r| < |b|
  /-- It has the sign of the dividend. -/
  sign : r = 0 ∨ r.sign = a.sign

/-- **A number without its fraction.** -/
def towardZero (x : ℚ) : Int := if 0 ≤ x then ⌊x⌋ else ⌈x⌉

/-! ## The signs as factors -/

theorem quotient_eq (a b : Int) : quotient a b = a.sign * b.sign * (|a| / |b|) := by
  unfold quotient
  rw [Int.abs_eq_natAbs, Int.abs_eq_natAbs]
  rcases lt_trichotomy a 0 with ha | rfl | ha
  · rcases lt_trichotomy b 0 with hb | rfl | hb
    · simp [ha, hb, Int.sign_eq_neg_one_of_neg]
    · simp
    · simp [ha, hb, hb.not_gt, Int.sign_eq_neg_one_of_neg, Int.sign_eq_one_of_pos]
  · simp
  · rcases lt_trichotomy b 0 with hb | rfl | hb
    · simp [ha, ha.not_gt, hb, Int.sign_eq_neg_one_of_neg, Int.sign_eq_one_of_pos]
    · simp
    · simp [ha, ha.not_gt, hb, hb.not_gt, Int.sign_eq_one_of_pos]

theorem remainder_eq (a b : Int) : remainder a b = a.sign * (|a| % |b|) := by
  have ha : a = a.sign * |a| := (Int.sign_mul_abs a).symm
  have hb : b * b.sign = |b| := Int.mul_sign_self b ▸ (Int.abs_eq_natAbs b).symm
  calc remainder a b
      = a.sign * |a| - b * (a.sign * b.sign * (|a| / |b|)) := by
        rw [remainder, quotient_eq, ← ha]
    _ = a.sign * (|a| - b * b.sign * (|a| / |b|)) := by ring
    _ = a.sign * (|a| % |b|) := by rw [hb, Int.emod_def]

/-- **The quotient and the remainder are those of a division.** -/
theorem isDivision (a : Int) {b : Int} (hb : b ≠ 0) :
    IsDivision a b (quotient a b) (remainder a b) := by
  have hpos : 0 < |b| := abs_pos.2 hb
  have hrest : 0 ≤ |a| % |b| := Int.emod_nonneg _ hpos.ne'
  refine ⟨by rw [remainder]; ring, ?_, ?_⟩
  · calc |remainder a b|
        = |a.sign| * (|a| % |b|) := by rw [remainder_eq, abs_mul, abs_of_nonneg hrest]
      _ ≤ 1 * (|a| % |b|) := by
        refine mul_le_mul_of_nonneg_right ?_ hrest
        rcases Int.sign_trichotomy a with h | h | h <;> simp [h]
      _ < |b| := by rw [one_mul]; exact Int.emod_lt_of_pos _ hpos
  · rw [remainder_eq]
    rcases hrest.eq_or_lt with hzero | hrest
    · exact .inl (by rw [← hzero, mul_zero])
    · exact .inr (by rw [Int.sign_mul, Int.sign_sign, Int.sign_eq_one_of_pos hrest, mul_one])

/-! ## Rounding -/

namespace IsDivision

variable {a b q r : Int}

/-- **The quotient of a division is the exact quotient without its
fraction.** -/
theorem eq_towardZero (h : IsDivision a b q r) : q = towardZero (a / b) := by
  have hb : (b : ℚ) ≠ 0 := by
    rintro hb
    have hsmall := h.small
    rw [Int.cast_eq_zero.1 hb, abs_zero] at hsmall
    exact absurd hsmall (abs_nonneg r).not_gt
  -- The fraction that the quotient leaves, its size and its sign.
  have hexact : (a / b : ℚ) = q + r / b := by
    rw [h.whole]
    push_cast
    field_simp
  have hsize : |(r / b : ℚ)| < 1 := by
    rw [abs_div, div_lt_one (abs_pos.2 hb)]
    exact_mod_cast h.small
  have hsign : (r / b : ℚ) = 0 ∨ 0 < (r / b : ℚ) * (a / b) := by
    rcases eq_or_ne r 0 with rfl | hr
    · exact .inl (by simp)
    · have hsame : r.sign = a.sign := h.sign.resolve_left hr
      have hprod : 0 < r * a := by
        rw [← Int.sign_eq_one_iff_pos, Int.sign_mul, ← hsame, ← Int.sign_mul]
        exact Int.sign_eq_one_of_pos (mul_self_pos.2 hr)
      refine .inr ?_
      rw [div_mul_div_comm]
      exact div_pos (by exact_mod_cast hprod) (mul_self_pos.2 hb)
  obtain ⟨hlow, hhigh⟩ := abs_lt.1 hsize
  unfold towardZero
  split
  · next hpos =>
    have hfraction : 0 ≤ (r / b : ℚ) := by
      rcases hsign with hzero | hsame
      · exact hzero.ge
      · exact (pos_of_mul_pos_left hsame hpos).le
    symm
    rw [Int.floor_eq_iff, hexact]
    constructor <;> linarith
  · next hneg =>
    have hfraction : (r / b : ℚ) ≤ 0 := by
      rcases hsign with hzero | hsame
      · exact hzero.le
      · exact (neg_of_mul_pos_left hsame (not_le.1 hneg).le).le
    symm
    rw [Int.ceil_eq_iff, hexact]
    constructor <;> linarith

/-- **A division has one quotient and one remainder.** -/
theorem unique {q' r' : Int} (h : IsDivision a b q r) (h' : IsDivision a b q' r') :
    q' = q ∧ r' = r := by
  have hq : q' = q := h'.eq_towardZero.trans h.eq_towardZero.symm
  have hr : b * q' + r' = b * q + r := h'.whole.symm.trans h.whole
  rw [hq] at hr
  exact ⟨hq, add_left_cancel hr⟩

end IsDivision

end Intrinsic

/-! ## The standard table -/

namespace IntrinsicTable

open Intrinsic

/-- What a division that stands in a table comes to. -/
theorem apply_intDivision {t : IntrinsicTable} {name : String} {f : Int → Int → Int}
    (h : t.get? name = some (intDivision name f)) (a b : Int) (p : Option Position) :
    t.apply name [.int a, .int b] p
      = if b = 0 then .error (.of (.divisionByZero name) p) else .ok (.int (f a b)) := by
  have hoperands : operands name .int p 0 [.int a, .int b] = .ok [.int a, .int b] := rfl
  have hcompute : (intDivision name f).compute [.int a, .int b]
      = if b = 0 then .byZero else .result (.int (f a b)) := rfl
  unfold apply
  rw [h]
  show (operands name .int p 0 [.int a, .int b] >>= _) = _
  rw [hoperands, ok_bind, hcompute]
  by_cases hb : b = 0
  · rw [if_pos hb, if_pos hb]
  · rw [if_neg hb, if_neg hb]
    rfl

/-- **Integer division is exact and rounds toward zero.** Of the standard
table, the quotient and the remainder of two integers of any size are a
division by zero if and only if the divisor is zero. Otherwise they have
values that make up the dividend, the remainder being smaller than the
divisor and zero or of the sign of the dividend; the quotient is the exact
one without its fraction; and no other two integers are like this. -/
theorem standard_divides (a b : Int) (p : Option Position) :
    (standard.apply "idiv" [.int a, .int b] p = .error (.of (.divisionByZero "idiv") p) ↔ b = 0)
      ∧ (standard.apply "irem" [.int a, .int b] p = .error (.of (.divisionByZero "irem") p)
        ↔ b = 0)
      ∧ (b ≠ 0 → ∃ q r, standard.apply "idiv" [.int a, .int b] p = .ok (.int q)
        ∧ standard.apply "irem" [.int a, .int b] p = .ok (.int r)
        ∧ IsDivision a b q r ∧ q = towardZero (a / b)
        ∧ ∀ q' r', IsDivision a b q' r' → q' = q ∧ r' = r) := by
  rw [apply_intDivision (f := quotient) rfl, apply_intDivision (f := remainder) rfl]
  refine ⟨?_, ?_, fun hb => ?_⟩
  · simp
  · simp
  · have h := isDivision a hb
    rw [if_neg hb, if_neg hb]
    exact ⟨_, _, rfl, rfl, h, h.eq_towardZero, fun _ _ h' => h.unique h'⟩

/-- Seven divided by minus two. -/
theorem standard_divides_seven_by_minus_two :
    standard.apply "idiv" [.int 7, .int (-2)] none = .ok (.int (-3))
      ∧ standard.apply "irem" [.int 7, .int (-2)] none = .ok (.int 1)
      ∧ IsDivision 7 (-2) (-3) 1 ∧ -3 = towardZero (7 / -2)
      ∧ ∀ q r, IsDivision 7 (-2) q r → q = -3 ∧ r = 1 := by
  obtain ⟨q, r, hq, hr, h⟩ := (standard_divides 7 (-2) none).2.2 (by decide)
  obtain rfl : -3 = q := Value.int.inj (Except.ok.inj hq)
  obtain rfl : 1 = r := Value.int.inj (Except.ok.inj hr)
  exact ⟨hq, hr, h⟩

end IntrinsicTable

end EmberLang
