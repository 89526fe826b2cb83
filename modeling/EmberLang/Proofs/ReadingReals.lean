import EmberLang.Proofs.Packing
import Mathlib.Algebra.Order.Field.Power

/-!
# Reading a decimal

A decimal with digits `n` and exponent `e` is read as the real that
`n · 10 ^ e` rounds to – `ofScientific_eq` – and with the sign that is
written – `ofDecimal_eq`. Nothing is asked of how the digits were found, so
every decimal in the interval of a real reads back as it, the shortest one
among them.

There are two ways through the reader. A number of few digits with a small
power of ten is the product or quotient of two reals that are exact, rounded
once. All others are rounded once from an exact fraction.
-/

namespace EmberLang.Decimal

open Float.Model Float.Model.UnpackedFloat

/-! ## Numbers that are reals -/

theorem lowerGap_pos (m : ℕ) (q : ℤ) : 0 < lowerGap m q := by
  unfold lowerGap
  split <;> norm_num

/-- A real rounds to itself. -/
theorem RoundsTo.self (m : ℕ) (q : ℤ) : RoundsTo (m * 2 ^ q) m q := by
  have hpow := two_zpow_pos q
  have hgap := lowerGap_pos m q
  have hlow : ((m : ℚ) - lowerGap m q) * 2 ^ q < m * 2 ^ q := by
    gcongr
    linarith
  have hhigh : (m : ℚ) * 2 ^ q < (m + 1 / 2) * 2 ^ q := by
    gcongr
    linarith
  refine ⟨hlow.le, hhigh.le, ?_⟩
  rintro (h | h)
  · exact absurd h hlow.ne'
  · exact absurd h hhigh.ne

/-- **Whether an unpacked real is a natural number**, kept with all its
bits. -/
def isExactly (f : UnpackedFloat) (n : ℕ) : Bool :=
  match f with
  | .finite .positive M E _ =>
    decide (2 ^ 52 ≤ M) && if 0 ≤ E then M * 2 ^ E.toNat == n else M == n * 2 ^ (-E).toNat
  | _ => false

theorem eq_finite_of_isExactly {f : UnpackedFloat} {n : ℕ} (h : isExactly f n = true) :
    ∃ M E hM, f = .finite .positive M E hM ∧ 2 ^ 52 ≤ M ∧ (M : ℚ) * 2 ^ E = n := by
  unfold isExactly at h
  split at h
  case h_2 => cases h
  case h_1 M E hM =>
    rw [Bool.and_eq_true, decide_eq_true_iff] at h
    refine ⟨M, E, hM, rfl, h.1, ?_⟩
    have hvalue := h.2
    by_cases hE : 0 ≤ E
    · rw [if_pos hE, beq_iff_eq] at hvalue
      rw [← hvalue, ← Int.toNat_of_nonneg hE, zpow_natCast, Int.toNat_natCast]
      push_cast
      rfl
    · rw [if_neg hE, beq_iff_eq] at hvalue
      have hneg : E = -((-E).toNat : ℤ) := by omega
      rw [hvalue, hneg, zpow_neg, zpow_natCast, neg_neg, Int.toNat_natCast]
      push_cast
      field_simp

/-- The powers of ten that are kept ready. -/
theorem isExactly_powersOfTen : ∀ e : Fin 23,
    isExactly (Float.exactlyRepresentablePowersOfTen[e]).toModel.unpack (10 ^ e.val) = true := by
  decide

section SmallNaturals

variable {n k : ℕ} (hpos : 0 < n) (hk : n.log2 + k = 52)

include hpos hk

theorem canonical_shifted : Canonical (n * 2 ^ k) (-(k : ℤ)) := by
  have hlow : 2 ^ 52 ≤ n * 2 ^ k := by
    rw [← hk, pow_add]
    exact Nat.mul_le_mul_right _ (Nat.log2_self_le hpos.ne')
  have hhigh : n * 2 ^ k < 2 ^ 53 := by
    rw [show 53 = n.log2 + 1 + k by omega, pow_add]
    exact Nat.mul_lt_mul_of_pos_right Nat.lt_log2_self (Nat.two_pow_pos k)
  exact ⟨by omega, hhigh, by omega, by omega, by omega⟩

theorem round_natural :
    round Format.binary64 .positive n 0
      = .finite .positive (n * 2 ^ k) (-(k : ℤ)) (canonical_shifted hpos hk).pos := by
  have hm := canonical_shifted hpos hk
  have htarget : Format.binary64.targetExponent (totalExponent n 0) = -(k : ℤ) := by
    rw [targetExponent_eq, totalExponent]
    omega
  unfold UnpackedFloat.round decreaseExponent
  rw [htarget]
  dsimp only
  rw [sub_neg_eq_add, zero_add, Int.toNat_natCast, zero_sub, Nat.shiftLeft_eq]
  refine roundWithAccuracy_eq .positive ?_ hm.targetExponent.ge hm (.self _ _)
  rw [mul_div_cancel_right₀ _ (two_zpow_pos _).ne']
  exact stands_ofMantissaAndAccuracy le_rfl (lt_add_one _) rfl

end SmallNaturals

/-- **A natural number of at most 53 bits is a real.** -/
theorem unpack_ofUInt64 {n : ℕ} (hpos : 0 < n) (hlt : n < 2 ^ 53) :
    ∃ M E hM, (Float.Model.ofUInt64 n.toUInt64).unpack = .finite .positive M E hM
      ∧ 2 ^ 52 ≤ M ∧ (M : ℚ) * 2 ^ E = n := by
  have hlog : n.log2 ≤ 52 := Nat.le_of_lt_succ ((Nat.log2_lt hpos.ne').2 hlt)
  obtain ⟨k, hk⟩ := Nat.exists_eq_add_of_le hlog
  have hm := canonical_shifted hpos hk.symm
  refine ⟨n * 2 ^ k, -k, hm.pos, ?_, ?_, ?_⟩
  · have hnat : n.toUInt64.toNat = n := Nat.mod_eq_of_lt (by omega)
    have hcompare : compare (n : ℤ) 0 = .gt := compare_gt_iff_gt.2 (by omega)
    show (Float.Model.pack
      (normalize Format.binary64 (n.toUInt64.toNat : ℤ) 0 .positive)).unpack = _
    unfold UnpackedFloat.normalize
    rw [hnat, hcompare]
    dsimp only
    rw [Int.toNat_natCast, round_natural hpos hk.symm, unpack_pack .positive hm]
  · by_contra hless
    have := hm.normal (by omega)
    omega
  · rw [zpow_neg, zpow_natCast]
    push_cast
    field_simp

/-! ## Decimals -/

section Decimals

variable {n e m : ℕ} {q : ℤ} {v : ℚ}

theorem RoundsTo.pos (hv : RoundsTo v m q) (hm : Canonical m q) : 0 < v := by
  have hone : (1 : ℚ) ≤ m := by exact_mod_cast hm.pos
  have hpow := two_zpow_pos q
  have hlow := hv.low_half
  nlinarith

theorem RoundsTo.lt_two_zpow (hv : RoundsTo v m q) (hm : Canonical m q) :
    v < 2 ^ (1024 : ℤ) := by
  have hmant : (m : ℚ) + 1 ≤ 2 ^ 53 := by exact_mod_cast hm.lt
  have hpow := two_zpow_pos q
  have hmax : (2 : ℚ) ^ q ≤ 2 ^ (971 : ℤ) := zpow_le_zpow_right₀ one_le_two hm.max
  calc v ≤ (m + 1 / 2) * 2 ^ q := hv.high
    _ < 2 ^ 53 * 2 ^ q := by
      gcongr
      linarith
    _ ≤ 2 ^ 53 * 2 ^ (971 : ℤ) := by gcongr
    _ = 2 ^ (1024 : ℤ) := by
      rw [← zpow_natCast, ← zpow_add₀ two_ne_zero]
      rfl

theorem RoundsTo.two_zpow_le (hv : RoundsTo v m q) (hm : Canonical m q) :
    (2 : ℚ) ^ (-1075 : ℤ) ≤ v := by
  have hone : (1 : ℚ) ≤ m := by exact_mod_cast hm.pos
  have hmin : (2 : ℚ) ^ (-1074 : ℤ) ≤ 2 ^ q := zpow_le_zpow_right₀ one_le_two hm.min
  have hpow := two_zpow_pos (-1074)
  calc (2 : ℚ) ^ (-1075 : ℤ) = 1 / 2 * 2 ^ (-1074 : ℤ) := by
        rw [show (-1075 : ℤ) = -1 + -1074 from rfl, zpow_add₀ two_ne_zero, zpow_neg_one, one_div]
    _ ≤ (m - 1 / 2) * 2 ^ q := mul_le_mul (by linarith) hmin hpow.le (by linarith)
    _ ≤ v := hv.low_half

/-- A decimal that rounds to a real is not too large for one. -/
theorem exponent_le (hm : Canonical m q) (hpos : 0 < n) {e : ℤ} (hv : RoundsTo (n * 10 ^ e) m q) :
    e ≤ 2 ^ 11 := by
  by_contra hlarge
  have hone : (1 : ℚ) ≤ n := by exact_mod_cast hpos
  have hless := hv.lt_two_zpow hm
  have hmore : (2 : ℚ) ^ (1024 : ℤ) ≤ n * 10 ^ e := by
    calc (2 : ℚ) ^ (1024 : ℤ) ≤ 2 ^ e := zpow_le_zpow_right₀ one_le_two (by omega)
      _ ≤ 10 ^ e := zpow_le_zpow_left₀ (by omega) zero_le_two (by norm_num)
      _ ≤ n * 10 ^ e := le_mul_of_one_le_left (by positivity) hone
  exact absurd hless (not_lt.2 hmore)

/-- Nor is it too small. -/
theorem le_exponent (hm : Canonical m q) {e : ℤ} (hv : RoundsTo (n * 10 ^ e) m q) :
    -(2 ^ 11 + (n.log2 : ℤ)) ≤ e := by
  by_contra hsmall
  have hn : (n : ℚ) < 2 ^ ((n.log2 : ℤ) + 1) := by
    have : n < 2 ^ (n.log2 + 1) := Nat.lt_log2_self
    exact_mod_cast this
  have hten : (10 : ℚ) ^ e ≤ 2 ^ e := by
    rw [← neg_neg e, zpow_neg, zpow_neg (2 : ℚ)]
    refine inv_anti₀ (by positivity) (zpow_le_zpow_left₀ (by omega) zero_le_two (by norm_num))
  have hless : (n : ℚ) * 10 ^ e < 2 ^ (-1075 : ℤ) := by
    calc (n : ℚ) * 10 ^ e ≤ 2 ^ ((n.log2 : ℤ) + 1) * 2 ^ e := by gcongr
      _ = 2 ^ ((n.log2 : ℤ) + 1 + e) := (zpow_add₀ two_ne_zero _ _).symm
      _ < 2 ^ (-1075 : ℤ) := zpow_lt_zpow_right₀ one_lt_two (by omega)
  exact absurd hless (not_lt.2 (hv.two_zpow_le hm))

theorem zpow_of_neg {e : ℤ} (he : e < 0) : (10 : ℚ) ^ e = ((10 : ℚ) ^ e.natAbs)⁻¹ := by
  obtain ⟨k, rfl⟩ := Int.exists_eq_neg_ofNat he.le
  rw [zpow_neg, zpow_natCast, Int.natAbs_neg, Int.natAbs_natCast]

theorem zpow_of_nonneg {e : ℤ} (he : 0 ≤ e) : (10 : ℚ) ^ e = 10 ^ e.natAbs := by
  obtain ⟨k, rfl⟩ := Int.eq_ofNat_of_zero_le he
  rw [zpow_natCast, Int.natAbs_natCast]

/-- The powers of ten that are kept ready multiply and divide without
loss. -/
theorem ofScientific_of_small (hm : Canonical m q) (hpos : 0 < n) (hn : n < 2 ^ 53) {e : ℤ}
    (he : e.natAbs ≤ 22) (hv : RoundsTo (n * 10 ^ e) m q) :
    Float.ofScientific n (e < 0) e.natAbs
      = .ofModel (Float.Model.pack (.finite .positive m q hm.pos)) := by
  obtain ⟨M₁, E₁, h₁, hunpack₁, hbits, hvalue₁⟩ := unpack_ofUInt64 hpos hn
  obtain ⟨M₂, E₂, h₂, hunpack₂, -, hvalue₂⟩ :=
    eq_finite_of_isExactly (isExactly_powersOfTen ⟨e.natAbs, by omega⟩)
  dsimp only at hvalue₂
  push_cast at hvalue₂
  unfold Float.ofScientific
  rw [dif_pos ⟨hn, he⟩]
  by_cases hneg : e < 0
  · rw [zpow_of_neg hneg, ← hvalue₁, ← hvalue₂, ← div_eq_mul_inv] at hv
    rw [if_pos (decide_eq_true hneg)]
    refine congrArg (fun f => Float.ofModel (Float.Model.pack f))
      (Eq.trans (congrArg₂ (div Format.binary64) hunpack₁ hunpack₂) ?_)
    exact div_eq .positive .positive hm hv
  · rw [zpow_of_nonneg (not_lt.1 hneg), ← hvalue₁, ← hvalue₂] at hv
    rw [if_neg (by simpa using hneg)]
    have hbits' : 2 ^ 52 ≤ M₁ * M₂ := hbits.trans (Nat.le_mul_of_pos_right _ h₂)
    refine congrArg (fun f => Float.ofModel (Float.Model.pack f))
      (Eq.trans (congrArg₂ (mul Format.binary64) hunpack₁ hunpack₂) ?_)
    exact mul_eq .positive .positive hbits' hm hv

/-- **A decimal is read as the real that it rounds to.** -/
theorem ofScientific_eq (hm : Canonical m q) (hpos : 0 < n) {e : ℤ}
    (hv : RoundsTo (n * 10 ^ e) m q) :
    Float.ofScientific n (e < 0) e.natAbs
      = .ofModel (Float.Model.pack (.finite .positive m q hm.pos)) := by
  by_cases hsmall : n < 2 ^ 53 ∧ e.natAbs ≤ 22
  · exact ofScientific_of_small hm hpos hsmall.1 hsmall.2 hv
  -- Few digits and a small power of ten go through a product or a quotient of
  -- two reals. All else is rounded once, from the exact fraction.
  have hexponent : (if decide (e < 0) = true then Int.negOfNat e.natAbs else Int.ofNat e.natAbs)
      = e := by
    by_cases hneg : e < 0
    · rw [if_pos (decide_eq_true hneg), Int.negOfNat_eq, Int.ofNat_eq_natCast]
      omega
    · rw [if_neg (by simpa using hneg), Int.ofNat_eq_natCast]
      omega
  unfold Float.ofScientific
  rw [dif_neg hsmall]
  dsimp only
  rw [hexponent]
  refine congrArg (fun f => Float.ofModel (Float.Model.pack f)) ?_
  unfold UnpackedFloat.ofScientific
  rw [dif_neg hpos.ne', if_neg (not_lt.2 (exponent_le hm hpos hv)),
    if_neg (not_lt.2 (le_exponent hm hv))]
  by_cases hneg : e < 0
  · rw [if_neg (not_le.2 hneg)]
    refine div_eq .positive .positive hm ?_
    rw [zpow_of_neg hneg] at hv
    rw [show (-e).toNat = e.natAbs by omega, zpow_zero, mul_one, mul_one, div_eq_mul_inv]
    push_cast
    exact hv
  · rw [if_pos (not_lt.1 hneg)]
    refine mul_eq .positive .positive ?_ hm ?_
    · rw [Nat.shiftLeft_eq]
      show 2 ^ 52 ≤ n * 2 ^ 53 * 10 ^ e.toNat
      calc 2 ^ 52 ≤ n * 2 ^ 53 := by omega
        _ ≤ n * 2 ^ 53 * 10 ^ e.toNat := Nat.le_mul_of_pos_right _ (by positivity)
    · rw [zpow_of_nonneg (not_lt.1 hneg)] at hv
      rw [show e.toNat = e.natAbs by omega, Nat.shiftLeft_eq, zpow_zero, mul_one, zpow_neg,
        zpow_natCast]
      push_cast
      rw [mul_inv_cancel_right₀ (by positivity)]
      exact hv

/-- The negative of a positive real. -/
theorem neg_ofModel_pack (hm : Canonical m q) :
    -(Float.ofModel (Float.Model.pack (.finite .positive m q hm.pos)))
      = .ofModel (Float.Model.pack (.finite .negative m q hm.pos)) := by
  show Float.ofModel (Float.Model.pack
    (UnpackedFloat.neg (Float.Model.pack (.finite .positive m q hm.pos)).unpack)) = _
  rw [unpack_pack .positive hm]
  rfl

/-- **A decimal that rounds to the magnitude of a real is read as the
real**, given its sign. -/
theorem ofDecimal_eq {x : Float} (hx : magnitude x = .finite m q) (hm : Canonical m q)
    (hpos : 0 < n) {e : ℤ} (hv : RoundsTo (n * 10 ^ e) m q) :
    ofDecimal (isNegative x) n e = x := by
  have hpack := eq_pack_of_magnitude hx hm
  unfold signOf at hpack
  unfold ofDecimal
  dsimp only
  rw [ofScientific_eq hm hpos hv]
  split
  · next hneg =>
    rw [if_pos hneg] at hpack
    rw [neg_ofModel_pack hm, ← hpack]
  · next hneg =>
    rw [if_neg hneg] at hpack
    exact hpack.symm

end Decimals

end EmberLang.Decimal
