import Mathlib.Algebra.Order.Field.Rat
import Mathlib.Tactic.FieldSimp
import Mathlib.Tactic.GCongr
import Mathlib.Tactic.Linarith
import Mathlib.Tactic.NormNum
import Mathlib.Tactic.Ring

/-!
# Rounding to the nearest real

A real is kept as a mantissa times a power of two, and each operation rounds
an exact result to such a number. The exact result is given to the rounding as
a mantissa with two residual bits, and `Stands` says which rational numbers
these can stand for. `RoundsTo` says which rational numbers belong to a real:
an interval around it, with its ends if the mantissa is even.

The main result is that rounding a number that belongs to a real gives this
real – `roundWithAccuracy_eq` – and from it come the products and the
quotients – `mul_eq`, `div_eq`. Two cases need care. Below a power of two the
reals are twice as dense, so the interval is not symmetric there. And a number
just below a power of two is first shifted with the smaller exponent, and
reaches the power of two only by a carry.
-/

namespace EmberLang.Decimal

open Float.Model Float.Model.UnpackedFloat

/-! ## Mantissas with residual bits -/

/-- **What a mantissa with residual bits stands for**: a number between
the mantissa and the next one. The round bit says whether the number is in
the upper half, and the sticky bit whether it is neither the mantissa nor
the middle. -/
structure Stands (em : ExtendedMantissa) (x : ℚ) : Prop where
  /-- It is at least the mantissa. -/
  le : em.mantissa ≤ x
  /-- It is less than the next one. -/
  lt : x < em.mantissa + 1
  /-- The round bit. -/
  round : em.roundBit = true ↔ em.mantissa + 1 / 2 ≤ x
  /-- The sticky bit. -/
  sticky : em.stickyBit = false ↔ x = em.mantissa ∨ x = em.mantissa + 1 / 2

namespace Stands

variable {em : ExtendedMantissa} {x : ℚ}

/-- The residual bits say nothing else than that the number is the
mantissa. -/
theorem residual (h : Stands em x) :
    (em.roundBit || em.stickyBit) = false ↔ x = em.mantissa := by
  rw [Bool.or_eq_false_iff, h.sticky, ← Bool.not_eq_true, h.round]
  constructor
  · rintro ⟨hround, hx | hx⟩
    · exact hx
    · exact absurd hx.ge hround
  · intro hx
    exact ⟨by linarith, .inl hx⟩

/-- Halving a number moves the last bit of its mantissa to the round bit,
and what was there to the sticky bit. -/
theorem shiftRightOne (h : Stands em x) : Stands em.shiftRightOne (x / 2) := by
  have hmantissa : (em.mantissa : ℚ) = 2 * (em.mantissa / 2 : ℕ) + (em.mantissa % 2 : ℕ) := by
    exact_mod_cast (Nat.div_add_mod em.mantissa 2).symm
  have hle := h.le
  have hlt := h.lt
  have hresidual := h.residual
  unfold ExtendedMantissa.shiftRightOne
  rcases Nat.mod_two_eq_zero_or_one em.mantissa with hbit | hbit
  · rw [hbit, Nat.cast_zero, add_zero] at hmantissa
    refine ⟨by dsimp only; linarith, by dsimp only; linarith, ?_, ?_⟩
    · simp only [hbit, bne_self_eq_false, Bool.false_eq_true, false_iff, not_le]
      linarith
    · rw [hresidual]
      constructor
      · intro hx
        exact .inl (by dsimp only; linarith)
      · rintro (hx | hx) <;> dsimp only at hx <;> linarith
  · rw [hbit, Nat.cast_one] at hmantissa
    refine ⟨by dsimp only; linarith, by dsimp only; linarith, ?_, ?_⟩
    · simp only [hbit, bne_iff_ne, ne_eq, one_ne_zero, not_false_eq_true, true_iff]
      linarith
    · rw [hresidual]
      constructor
      · intro hx
        exact .inr (by dsimp only; linarith)
      · rintro (hx | hx) <;> dsimp only at hx <;> linarith

theorem shiftRight (h : Stands em x) (k : ℕ) : Stands (em >>> k) (x / 2 ^ k) := by
  induction k with
  | zero =>
    rw [pow_zero, div_one]
    exact h
  | succ k ih =>
    rw [pow_succ, ← div_div]
    exact ih.shiftRightOne

/-- **Rounding to the nearest**: the mantissa is rounded to the only number
that is at most one half away, and in the middle between two numbers to the
even one. -/
theorem roundedMantissa_eq (h : Stands em x) {m : ℕ} (hlow : m - 1 / 2 ≤ x) (hhigh : x ≤ m + 1 / 2)
    (htie : x = m - 1 / 2 ∨ x = m + 1 / 2 → m % 2 = 0) : em.roundedMantissa = m := by
  obtain ⟨mantissa, round, sticky⟩ := em
  obtain ⟨hle, hlt, hround, hsticky⟩ := h
  dsimp only at hle hlt hround hsticky
  have hmin : mantissa ≤ m := by
    by_contra hless
    have : (m : ℚ) + 1 ≤ mantissa := by exact_mod_cast Nat.lt_of_not_le hless
    linarith
  have hmax : m ≤ mantissa + 1 := by
    by_contra hmore
    have : (mantissa : ℚ) + 1 + 1 ≤ m := by exact_mod_cast Nat.lt_of_not_le hmore
    linarith
  -- the number is nearest to its mantissa or to the next one
  have hcases : m = mantissa ∨ m = mantissa + 1 := by omega
  unfold ExtendedMantissa.roundedMantissa ExtendedMantissa.accuracy
  cases round with
  | false =>
    have hlower : x < mantissa + 1 / 2 := by simpa using hround
    rcases hcases with rfl | rfl
    · cases sticky <;> rfl
    · push_cast at hlow
      linarith
  | true =>
    have hupper : (mantissa : ℚ) + 1 / 2 ≤ x := by simpa using hround
    cases sticky with
    | false =>
      have hmiddle : x = mantissa + 1 / 2 := by
        rcases hsticky.1 rfl with hx | hx
        · linarith
        · exact hx
      show mantissa + mantissa % 2 = m
      rcases hcases with rfl | rfl
      · have := htie (.inr hmiddle)
        omega
      · have := htie (.inl (by push_cast; linarith))
        omega
    | true =>
      show mantissa + 1 = m
      rcases hcases with rfl | rfl
      · have hmiddle : x = m + 1 / 2 := le_antisymm hhigh hupper
        cases hsticky.2 (.inr hmiddle)
      · rfl

end Stands

/-! ## Reals as integers times powers of two -/

/-- **A positive real as it is kept**: `m · 2 ^ q` with as many bits as
possible. Below the smallest exponent there are fewer. -/
structure Canonical (m : ℕ) (q : ℤ) : Prop where
  /-- It is positive. -/
  pos : 0 < m
  /-- A mantissa has at most 53 bits. -/
  lt : m < 2 ^ 53
  /-- The smallest exponent. -/
  min : -1074 ≤ q
  /-- The largest exponent. -/
  max : q ≤ 971
  /-- Only with the smallest exponent there are fewer than 53 bits. -/
  normal : m < 2 ^ 52 → q = -1074

/-- How far below a real the numbers begin that round to it, in units of
its last bit. Below a power of two the next real is half as far away as
above. -/
def lowerGap (m : ℕ) (q : ℤ) : ℚ := if m = 2 ^ 52 ∧ -1074 < q then 1 / 4 else 1 / 2

/-- **The numbers that round to a real**: all that are nearer to it than to
the next ones, and those in the middle if the mantissa is even. -/
structure RoundsTo (v : ℚ) (m : ℕ) (q : ℤ) : Prop where
  /-- The lower end. -/
  low : (m - lowerGap m q) * 2 ^ q ≤ v
  /-- The upper end. -/
  high : v ≤ (m + 1 / 2) * 2 ^ q
  /-- Which reals the ends belong to. -/
  tie : v = (m - lowerGap m q) * 2 ^ q ∨ v = (m + 1 / 2) * 2 ^ q → m % 2 = 0

theorem lowerGap_le (m : ℕ) (q : ℤ) : lowerGap m q ≤ 1 / 2 := by
  unfold lowerGap
  split <;> norm_num

theorem targetExponent_eq (T : ℤ) :
    Format.binary64.targetExponent T = max (T - 53) (-1074) := rfl

theorem Canonical.targetExponent {m : ℕ} {q : ℤ} (h : Canonical m q) :
    Format.binary64.targetExponent (totalExponent m q) = q := by
  have hlog : m.log2 < 53 := (Nat.log2_lt h.pos.ne').2 h.lt
  rw [targetExponent_eq]
  unfold totalExponent
  by_cases hm : m < 2 ^ 52
  · have := (Nat.log2_lt h.pos.ne').2 hm
    have := h.normal hm
    omega
  · have : 52 ≤ m.log2 := (Nat.le_log2 h.pos.ne').2 (not_lt.1 hm)
    have := h.min
    omega

theorem shiftToTargetExponent_eq {M : ℕ} {E : ℤ} {accuracy : Accuracy} {k : ℕ}
    (h : Format.binary64.targetExponent (totalExponent M E) = E + k) :
    shiftToTargetExponent Format.binary64 M E accuracy
      = (ExtendedMantissa.ofMantissaAndAccuracy M accuracy >>> k, E + k) := by
  unfold shiftToTargetExponent shiftToExponent
  have hk : (Format.binary64.targetExponent (totalExponent M E) - E).toNat = k := by omega
  dsimp only
  rw [hk]

/-- What is kept as it is needs no shift. -/
theorem shiftToTargetExponent_of_canonical {m : ℕ} {q : ℤ} (h : Canonical m q) :
    shiftToTargetExponent Format.binary64 m q .exact = (⟨m, false, false⟩, q) := by
  have htarget : Format.binary64.targetExponent (totalExponent m q) = q + (0 : ℕ) := by
    rw [h.targetExponent, Nat.cast_zero, add_zero]
  rw [shiftToTargetExponent_eq htarget, Nat.cast_zero, add_zero]
  rfl

/-- A mantissa that became too long by rounding is shifted once more. -/
theorem shiftToTargetExponent_of_carry {q : ℤ} (h : -1074 < q) :
    shiftToTargetExponent Format.binary64 (2 ^ 53) (q - 1) .exact
      = (⟨2 ^ 52, false, false⟩, q) := by
  have htarget : Format.binary64.targetExponent (totalExponent (2 ^ 53) (q - 1))
      = q - 1 + (1 : ℕ) := by
    rw [targetExponent_eq, totalExponent, Nat.log2_two_pow, Nat.cast_one]
    omega
  rw [shiftToTargetExponent_eq htarget, Nat.cast_one, sub_add_cancel]
  rfl

/-! ## The exponent of a number -/

theorem two_zpow_pos (q : ℤ) : (0 : ℚ) < 2 ^ q := zpow_pos two_pos q

/-- A number lies between two powers of two that its mantissa tells. -/
theorem Stands.bounds {M : ℕ} {E : ℤ} {em : ExtendedMantissa} {v : ℚ} (hM : em.mantissa = M)
    (hpos : 0 < M) (h : Stands em (v / 2 ^ E)) :
    (2 : ℚ) ^ (totalExponent M E - 1) ≤ v ∧ v < 2 ^ totalExponent M E := by
  have hpow := two_zpow_pos E
  have hlow : (2 : ℚ) ^ M.log2 ≤ M := by exact_mod_cast Nat.log2_self_le hpos.ne'
  have hhigh : (M : ℚ) + 1 ≤ 2 ^ (M.log2 + 1) := by exact_mod_cast Nat.lt_log2_self
  have hle := h.le
  have hlt := h.lt
  rw [hM, le_div_iff₀ hpow] at hle
  rw [hM, div_lt_iff₀ hpow] at hlt
  unfold totalExponent
  constructor
  · calc (2 : ℚ) ^ ((M.log2 : ℤ) + 1 + E - 1) = 2 ^ M.log2 * 2 ^ E := by
          rw [← zpow_natCast, ← zpow_add₀ two_ne_zero]
          congr 1
          ring
      _ ≤ M * 2 ^ E := by gcongr
      _ ≤ v := hle
  · calc v < (M + 1) * 2 ^ E := hlt
      _ ≤ 2 ^ (M.log2 + 1) * 2 ^ E := by gcongr
      _ = 2 ^ ((M.log2 : ℤ) + 1 + E) := by
          rw [← zpow_natCast, ← zpow_add₀ two_ne_zero]
          congr 1

section Nearest

variable {M m : ℕ} {E q : ℤ} {accuracy : Accuracy} {v : ℚ}

theorem RoundsTo.low_half (h : RoundsTo v m q) : ((m : ℚ) - 1 / 2) * 2 ^ q ≤ v := by
  have hpow := two_zpow_pos q
  have hgap := lowerGap_le m q
  calc ((m : ℚ) - 1 / 2) * 2 ^ q ≤ (m - lowerGap m q) * 2 ^ q := by gcongr
    _ ≤ v := h.low

theorem Canonical.two_pow_le (hm : Canonical m q) (hq : q ≠ -1074) : 2 ^ 52 ≤ m :=
  not_lt.1 fun hlt => hq (hm.normal hlt)

/-- A number that rounds to a real has the same exponent, apart from
numbers just below a power of two. -/
theorem targetExponent_of_roundsTo {em : ExtendedMantissa} (hmantissa : em.mantissa = M)
    (hstands : Stands em (v / 2 ^ E))
    (hE : E ≤ Format.binary64.targetExponent (totalExponent M E)) (hm : Canonical m q)
    (hv : RoundsTo v m q) :
    Format.binary64.targetExponent (totalExponent M E) = q
      ∨ (m = 2 ^ 52 ∧ -1074 < q ∧ Format.binary64.targetExponent (totalExponent M E) = q - 1
        ∧ v < 2 ^ 52 * 2 ^ q) := by
  have hpow := two_zpow_pos q
  have hmin := hm.min
  have hlow := hv.low_half
  rw [targetExponent_eq] at hE ⊢
  rcases Nat.eq_zero_or_pos M with rfl | hpos
  · -- a mantissa is zero only below the smallest exponent
    have hsmall : E ≤ -1074 := by
      rw [totalExponent, Nat.log2_zero] at hE
      omega
    have hvE : v < 2 ^ E := by
      have := hstands.lt
      rwa [hmantissa, Nat.cast_zero, zero_add, div_lt_iff₀ (two_zpow_pos E), one_mul] at this
    have hEq : (2 : ℚ) ^ E ≤ 2 ^ q := zpow_le_zpow_right₀ one_le_two (hsmall.trans hmin)
    by_cases hq : q = -1074
    · left
      rw [totalExponent, Nat.log2_zero]
      omega
    · have hlarge : (2 : ℚ) ^ 52 ≤ m := by exact_mod_cast hm.two_pow_le hq
      nlinarith
  · obtain ⟨hfrom, hbelow⟩ := hstands.bounds hmantissa hpos
    have hless : v < 2 ^ (53 + q) := by
      have hmant : (m : ℚ) + 1 ≤ 2 ^ 53 := by exact_mod_cast hm.lt
      rw [zpow_add₀ two_ne_zero]
      calc v ≤ (m + 1 / 2) * 2 ^ q := hv.high
        _ < 2 ^ (53 : ℤ) * 2 ^ q := by
          gcongr
          norm_num at hmant ⊢
          linarith
    have hT : totalExponent M E - 1 < 53 + q :=
      (zpow_lt_zpow_iff_right₀ one_lt_two).1 (hfrom.trans_lt hless)
    by_cases hq : q = -1074
    · left
      omega
    · have hlarge : (2 : ℚ) ^ 52 ≤ m := by exact_mod_cast hm.two_pow_le hq
      have hmore : (2 : ℚ) ^ (51 + q) ≤ v := by
        rw [zpow_add₀ two_ne_zero]
        refine le_trans ?_ hlow
        gcongr
        rw [show (51 : ℤ) = (51 : ℕ) from rfl, zpow_natCast]
        linarith
      have hT' : 51 + q < totalExponent M E :=
        (zpow_lt_zpow_iff_right₀ one_lt_two).1 (hmore.trans_lt hbelow)
      by_cases hTq : totalExponent M E = 53 + q
      · left
        omega
      · right
        -- The number lies in the binade below and rounds up to the power of two.
        have hT52 : totalExponent M E = 52 + q := by omega
        have hv52 : v < 2 ^ 52 * 2 ^ q := by
          rw [hT52, zpow_add₀ two_ne_zero] at hbelow
          exact hbelow
        refine ⟨?_, by omega, by omega, hv52⟩
        by_contra hne
        have hmore52 : (2 : ℚ) ^ 52 + 1 ≤ m := by
          exact_mod_cast Nat.lt_of_le_of_ne (hm.two_pow_le hq) (Ne.symm hne)
        nlinarith

theorem mantissa_ofMantissaAndAccuracy (M : ℕ) (accuracy : Accuracy) :
    (ExtendedMantissa.ofMantissaAndAccuracy M accuracy).mantissa = M := by
  rcases accuracy with _ | _ | _ | _ <;> rfl

/-- Within the binade of a real, a number that rounds to it has it as its
nearest mantissa. -/
theorem RoundsTo.roundedMantissa_eq (hv : RoundsTo v m q) {em : ExtendedMantissa}
    (h : Stands em (v / 2 ^ q)) : em.roundedMantissa = m := by
  have hpow := two_zpow_pos q
  refine h.roundedMantissa_eq ?_ ?_ ?_
  · rw [le_div_iff₀ hpow]
    exact hv.low_half
  · rw [div_le_iff₀ hpow]
    exact hv.high
  · rintro (hx | hx)
    · rw [div_eq_iff hpow.ne'] at hx
      by_cases heven : m = 2 ^ 52 ∧ -1074 < q
      · rw [heven.1]
        norm_num
      · refine hv.tie (.inl ?_)
        rw [lowerGap, if_neg heven, hx]
    · rw [div_eq_iff hpow.ne'] at hx
      exact hv.tie (.inr hx)

/-- Just below a power of two, a number that rounds to it does so from the
binade below. -/
theorem RoundsTo.roundedMantissa_carry (hv : RoundsTo v (2 ^ 52) q) (hq : -1074 < q)
    (hless : v < 2 ^ 52 * 2 ^ q) {em : ExtendedMantissa} (h : Stands em (v / 2 ^ (q - 1))) :
    em.roundedMantissa = 2 ^ 53 := by
  have hpow := two_zpow_pos (q - 1)
  have hdouble : (2 : ℚ) ^ q = 2 * 2 ^ (q - 1) := by
    rw [← zpow_one_add₀ two_ne_zero, add_sub_cancel]
  have hlow := hv.low
  rw [lowerGap, if_pos ⟨rfl, hq⟩, hdouble] at hlow
  rw [hdouble] at hless
  push_cast at hlow
  refine h.roundedMantissa_eq ?_ ?_ fun _ => by norm_num
  · rw [le_div_iff₀ hpow]
    push_cast
    linarith
  · rw [div_le_iff₀ hpow]
    push_cast
    linarith

/-- **Rounding is right**: a number that is nearer to a real than to all
others, or in the middle with an even mantissa, is rounded to that real. The
number is given by a mantissa of enough bits and the accuracy of it. -/
theorem roundWithAccuracy_eq (sign : Sign)
    (hstands : Stands (ExtendedMantissa.ofMantissaAndAccuracy M accuracy) (v / 2 ^ E))
    (hE : E ≤ Format.binary64.targetExponent (totalExponent M E)) (hm : Canonical m q)
    (hv : RoundsTo v m q) :
    roundWithAccuracy Format.binary64 sign M E accuracy = .finite sign m q hm.pos := by
  have hmantissa := mantissa_ofMantissaAndAccuracy M accuracy
  obtain ⟨k, hk⟩ := Int.eq_ofNat_of_zero_le (sub_nonneg.2 hE)
  have htarget : Format.binary64.targetExponent (totalExponent M E) = E + k := by omega
  have hshifted := hstands.shiftRight k
  rw [div_div, ← zpow_natCast (2 : ℚ) k, ← zpow_add₀ two_ne_zero] at hshifted
  unfold roundWithAccuracy
  rw [shiftToTargetExponent_eq htarget]
  dsimp only
  rcases targetExponent_of_roundsTo hmantissa hstands hE hm hv with hq | ⟨rfl, hmin, hq, hless⟩
  · rw [← htarget, hq] at hshifted ⊢
    rw [hv.roundedMantissa_eq hshifted, shiftToTargetExponent_of_canonical hm]
    exact dif_neg hm.pos.ne'
  · rw [← htarget, hq] at hshifted ⊢
    rw [hv.roundedMantissa_carry hmin hless hshifted, shiftToTargetExponent_of_carry hmin]
    exact dif_neg hm.pos.ne'

end Nearest

/-! ## Products and quotients -/

section Operations

variable {M₁ M₂ m : ℕ} {E₁ E₂ q : ℤ} {h₁ : 0 < M₁} {h₂ : 0 < M₂}

/-- The residual bits of an accuracy, without its mantissa. -/
theorem stands_ofMantissaAndAccuracy {M : ℕ} {accuracy : Accuracy} {x : ℚ} (hle : M ≤ x)
    (hlt : x < M + 1)
    (h : match accuracy with
      | .exact => x = M
      | .inexact o => x ≠ M ∧ o = compare x (M + 1 / 2)) :
    Stands (ExtendedMantissa.ofMantissaAndAccuracy M accuracy) x := by
  have hhalf : (0 : ℚ) < 1 / 2 := by norm_num
  match accuracy with
  | .exact =>
    refine ⟨hle, hlt, ?_, ?_⟩
    · show false = true ↔ (M : ℚ) + 1 / 2 ≤ x
      simp only [Bool.false_eq_true, false_iff, not_le]
      linarith
    · show false = false ↔ x = M ∨ _
      exact ⟨fun _ => .inl h, fun _ => rfl⟩
  | .inexact .lt =>
    have hless : x < M + 1 / 2 := compare_lt_iff_lt.1 h.2.symm
    refine ⟨hle, hlt, ?_, ?_⟩
    · show false = true ↔ (M : ℚ) + 1 / 2 ≤ x
      simp only [Bool.false_eq_true, false_iff, not_le]
      exact hless
    · show true = false ↔ x = M ∨ x = M + 1 / 2
      simp only [Bool.true_eq_false, false_iff, not_or]
      exact ⟨h.1, hless.ne⟩
  | .inexact .eq =>
    have hmiddle : x = M + 1 / 2 := compare_eq_iff_eq.1 h.2.symm
    refine ⟨hle, hlt, ?_, ?_⟩
    · show true = true ↔ (M : ℚ) + 1 / 2 ≤ x
      exact ⟨fun _ => hmiddle.ge, fun _ => rfl⟩
    · show false = false ↔ x = M ∨ x = M + 1 / 2
      exact ⟨fun _ => .inr hmiddle, fun _ => rfl⟩
  | .inexact .gt =>
    have hmore : (M : ℚ) + 1 / 2 < x := compare_gt_iff_gt.1 h.2.symm
    refine ⟨hle, hlt, ?_, ?_⟩
    · show true = true ↔ (M : ℚ) + 1 / 2 ≤ x
      exact ⟨fun _ => hmore.le, fun _ => rfl⟩
    · show true = false ↔ x = M ∨ x = M + 1 / 2
      simp only [Bool.true_eq_false, false_iff, not_or]
      exact ⟨h.1, hmore.ne'⟩

/-- **A product is rounded right** if it has enough bits. -/
theorem mul_eq (sign₁ sign₂ : Sign) (hbits : 2 ^ 52 ≤ M₁ * M₂) (hm : Canonical m q)
    (hv : RoundsTo (M₁ * 2 ^ E₁ * (M₂ * 2 ^ E₂)) m q) :
    mul Format.binary64 (.finite sign₁ M₁ E₁ h₁) (.finite sign₂ M₂ E₂ h₂)
      = .finite (sign₁ * sign₂) m q hm.pos := by
  have hpos : M₁ * M₂ ≠ 0 := (Nat.mul_pos h₁ h₂).ne'
  have hvalue : (M₁ : ℚ) * 2 ^ E₁ * (M₂ * 2 ^ E₂) / 2 ^ (E₁ + E₂) = (M₁ * M₂ : ℕ) := by
    rw [zpow_add₀ two_ne_zero]
    have := (two_zpow_pos E₁).ne'
    have := (two_zpow_pos E₂).ne'
    push_cast
    field_simp
  refine roundWithAccuracy_eq (sign₁ * sign₂) ?_ ?_ hm hv
  · rw [hvalue]
    exact stands_ofMantissaAndAccuracy le_rfl (lt_add_one _) rfl
  · have hlog : 52 ≤ (M₁ * M₂).log2 := (Nat.le_log2 hpos).2 hbits
    rw [targetExponent_eq, totalExponent]
    omega

/-- The accuracy of a fraction tells what the quotient is. -/
theorem stands_accuracyOfFraction (N : ℕ) {D : ℕ} (hD : 0 < D) :
    Stands (ExtendedMantissa.ofMantissaAndAccuracy (N / D) (accuracyOfFraction (N % D) D))
      ((N : ℚ) / D) := by
  have hD' : (0 : ℚ) < D := by exact_mod_cast hD
  have hN : (N : ℚ) = D * (N / D : ℕ) + (N % D : ℕ) := by exact_mod_cast (Nat.div_add_mod N D).symm
  have hquot : (N : ℚ) / D = (N / D : ℕ) + (N % D : ℕ) / D := by
    rw [hN]
    field_simp
  have hrest : ((N % D : ℕ) : ℚ) / D < 1 := by
    rw [div_lt_iff₀ hD', one_mul]
    exact_mod_cast Nat.mod_lt N hD
  have hnonneg : (0 : ℚ) ≤ (N % D : ℕ) / D := div_nonneg (Nat.cast_nonneg _) hD'.le
  rw [hquot]
  refine stands_ofMantissaAndAccuracy (le_add_of_nonneg_right hnonneg) (by linarith) ?_
  unfold accuracyOfFraction
  by_cases hzero : N % D = 0
  · rw [if_pos hzero, hzero, Nat.cast_zero, zero_div, add_zero]
  · rw [if_neg hzero]
    have hpos : (0 : ℚ) < (N % D : ℕ) / D :=
      div_pos (by exact_mod_cast Nat.pos_of_ne_zero hzero) hD'
    refine ⟨by linarith, ?_⟩
    rcases Nat.lt_trichotomy (2 * (N % D)) D with h | h | h
    · have hless : ((N % D : ℕ) : ℚ) / D < 1 / 2 := by
        rw [div_lt_iff₀ hD']
        have : (2 : ℚ) * (N % D : ℕ) < D := by exact_mod_cast h
        linarith
      rw [Nat.compare_eq_lt.2 h, eq_comm, compare_lt_iff_lt]
      linarith
    · have hmiddle : ((N % D : ℕ) : ℚ) / D = 1 / 2 := by
        rw [div_eq_iff hD'.ne']
        have : (2 : ℚ) * (N % D : ℕ) = D := by exact_mod_cast h
        linarith
      rw [Nat.compare_eq_eq.2 h, eq_comm, compare_eq_iff_eq, hmiddle]
    · have hmore : 1 / 2 < ((N % D : ℕ) : ℚ) / D := by
        rw [lt_div_iff₀ hD']
        have : (D : ℚ) < 2 * (N % D : ℕ) := by exact_mod_cast h
        linarith
      rw [Nat.compare_eq_gt.2 h, eq_comm, compare_gt_iff_gt]
      linarith

/-- What is needed of a quotient: a number below it, and an exponent that
leaves enough bits. -/
theorem divCore_stands (M₁ : ℕ) (E₁ : ℤ) {M₂ : ℕ} (h₂ : 0 < M₂) (E₂ : ℤ) :
    let core := divCore Format.binary64 M₁ E₁ M₂ E₂
    Stands (ExtendedMantissa.ofMantissaAndAccuracy core.1 core.2.2)
      (M₁ * 2 ^ E₁ / (M₂ * 2 ^ E₂) / 2 ^ core.2.1) := by
  unfold divCore
  dsimp only
  set E := min (E₁ - E₂)
    (Format.binary64.targetExponent (totalExponent M₁ E₁ - totalExponent M₂ E₂))
  have hshift : ((E₁ - E₂ - E).toNat : ℤ) = E₁ - E₂ - E :=
    Int.toNat_of_nonneg (sub_nonneg.2 (min_le_left _ _))
  have hvalue : (M₁ : ℚ) * 2 ^ E₁ / (M₂ * 2 ^ E₂) / 2 ^ E
      = ((M₁ <<< (E₁ - E₂ - E).toNat : ℕ) : ℚ) / M₂ := by
    rw [Nat.shiftLeft_eq]
    push_cast
    rw [← zpow_natCast (2 : ℚ), hshift, zpow_sub₀ two_ne_zero, zpow_sub₀ two_ne_zero]
    have := (two_zpow_pos E₂).ne'
    have := (two_zpow_pos E).ne'
    field_simp
  rw [hvalue]
  exact stands_accuracyOfFraction _ h₂

/-- A quotient is larger than the powers of two tell that its parts begin
with. -/
theorem zpow_lt_div (h₁ : 0 < M₁) (h₂ : 0 < M₂) (E₁ E₂ : ℤ) :
    (2 : ℚ) ^ (totalExponent M₁ E₁ - totalExponent M₂ E₂ - 1) < M₁ * 2 ^ E₁ / (M₂ * 2 ^ E₂) := by
  have hM₁ : (2 : ℚ) ^ M₁.log2 ≤ M₁ := by exact_mod_cast Nat.log2_self_le h₁.ne'
  have hM₂ : (M₂ : ℚ) < 2 ^ (M₂.log2 + 1) := by exact_mod_cast Nat.lt_log2_self
  have hE₁ := two_zpow_pos E₁
  have hE₂ := two_zpow_pos E₂
  have hpos : (0 : ℚ) < M₂ := by exact_mod_cast h₂
  have hpow := two_zpow_pos (totalExponent M₁ E₁ - totalExponent M₂ E₂ - 1)
  rw [lt_div_iff₀ (mul_pos hpos hE₂)]
  have hexp : totalExponent M₁ E₁ - totalExponent M₂ E₂ - 1
      = (M₁.log2 : ℤ) + E₁ - ((M₂.log2 + 1 : ℕ) + E₂) := by
    unfold totalExponent
    push_cast
    ring
  calc (2 : ℚ) ^ (totalExponent M₁ E₁ - totalExponent M₂ E₂ - 1) * (M₂ * 2 ^ E₂)
      < 2 ^ (totalExponent M₁ E₁ - totalExponent M₂ E₂ - 1) * (2 ^ (M₂.log2 + 1) * 2 ^ E₂) := by
        gcongr
    _ = 2 ^ M₁.log2 * 2 ^ E₁ := by
        rw [hexp, ← zpow_natCast (2 : ℚ) (M₂.log2 + 1), ← zpow_natCast (2 : ℚ) M₁.log2,
          ← zpow_add₀ two_ne_zero, ← zpow_add₀ two_ne_zero, ← zpow_add₀ two_ne_zero, sub_add_cancel]
    _ ≤ M₁ * 2 ^ E₁ := by gcongr

/-- The exponent that a quotient is computed with leaves enough bits. -/
theorem divCore_exponent (h₁ : 0 < M₁) (h₂ : 0 < M₂) (E₁ E₂ : ℤ) :
    let core := divCore Format.binary64 M₁ E₁ M₂ E₂
    core.2.1 ≤ Format.binary64.targetExponent (totalExponent core.1 core.2.1) := by
  intro core
  have hstands := divCore_stands M₁ E₁ h₂ E₂
  have hquot := zpow_lt_div h₁ h₂ E₁ E₂
  have hmantissa := mantissa_ofMantissaAndAccuracy core.1 core.2.2
  have hmin : core.2.1
      ≤ Format.binary64.targetExponent (totalExponent M₁ E₁ - totalExponent M₂ E₂) :=
    min_le_right _ _
  change Stands (.ofMantissaAndAccuracy core.1 core.2.2) (_ / 2 ^ core.2.1) at hstands
  generalize core.1 = M at *
  generalize core.2.1 = E at *
  rw [targetExponent_eq] at hmin ⊢
  rcases Nat.eq_zero_or_pos M with rfl | hpos
  · have hless := hstands.lt
    rw [hmantissa, Nat.cast_zero, zero_add, div_lt_iff₀ (two_zpow_pos E), one_mul] at hless
    have hE := (zpow_lt_zpow_iff_right₀ (one_lt_two (α := ℚ))).1 (hquot.trans hless)
    omega
  · have hT := (zpow_lt_zpow_iff_right₀ (one_lt_two (α := ℚ))).1
      (hquot.trans (hstands.bounds hmantissa hpos).2)
    omega

/-- **A quotient is rounded right.** -/
theorem div_eq (sign₁ sign₂ : Sign) (hm : Canonical m q)
    (hv : RoundsTo (M₁ * 2 ^ E₁ / (M₂ * 2 ^ E₂)) m q) :
    div Format.binary64 (.finite sign₁ M₁ E₁ h₁) (.finite sign₂ M₂ E₂ h₂)
      = .finite (sign₁ / sign₂) m q hm.pos :=
  roundWithAccuracy_eq (sign₁ / sign₂) (divCore_stands M₁ E₁ h₂ E₂)
    (divCore_exponent h₁ h₂ E₁ E₂) hm hv

end Operations

end EmberLang.Decimal
