import EmberLang.Proofs.ReadingReals

/-!
# The shortest decimal rounds to its real

Any decimal in the interval of a real rounds to the real
(`Interval.roundsTo_of_contains`), so what is left to show of the search
for the shortest one is that it ends in the interval. It does so with a
grid that is finer than the interval is wide, since then one of the two
neighbours of the real on the grid lies inside. The seventeenth grid is
that fine, provided that the first one is not too coarse: its step is at
most the real (`zpow_decimalExponent_le`). The estimate that the search
begins with is good enough for that because `10 ^ 59` and `2 ^ 196`, and
`2 ^ 93` and `10 ^ 28`, are so close together.
-/

namespace EmberLang.Decimal

/-! ## Quotients -/

namespace Quotient

/-- The number that a quotient is. -/
def value (a : Quotient) : ℚ := a.num / a.den

theorem value_scale2 (n : ℕ) (e : ℤ) : (scale2 n e).value = n * 2 ^ e := by
  unfold scale2 value
  split
  · next he =>
    obtain ⟨k, rfl⟩ := Int.eq_ofNat_of_zero_le he
    rw [Int.toNat_natCast, Nat.shiftLeft_eq, zpow_natCast]
    push_cast
    rw [div_one]
  · next he =>
    obtain ⟨k, rfl⟩ := Int.exists_eq_neg_ofNat (not_le.1 he).le
    rw [neg_neg, Int.toNat_natCast, Nat.shiftLeft_eq, one_mul, zpow_neg, zpow_natCast]
    push_cast
    rw [div_eq_mul_inv]

theorem den_scale2_pos (n : ℕ) (e : ℤ) : 0 < (scale2 n e).den := by
  unfold scale2
  split
  · exact one_pos
  · dsimp only
    rw [Nat.shiftLeft_eq, one_mul]
    exact Nat.two_pow_pos _

theorem value_scale10 (n : ℕ) (e : ℤ) : (scale10 n e).value = n * 10 ^ e := by
  unfold scale10 value
  split
  · next he =>
    obtain ⟨k, rfl⟩ := Int.eq_ofNat_of_zero_le he
    rw [Int.toNat_natCast, Nat.pow_eq, zpow_natCast]
    push_cast
    rw [div_one]
  · next he =>
    obtain ⟨k, rfl⟩ := Int.exists_eq_neg_ofNat (not_le.1 he).le
    rw [neg_neg, Int.toNat_natCast, Nat.pow_eq, zpow_neg, zpow_natCast]
    push_cast
    rw [div_eq_mul_inv]

theorem den_scale10_pos (n : ℕ) (e : ℤ) : 0 < (scale10 n e).den := by
  unfold scale10
  split
  · exact one_pos
  · exact Nat.pow_pos (by decide)

/-- **Quotients are compared as numbers.** -/
theorem compare_eq {a b : Quotient} (ha : 0 < a.den) (hb : 0 < b.den) :
    a.compare b = Ord.compare a.value b.value := by
  have ha' : (0 : ℚ) < a.den := by exact_mod_cast ha
  have hb' : (0 : ℚ) < b.den := by exact_mod_cast hb
  have hlt : a.value < b.value ↔ a.num * b.den < b.num * a.den := by
    unfold value
    rw [div_lt_div_iff₀ ha' hb']
    exact_mod_cast Iff.rfl
  have hgt : b.value < a.value ↔ b.num * a.den < a.num * b.den := by
    unfold value
    rw [div_lt_div_iff₀ hb' ha']
    exact_mod_cast Iff.rfl
  unfold compare
  rcases Nat.lt_trichotomy (a.num * b.den) (b.num * a.den) with h | h | h
  · rw [Nat.compare_eq_lt.2 h, compare_lt_iff_lt.2 (hlt.2 h)]
  · have heq : a.value = b.value := by
      refine le_antisymm (not_lt.1 fun hv => ?_) (not_lt.1 fun hv => ?_)
      · exact absurd (hgt.1 hv) (by omega)
      · exact absurd (hlt.1 hv) (by omega)
    rw [Nat.compare_eq_eq.2 h, compare_eq_iff_eq.2 heq]
  · rw [Nat.compare_eq_gt.2 h, compare_gt_iff_gt.2 (hgt.2 h)]

/-- **The neighbours of a quotient on a grid.** -/
theorem floor10_bounds {a : Quotient} (ha : 0 < a.den) (e : ℤ) :
    (a.floor10 e : ℚ) * 10 ^ e ≤ a.value ∧ a.value < (a.floor10 e + 1 : ℕ) * 10 ^ e := by
  have ha' : (0 : ℚ) < a.den := by exact_mod_cast ha
  unfold floor10 value
  split
  · next he =>
    obtain ⟨k, rfl⟩ := Int.eq_ofNat_of_zero_le he
    rw [Int.toNat_natCast, Nat.pow_eq, zpow_natCast, le_div_iff₀ ha', div_lt_iff₀ ha']
    have hpos : 0 < a.den * 10 ^ k := by positivity
    have hle := Nat.div_mul_le_self a.num (a.den * 10 ^ k)
    have hlt := Nat.lt_mul_of_div_lt (Nat.lt_succ_self (a.num / (a.den * 10 ^ k))) hpos
    constructor
    · calc ((a.num / (a.den * 10 ^ k) : ℕ) : ℚ) * 10 ^ k * a.den
          = (a.num / (a.den * 10 ^ k) * (a.den * 10 ^ k) : ℕ) := by push_cast; ring
        _ ≤ a.num := by exact_mod_cast hle
    · calc (a.num : ℚ) < ((a.num / (a.den * 10 ^ k) + 1) * (a.den * 10 ^ k) : ℕ) := by
            exact_mod_cast hlt
        _ = (a.num / (a.den * 10 ^ k) + 1 : ℕ) * 10 ^ k * a.den := by push_cast; ring
  · next he =>
    obtain ⟨k, rfl⟩ := Int.exists_eq_neg_ofNat (not_le.1 he).le
    have hpow : (0 : ℚ) < 10 ^ k := by positivity
    rw [neg_neg, Int.toNat_natCast, Nat.pow_eq, zpow_neg, zpow_natCast, ← div_eq_mul_inv,
      ← div_eq_mul_inv, div_le_div_iff₀ hpow ha', div_lt_div_iff₀ ha' hpow]
    have hle := Nat.div_mul_le_self (a.num * 10 ^ k) a.den
    have hlt := Nat.lt_mul_of_div_lt (Nat.lt_succ_self (a.num * 10 ^ k / a.den)) ha
    constructor
    · exact_mod_cast hle
    · exact_mod_cast hlt

end Quotient

/-! ## Intervals -/

namespace Interval

open Decimal.Quotient

/-- An interval whose quotients are numbers, with its value strictly
inside. -/
structure Sound (i : Interval) : Prop where
  /-- The lower end is a number. -/
  low_pos : 0 < i.low.den
  /-- The value is a number. -/
  value_pos : 0 < i.value.den
  /-- The upper end is a number. -/
  high_pos : 0 < i.high.den
  /-- The lower end is below the value. -/
  low_lt : i.low.value < i.value.value
  /-- The upper end is above it. -/
  lt_high : i.value.value < i.high.value

variable {i : Interval}

/-- What lies in an interval is between its ends, and is an end of closed
intervals only. -/
theorem Sound.bounds_of_contains (hi : i.Sound) {a : Quotient} (ha : 0 < a.den)
    (h : i.contains a = true) :
    i.low.value ≤ a.value ∧ a.value ≤ i.high.value
      ∧ (a.value = i.low.value ∨ a.value = i.high.value → i.closed = true) := by
  unfold contains at h
  rw [compare_eq hi.low_pos ha, compare_eq ha hi.high_pos] at h
  split at h
  · next hlow hhigh =>
    rw [compare_lt_iff_lt] at hlow hhigh
    refine ⟨hlow.le, hhigh.le, ?_⟩
    rintro (heq | heq)
    · exact absurd heq hlow.ne'
    · exact absurd heq hhigh.ne
  · cases h
  · cases h
  · next hlow hhigh _ =>
    refine ⟨not_lt.1 fun hlt => ?_, not_lt.1 fun hlt => ?_, fun _ => h⟩
    · exact hlow (compare_gt_iff_gt.2 hlt)
    · exact hhigh (compare_gt_iff_gt.2 hlt)

/-- What lies strictly between the ends lies in the interval. -/
theorem Sound.contains_of_lt (hi : i.Sound) {a : Quotient} (ha : 0 < a.den)
    (hlow : i.low.value < a.value) (hhigh : a.value < i.high.value) : i.contains a = true := by
  unfold contains
  rw [compare_eq hi.low_pos ha, compare_eq ha hi.high_pos, compare_lt_iff_lt.2 hlow,
    compare_lt_iff_lt.2 hhigh]

theorem contains_of_gridPoint? {e : ℤ} {n : ℕ} (h : i.gridPoint? e = some n) :
    i.contains (.scale10 n e) = true := by
  unfold gridPoint? at h
  dsimp only at h
  split at h
  · cases h
  · next hbelow _ =>
    obtain rfl := Option.some.inj h
    exact hbelow
  · next _ habove =>
    obtain rfl := Option.some.inj h
    exact habove
  · next hbelow habove =>
    split at h
    · obtain rfl := Option.some.inj h
      exact hbelow
    · obtain rfl := Option.some.inj h
      exact habove
    · obtain rfl := Option.some.inj h
      split
      · exact hbelow
      · exact habove

/-- **A grid that is finer than an interval is wide has a point in it.** -/
theorem Sound.gridPoint?_isSome (hi : i.Sound) {e : ℤ}
    (h : (10 : ℚ) ^ e < i.high.value - i.low.value) : (i.gridPoint? e).isSome = true := by
  obtain ⟨hbelow, habove⟩ := floor10_bounds hi.value_pos e
  unfold gridPoint?
  dsimp only
  split
  · next hnot hnot' =>
    -- Both neighbours are outside, and so the interval lies between them.
    exfalso
    have hlow : (i.value.floor10 e : ℚ) * 10 ^ e ≤ i.low.value := by
      by_contra hlt
      rw [hi.contains_of_lt (den_scale10_pos _ e)] at hnot
      · cases hnot
      · rw [value_scale10]
        exact not_le.1 hlt
      · rw [value_scale10]
        exact hbelow.trans_lt hi.lt_high
    have hhigh : i.high.value ≤ (i.value.floor10 e + 1 : ℕ) * 10 ^ e := by
      by_contra hlt
      rw [hi.contains_of_lt (den_scale10_pos _ e)] at hnot'
      · cases hnot'
      · rw [value_scale10]
        exact hi.low_lt.trans habove
      · rw [value_scale10]
        exact not_le.1 hlt
    push_cast at hhigh
    linarith
  · rfl
  · rfl
  · split <;> rfl

/-- The search ends in the interval if one of its grids has a point
there. -/
theorem contains_shortestFrom (fuel : ℕ) (e : ℤ) {k : ℕ} (hk : k < fuel)
    (h : (i.gridPoint? (e - k)).isSome = true) :
    i.contains (.scale10 (shortestFrom i fuel e).1 (shortestFrom i fuel e).2) = true := by
  induction fuel generalizing e k with
  | zero => exact absurd hk (Nat.not_lt_zero k)
  | succ fuel ih =>
    unfold shortestFrom
    split
    · next n hn => exact contains_of_gridPoint? hn
    · next hnone =>
      cases k with
      | zero =>
        rw [Nat.cast_zero, sub_zero, hnone] at h
        cases h
      | succ k =>
        refine ih (e - 1) (Nat.lt_of_succ_lt_succ hk) ?_
        rw [sub_sub, add_comm 1 (k : ℤ)]
        exact h

end Interval

/-! ## The interval of a real -/

section Around

variable {m : ℕ} {q : ℤ} (hm : Canonical m q)

theorem scale_quarter (x : ℚ) : 4 * x * 2 ^ (q - 2) = x * 2 ^ q := by
  rw [zpow_sub₀ two_ne_zero, show (2 : ℚ) ^ (2 : ℤ) = 4 by norm_num]
  ring

theorem value_around : (Interval.around m q).value.value = m * 2 ^ q := by
  show (Quotient.scale2 (4 * m) (q - 2)).value = _
  rw [Quotient.value_scale2, ← scale_quarter (q := q)]
  push_cast
  rfl

theorem high_around : (Interval.around m q).high.value = (m + 1 / 2) * 2 ^ q := by
  show (Quotient.scale2 (4 * m + 2) (q - 2)).value = _
  rw [Quotient.value_scale2, ← scale_quarter (q := q)]
  push_cast
  ring

include hm

theorem low_around : (Interval.around m q).low.value = (m - lowerGap m q) * 2 ^ q := by
  have hpos := hm.pos
  show (Quotient.scale2 (4 * m - if m = Nat.pow 2 52 && -1074 < q then 1 else 2) (q - 2)).value = _
  rw [Quotient.value_scale2, ← scale_quarter (q := q)]
  unfold lowerGap
  by_cases hsmall : m = 2 ^ 52 ∧ -1074 < q
  · rw [if_pos (by simp [hsmall.2]; exact hsmall.1), if_pos hsmall, Nat.cast_sub (by omega)]
    push_cast
    ring
  · rw [if_neg (by simp; intro h; exact not_lt.1 fun hq => hsmall ⟨h, hq⟩), if_neg hsmall,
      Nat.cast_sub (by omega)]
    push_cast
    ring

theorem sound_around : (Interval.around m q).Sound := by
  have hpow := two_zpow_pos q
  have hgap := lowerGap_pos m q
  refine ⟨Quotient.den_scale2_pos _ _, Quotient.den_scale2_pos _ _, Quotient.den_scale2_pos _ _,
    ?_, ?_⟩
  · rw [low_around hm, value_around]
    gcongr
    linarith
  · rw [value_around, high_around]
    gcongr
    linarith

/-- **What lies in the interval of a real rounds to it.** -/
theorem roundsTo_of_contains {n : ℕ} {e : ℤ}
    (h : (Interval.around m q).contains (.scale10 n e) = true) : RoundsTo (n * 10 ^ e) m q := by
  obtain ⟨hlow, hhigh, htie⟩ :=
    (sound_around hm).bounds_of_contains (Quotient.den_scale10_pos n e) h
  rw [Quotient.value_scale10] at hlow hhigh htie
  rw [low_around hm] at hlow htie
  rw [high_around] at hhigh htie
  exact ⟨hlow, hhigh, fun hend => by simpa [Interval.around] using htie hend⟩

/-- The seventeenth grid is finer than the interval is wide. -/
theorem zpow_lt_width {e : ℤ} (he : (10 : ℚ) ^ e ≤ m * 2 ^ q) :
    (10 : ℚ) ^ (e - 16) < (Interval.around m q).high.value - (Interval.around m q).low.value := by
  have hpow := two_zpow_pos q
  have hlt : (m : ℚ) ≤ 2 ^ 53 := by exact_mod_cast hm.lt.le
  rw [high_around, low_around hm, zpow_sub₀ (by norm_num), div_lt_iff₀ (by norm_num)]
  have hwidth : ((m : ℚ) + 1 / 2) * 2 ^ q - (m - lowerGap m q) * 2 ^ q
      = (1 / 2 + lowerGap m q) * 2 ^ q := by ring
  rw [hwidth]
  refine he.trans_lt ?_
  have hcoarse : (m : ℚ) < (1 / 2 + lowerGap m q) * 10 ^ (16 : ℤ) := by
    unfold lowerGap
    split
    · next hsmall =>
      rw [hsmall.1]
      norm_num
    · norm_num at hlt ⊢
      linarith
  calc (m : ℚ) * 2 ^ q < (1 / 2 + lowerGap m q) * 10 ^ (16 : ℤ) * 2 ^ q := by gcongr
    _ = (1 / 2 + lowerGap m q) * 2 ^ q * 10 ^ (16 : ℤ) := by ring

end Around

/-! ## The first grid -/

/-- The estimate of a decimal exponent from a binary one. -/
theorem zpow_estimate_le {k : ℤ} (hlow : -20000 ≤ k) (hhigh : k ≤ 20000) :
    (10 : ℚ) ^ (k * 30103 / 100000 - 1) ≤ 2 ^ k := by
  set g := k * 30103 / 100000 with hg
  have hfloor : g * 100000 ≤ k * 30103 := by omega
  rcases le_or_gt 0 k with hk | hk
  · obtain ⟨j, rfl⟩ := Int.eq_ofNat_of_zero_le hk
    refine le_of_pow_le_pow_left₀ (n := 196) (by decide) (by positivity) ?_
    calc ((10 : ℚ) ^ (g - 1)) ^ 196 = 10 ^ ((g - 1) * 196) := by
          rw [← zpow_natCast, ← zpow_mul]
          rfl
      _ ≤ 10 ^ ((59 * j : ℕ) : ℤ) := zpow_le_zpow_right₀ (by norm_num) (by push_cast; omega)
      _ = (10 ^ 59) ^ j := by rw [zpow_natCast, pow_mul]
      _ ≤ (2 ^ 196) ^ j := pow_le_pow_left₀ (by norm_num) (by norm_num) j
      _ = ((2 : ℚ) ^ (j : ℤ)) ^ 196 := by rw [zpow_natCast, ← pow_mul, ← pow_mul, mul_comm]
  · obtain ⟨j, rfl⟩ := Int.exists_eq_neg_ofNat hk.le
    obtain ⟨i, hi⟩ := Int.exists_eq_neg_ofNat (show g - 1 ≤ 0 by omega)
    rw [hi, zpow_neg, zpow_neg, zpow_natCast, zpow_natCast]
    refine inv_anti₀ (by positivity)
      (le_of_pow_le_pow_left₀ (n := 93) (by decide) (by positivity) ?_)
    calc ((2 : ℚ) ^ j) ^ 93 = (2 ^ 93) ^ j := by rw [← pow_mul, ← pow_mul, mul_comm]
      _ ≤ (10 ^ 28) ^ j := pow_le_pow_left₀ (by norm_num) (by norm_num) j
      _ = 10 ^ (28 * j) := by rw [pow_mul]
      _ ≤ 10 ^ (i * 93) := pow_le_pow_right₀ (by norm_num) (by omega)
      _ = (10 ^ i) ^ 93 := by rw [pow_mul]

section Shortest

variable {m : ℕ} {q : ℤ} (hm : Canonical m q)

include hm

/-- **The first grid has a step that is at most the real.** -/
theorem zpow_decimalExponent_le : (10 : ℚ) ^ decimalExponent m q ≤ m * 2 ^ q := by
  have hcompare (e : ℤ) : ((Quotient.scale2 m q).compare (.scale10 1 e) == .lt) = true
      ↔ (m : ℚ) * 2 ^ q < 10 ^ e := by
    rw [beq_iff_eq,
      Quotient.compare_eq (Quotient.den_scale2_pos m q) (Quotient.den_scale10_pos 1 e),
      compare_lt_iff_lt, Quotient.value_scale2, Quotient.value_scale10, Nat.cast_one, one_mul]
  have hlog : (2 : ℚ) ^ ((m.log2 : ℤ) + q) ≤ m * 2 ^ q := by
    have : (2 : ℚ) ^ m.log2 ≤ m := by exact_mod_cast Nat.log2_self_le hm.pos.ne'
    rw [zpow_add₀ two_ne_zero, zpow_natCast]
    gcongr
  have hbits : m.log2 < 53 := (Nat.log2_lt hm.pos.ne').2 hm.lt
  have hmin := hm.min
  have hmax := hm.max
  unfold decimalExponent
  dsimp only
  split
  · exact (zpow_estimate_le (by omega) (by omega)).trans hlog
  · next hlarge =>
    split
    · exact not_lt.1 fun h => hlarge ((hcompare _).2 h)
    · next hlarger => exact not_lt.1 fun h => hlarger ((hcompare _).2 h)

/-- **The shortest decimal rounds to the real.** -/
theorem roundsTo_shortest : RoundsTo ((shortest m q).1 * 10 ^ (shortest m q).2) m q := by
  refine roundsTo_of_contains hm (Interval.contains_shortestFrom 17 _ (k := 16) (by decide) ?_)
  exact (sound_around hm).gridPoint?_isSome (zpow_lt_width hm (zpow_decimalExponent_le hm))

theorem shortest_pos : 0 < (shortest m q).1 := by
  have hpos := (roundsTo_shortest hm).pos hm
  by_contra hzero
  rw [Nat.eq_zero_of_not_pos hzero, Nat.cast_zero, zero_mul] at hpos
  exact lt_irrefl 0 hpos

end Shortest

end EmberLang.Decimal
