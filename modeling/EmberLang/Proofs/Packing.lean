import EmberLang.Decimal.Real
import Mathlib
import EmberLang.Proofs.Rounding

/-!
# Reals and their bits

A real is its bits, and nothing else: a finite one is what packing its
sign and its magnitude gives (`eq_pack_of_magnitude`), and of what is no
finite number there are three, an infinity of either sign (`eq_infinity`)
and one that is no number at all (`eq_nan`).
-/

namespace EmberLang.Decimal

open Float.Model Float.Model.UnpackedFloat

/-! ## Packing -/

theorem toNat_append_eq {n k : ℕ} (a : BitVec n) (b : BitVec k) :
    (a ++ b).toNat = a.toNat * 2 ^ k + b.toNat := by
  rw [BitVec.toNat_append, ← Nat.shiftLeft_add_eq_or_of_lt b.isLt, Nat.shiftLeft_eq]

theorem toNat_packComponents (sign : Sign) (e : BitVec 11) (f : BitVec 52) :
    (packComponents Format.binary64 sign e f).toNat
      = (sign.toBitVec.toNat * 2 ^ 11 + e.toNat) * 2 ^ 52 + f.toNat := by
  show (sign.toBitVec ++ e ++ f).toNat = _
  rw [toNat_append_eq, toNat_append_eq]

/-- The exponent field of a real. -/
def exponentField (m : ℕ) (q : ℤ) : ℕ := if m < 2 ^ 52 then 0 else (q + 1075).toNat

/-- **The bits of a packed real.** -/
theorem pack_finite {m : ℕ} {q : ℤ} (sign : Sign) (hm : Canonical m q) :
    UnpackedFloat.pack Format.binary64 (.finite sign m q hm.pos)
      = packComponents Format.binary64 sign (BitVec.ofNat 11 (exponentField m q))
        (BitVec.ofNat 52 m) := by
  have hmin := hm.min
  have hmax := hm.max
  have hfit : ¬ 2 ^ Format.binary64.exponentBits
      ≤ (q + Format.binary64.exponentBias
        + Format.binary64.mantissaBitsWithoutImplicit).toNat + 1 := by
    show ¬ 2 ^ 11 ≤ (q + 1023 + 52).toNat + 1
    omega
  unfold UnpackedFloat.pack
  dsimp only
  rw [if_neg hfit]
  unfold exponentField
  by_cases hnormal : m < 2 ^ 52
  · have hlog := (Nat.log2_lt hm.pos.ne').2 hnormal
    rw [if_neg, if_pos hnormal]
    show ¬ m.log2 + 1 = 53
    omega
  · have hlog := (Nat.log2_lt hm.pos.ne').2 hm.lt
    have hlog' := (Nat.le_log2 hm.pos.ne').2 (not_lt.1 hnormal)
    rw [if_pos, if_neg hnormal]
    · congr 2
      show (q + 1023 + 52).toNat = (q + 1075).toNat
      congr 1
      ring
    · show m.log2 + 1 = 53
      omega

theorem unpackSign_packComponents (sign : Sign) (e : BitVec 11) (f : BitVec 52) :
    Sign.ofBitVec (unpackSign (packComponents Format.binary64 sign e f)) = sign := by
  have hsign : unpackSign (packComponents Format.binary64 sign e f) = sign.toBitVec := by
    refine BitVec.eq_of_toNat_eq ?_
    have hbits : (unpackSign (packComponents Format.binary64 sign e f)).toNat
        = (packComponents Format.binary64 sign e f).toNat / 2 ^ 63 % 2 := by
      show (packComponents Format.binary64 sign e f).toNat >>> 63 % 2 ^ 1 = _
      rw [Nat.shiftRight_eq_div_pow, pow_one]
    rw [hbits, toNat_packComponents]
    have := e.isLt
    have := f.isLt
    have := sign.toBitVec.isLt
    omega
  rw [hsign]
  cases sign <;> rfl

theorem finite_congr {sign : Sign} {m m' : ℕ} {q q' : ℤ} {h : 0 < m} {h' : 0 < m'}
    (hm : m = m') (hq : q = q') :
    UnpackedFloat.finite sign m q h = .finite sign m' q' h' := by
  subst hm hq
  rfl

theorem exponentField_lt {m : ℕ} {q : ℤ} (hm : Canonical m q) : exponentField m q < 2047 := by
  have hmax := hm.max
  unfold exponentField
  split <;> omega

/-- **Unpacking undoes packing.** -/
theorem unpack_pack {m : ℕ} {q : ℤ} (sign : Sign) (hm : Canonical m q) :
    (Float.Model.pack (.finite sign m q hm.pos)).unpack = .finite sign m q hm.pos := by
  have hmin := hm.min
  have hpos := hm.pos
  have hlt := hm.lt
  have hsmall := exponentField_lt hm
  have hfield : (BitVec.ofNat 11 (exponentField m q)).toNat = exponentField m q := by
    rw [BitVec.toNat_ofNat]
    exact Nat.mod_eq_of_lt (by omega)
  have hfinite : BitVec.ofNat 11 (exponentField m q) ≠ -1#11 := by
    intro h
    have := congrArg BitVec.toNat h
    rw [hfield, show (-1#11).toNat = 2047 from rfl] at this
    omega
  show UnpackedFloat.unpack Format.binary64
    (UnpackedFloat.pack Format.binary64 (.finite sign m q hm.pos)) = _
  rw [pack_finite sign hm]
  unfold UnpackedFloat.unpack
  simp only [unpackMantissa_packComponents, unpackExponent_packComponents,
    unpackSign_packComponents]
  rw [if_neg hfinite]
  by_cases hnormal : m < 2 ^ 52
  -- A number below the normal ones has an empty exponent and no hidden bit.
  · have hmantissa : (BitVec.ofNat 52 m).toNat = m := by
      rw [BitVec.toNat_ofNat]
      exact Nat.mod_eq_of_lt hnormal
    have hzero : exponentField m q = 0 := if_pos hnormal
    have hne : BitVec.ofNat 52 m ≠ 0#52 := by
      intro h
      have := congrArg BitVec.toNat h
      rw [hmantissa, show (0#52).toNat = 0 from rfl] at this
      omega
    rw [if_pos (by rw [hzero]), dif_neg hne]
    refine finite_congr hmantissa ?_
    rw [hfield, hzero, hm.normal hnormal]
    rfl
  -- A normal number gets its hidden bit back.
  · have hexp : exponentField m q = (q + 1075).toNat := if_neg hnormal
    have hne : BitVec.ofNat 11 (exponentField m q) ≠ 0#11 := by
      intro h
      have := congrArg BitVec.toNat h
      rw [hfield, hexp, show (0#11).toNat = 0 from rfl] at this
      omega
    rw [if_neg hne]
    refine finite_congr ?_ ?_
    · rw [toNat_append_eq, BitVec.toNat_ofNat, BitVec.toNat_ofNat]
      omega
    · rw [hfield, hexp]
      show ((q + 1075).toNat : ℤ) - (1023 + 52) = q
      omega

/-! ## Taking a real apart -/

section Parts

variable (x : Float)

/-- The exponent field. -/
theorem toNat_field : ((x.toBits >>> 52) &&& 0x7ff).toNat = x.toBits.toNat / 2 ^ 52 % 2 ^ 11 := by
  rw [UInt64.toNat_and, UInt64.toNat_shiftRight]
  show x.toBits.toNat >>> 52 &&& (2 ^ 11 - 1) = _
  rw [Nat.and_two_pow_sub_one_eq_mod, Nat.shiftRight_eq_div_pow]

theorem toNat_fraction : (x.toBits &&& 0xfffffffffffff).toNat = x.toBits.toNat % 2 ^ 52 := by
  rw [UInt64.toNat_and]
  exact Nat.and_two_pow_sub_one_eq_mod _ 52

theorem isNegative_iff : isNegative x = true ↔ 2 ^ 63 ≤ x.toBits.toNat := by
  have hlt := x.toBits.toNat_lt
  unfold isNegative
  rw [beq_iff_eq, ← UInt64.toNat_inj, UInt64.toNat_shiftRight]
  show x.toBits.toNat >>> 63 = 1 ↔ _
  rw [Nat.shiftRight_eq_div_pow]
  omega

/-- The sign of a real. -/
def signOf : Sign := if isNegative x then .negative else .positive

theorem toNat_signOf : (signOf x).toBitVec.toNat = x.toBits.toNat / 2 ^ 63 := by
  have hlt := x.toBits.toNat_lt
  have hneg := isNegative_iff x
  unfold signOf
  by_cases h : isNegative x = true
  · rw [if_pos h]
    show 1 = _
    have := hneg.1 h
    omega
  · rw [if_neg h]
    show 0 = _
    have := mt hneg.2 h
    omega

variable {x} {m : ℕ} {q : ℤ}

/-- What the magnitude of a finite real says about its bits. -/
theorem bits_of_magnitude (h : magnitude x = .finite m q) :
    (x.toBits.toNat / 2 ^ 52 % 2 ^ 11 = 0 ∧ m = x.toBits.toNat % 2 ^ 52 ∧ q = -1074)
      ∨ (0 < x.toBits.toNat / 2 ^ 52 % 2 ^ 11 ∧ x.toBits.toNat / 2 ^ 52 % 2 ^ 11 < 2047
        ∧ m = x.toBits.toNat % 2 ^ 52 + 2 ^ 52
        ∧ q = (x.toBits.toNat / 2 ^ 52 % 2 ^ 11 : ℕ) - 1075) := by
  have hfield := Nat.mod_lt (x.toBits.toNat / 2 ^ 52) (Nat.two_pow_pos 11)
  unfold magnitude at h
  dsimp only at h
  rw [toNat_field, toNat_fraction] at h
  by_cases hspecial : x.toBits.toNat / 2 ^ 52 % 2 ^ 11 = 0x7ff
  · rw [if_pos hspecial] at h
    split at h <;> cases h
  · rw [if_neg hspecial] at h
    by_cases hzero : x.toBits.toNat / 2 ^ 52 % 2 ^ 11 = 0
    · rw [if_pos hzero] at h
      obtain ⟨rfl, rfl⟩ := Magnitude.finite.inj h
      exact .inl ⟨hzero, rfl, rfl⟩
    · rw [if_neg hzero] at h
      obtain ⟨rfl, rfl⟩ := Magnitude.finite.inj h
      exact .inr ⟨by omega, by omega, rfl, rfl⟩

theorem canonical_of_magnitude (h : magnitude x = .finite m q) (hm : m ≠ 0) : Canonical m q := by
  have hfraction := Nat.mod_lt x.toBits.toNat (Nat.two_pow_pos 52)
  rcases bits_of_magnitude h with ⟨-, rfl, rfl⟩ | ⟨hpos, hlt, rfl, rfl⟩
  · exact ⟨by omega, by omega, le_rfl, by omega, fun _ => rfl⟩
  · exact ⟨by omega, by omega, by omega, by omega, by omega⟩

theorem eq_ofModel_of_toNat {y : Float.Model} (h : x.toBits.toNat = y.toBits.toNat) :
    x = .ofModel y := by
  obtain ⟨bits, hbits⟩ := x
  obtain ⟨bits', hbits'⟩ := y
  obtain rfl : bits = bits' := UInt64.toNat_inj.1 h
  rfl

/-- **A real is what packing its sign and magnitude gives.** -/
theorem eq_pack_of_magnitude (h : magnitude x = .finite m q) (hm : Canonical m q) :
    x = .ofModel (Float.Model.pack (.finite (signOf x) m q hm.pos)) := by
  refine eq_ofModel_of_toNat ?_
  show _ = (UnpackedFloat.pack Format.binary64 (.finite (signOf x) m q hm.pos)).toNat
  have hfraction := Nat.mod_lt x.toBits.toNat (Nat.two_pow_pos 52)
  have hlt := x.toBits.toNat_lt
  have hfield := exponentField_lt hm
  rw [pack_finite (signOf x) hm, toNat_packComponents, toNat_signOf, BitVec.toNat_ofNat,
    BitVec.toNat_ofNat, Nat.mod_eq_of_lt (show exponentField m q < 2 ^ 11 by omega)]
  unfold exponentField
  rcases bits_of_magnitude h with ⟨hzero, hmant, hexp⟩ | ⟨hpos, hfin, hmant, hexp⟩
  · rw [if_pos (by omega)]
    omega
  · rw [if_neg (by omega)]
    omega

/-- **There is one infinity of either sign.** -/
theorem eq_infinity (h : magnitude x = .infinite) :
    x = if isNegative x then -(1.0 / 0.0) else 1.0 / 0.0 := by
  have hlt := x.toBits.toNat_lt
  have hsign := isNegative_iff x
  unfold magnitude at h
  dsimp only at h
  rw [toNat_field, toNat_fraction] at h
  split at h
  · next hfield =>
    split at h
    · next hfraction =>
      split
      · next hneg =>
        have hbits : (-(1.0 / 0.0) : Float).toBits.toNat = 2 ^ 63 + 2047 * 2 ^ 52 := by decide
        refine eq_ofModel_of_toNat (y := (-(1.0 / 0.0) : Float).toModel) (Eq.trans ?_ hbits.symm)
        have := hsign.1 hneg
        omega
      · next hneg =>
        have hbits : (1.0 / 0.0 : Float).toBits.toNat = 2047 * 2 ^ 52 := by decide
        refine eq_ofModel_of_toNat (y := (1.0 / 0.0 : Float).toModel) (Eq.trans ?_ hbits.symm)
        have := mt hsign.2 hneg
        omega
    · cases h
  · split at h <;> cases h

/-- **There is one real that is no number.** Other bits of this kind are
not valid. -/
theorem eq_nan (h : magnitude x = .nan) : x = 0.0 / 0.0 := by
  have hexponent : (@unpackExponent Format.binary64 x.toBits.toBitVec).toNat
      = x.toBits.toNat / 2 ^ 52 % 2 ^ 11 := by
    show (BitVec.cast _ (BitVec.extractLsb (52 + 11 - 1) 52 x.toBits.toBitVec)).toNat = _
    rw [BitVec.toNat_cast, BitVec.extractLsb_toNat, Nat.shiftRight_eq_div_pow]
    rfl
  have hmantissa : (@unpackMantissa Format.binary64 x.toBits.toBitVec).toNat
      = x.toBits.toNat % 2 ^ 52 := by
    show (BitVec.cast _ (BitVec.extractLsb (52 - 1) 0 x.toBits.toBitVec)).toNat = _
    rw [BitVec.toNat_cast, BitVec.extractLsb_toNat, Nat.shiftRight_zero]
    rfl
  unfold magnitude at h
  dsimp only at h
  rw [toNat_field, toNat_fraction] at h
  split at h
  · next hfield =>
    split at h
    · cases h
    · next hfraction =>
      have hbits := x.toModel.valid.eq_packedNaN
        (BitVec.eq_of_toNat_eq (hexponent.trans hfield)) fun hzero =>
          hfraction (hmantissa.symm.trans (congrArg BitVec.toNat hzero))
      exact eq_ofModel_of_toNat (y := (0.0 / 0.0 : Float).toModel) (congrArg BitVec.toNat hbits)
  · split at h <;> cases h

end Parts

end EmberLang.Decimal
