import EmberLang.Intrinsic.Standard
import EmberLang.Proofs.Discipline

/-!
# The standard intrinsics

The standard intrinsics give back numbers and truth values, which every
discipline keeps (`IntrinsicTable.keeps_standard`). Applied to as many
operands as they take, and of their kind, they have a result or divide by
zero, and never fail on their own (`IntrinsicTable.total_standard`).
-/

namespace EmberLang

namespace Intrinsic

variable {D : Discipline}

theorem keeps_onInts {name : String} {f : Int → Int → Computed}
    (h : ∀ a b r, f a b = .result r → r.Kept D) : (onInts name f).Keeps D := by
  intro operands r hr
  unfold onInts at hr
  dsimp only at hr
  split at hr
  · exact h _ _ r hr
  · cases hr

theorem keeps_onReals {name : String} {f : Float → Float → Computed}
    (h : ∀ a b r, f a b = .result r → r.Kept D) : (onReals name f).Keeps D := by
  intro operands r hr
  unfold onReals at hr
  dsimp only at hr
  split at hr
  · exact h _ _ r hr
  · cases hr

theorem keeps_onBools (name : String) (f : Bool → Bool → Bool) : (onBools name f).Keeps D := by
  intro operands r hr
  unfold onBools at hr
  dsimp only at hr
  split at hr <;> cases hr
  trivial

theorem keeps_intOp (name : String) (f : Int → Int → Int) : (intOp name f).Keeps D :=
  keeps_onInts (by rintro a b r ⟨⟩; trivial)

theorem keeps_intTest (name : String) (f : Int → Int → Bool) : (intTest name f).Keeps D :=
  keeps_onInts (by rintro a b r ⟨⟩; trivial)

theorem keeps_intDivision (name : String) (f : Int → Int → Int) :
    (intDivision name f).Keeps D := by
  refine keeps_onInts fun a b r hr => ?_
  split at hr <;> cases hr
  trivial

theorem keeps_realOp (name : String) (f : Float → Float → Float) : (realOp name f).Keeps D :=
  keeps_onReals (by rintro a b r ⟨⟩; trivial)

theorem keeps_realTest (name : String) (f : Float → Float → Bool) : (realTest name f).Keeps D :=
  keeps_onReals (by rintro a b r ⟨⟩; trivial)

theorem keeps_realDivision : realDivision.Keeps D := by
  refine keeps_onReals fun a b r hr => ?_
  split at hr <;> cases hr
  trivial

theorem keeps_intNegation : intNegation.Keeps D := by
  intro operands r hr
  unfold intNegation at hr
  dsimp only at hr
  split at hr <;> cases hr
  trivial

theorem keeps_boolNegation : boolNegation.Keeps D := by
  intro operands r hr
  unfold boolNegation at hr
  dsimp only at hr
  split at hr <;> cases hr
  trivial

end Intrinsic

theorem IntrinsicTable.keeps_standard {D : Discipline} : ∀ i ∈ standard.entries, i.Keeps D := by
  simp only [standard, List.forall_mem_cons, Intrinsic.keeps_intOp, Intrinsic.keeps_intTest,
    Intrinsic.keeps_intDivision, Intrinsic.keeps_intNegation, Intrinsic.keeps_realOp,
    Intrinsic.keeps_realTest, Intrinsic.keeps_realDivision, Intrinsic.keeps_onBools,
    Intrinsic.keeps_boolNegation, List.not_mem_nil, false_imp_iff, implies_true, and_self]

/-! ## Failures -/

namespace Intrinsic

/-- Two operands of one kind, taken apart. -/
theorem total_of_pair {i : Intrinsic} (harity : i.arity = 2)
    (h : ∀ k l : Literal, k.kind = i.operand → l.kind = i.operand →
      ∀ fault, i.compute [k, l] ≠ .failed fault) : i.IsTotal := by
  intro operands hlength hkinds
  obtain ⟨k, l, rfl⟩ := List.length_eq_two.1 (hlength.trans harity)
  exact h k l (hkinds k (by simp)) (hkinds l (by simp))

/-- One operand, taken out. -/
theorem total_of_single {i : Intrinsic} (harity : i.arity = 1)
    (h : ∀ k : Literal, k.kind = i.operand → ∀ fault, i.compute [k] ≠ .failed fault) :
    i.IsTotal := by
  intro operands hlength hkinds
  obtain ⟨k, rfl⟩ := List.length_eq_one_iff.1 (hlength.trans harity)
  exact h k (hkinds k (by simp))

theorem total_onInts {name : String} {f : Int → Int → Computed}
    (h : ∀ a b fault, f a b ≠ .failed fault) : (onInts name f).IsTotal := by
  refine total_of_pair rfl fun k l hk hl => ?_
  cases k <;> cases hk
  cases l <;> cases hl
  exact h _ _

theorem total_onReals {name : String} {f : Float → Float → Computed}
    (h : ∀ a b fault, f a b ≠ .failed fault) : (onReals name f).IsTotal := by
  refine total_of_pair rfl fun k l hk hl => ?_
  cases k <;> cases hk
  cases l <;> cases hl
  exact h _ _

theorem total_onBools (name : String) (f : Bool → Bool → Bool) : (onBools name f).IsTotal := by
  refine total_of_pair rfl fun k l hk hl fault => ?_
  cases k <;> cases hk
  cases l <;> cases hl
  rintro ⟨⟩

theorem total_intDivision (name : String) (f : Int → Int → Int) :
    (intDivision name f).IsTotal := by
  refine total_onInts fun a b fault => ?_
  split <;> rintro ⟨⟩

theorem total_realDivision : realDivision.IsTotal := by
  refine total_onReals fun a b fault => ?_
  split <;> rintro ⟨⟩

theorem total_intNegation : intNegation.IsTotal := by
  refine total_of_single rfl fun k hk fault => ?_
  cases k <;> cases hk
  rintro ⟨⟩

theorem total_boolNegation : boolNegation.IsTotal := by
  refine total_of_single rfl fun k hk fault => ?_
  cases k <;> cases hk
  rintro ⟨⟩

theorem total_intOp (name : String) (f : Int → Int → Int) : (intOp name f).IsTotal :=
  total_onInts (by rintro a b fault ⟨⟩)

theorem total_intTest (name : String) (f : Int → Int → Bool) : (intTest name f).IsTotal :=
  total_onInts (by rintro a b fault ⟨⟩)

theorem total_realOp (name : String) (f : Float → Float → Float) : (realOp name f).IsTotal :=
  total_onReals (by rintro a b fault ⟨⟩)

theorem total_realTest (name : String) (f : Float → Float → Bool) : (realTest name f).IsTotal :=
  total_onReals (by rintro a b fault ⟨⟩)

end Intrinsic

/-- **The standard intrinsics never fail on their own.** -/
theorem IntrinsicTable.total_standard : ∀ i ∈ standard.entries, i.IsTotal := by
  simp only [standard, List.forall_mem_cons, Intrinsic.total_intOp, Intrinsic.total_intTest,
    Intrinsic.total_intDivision, Intrinsic.total_intNegation, Intrinsic.total_realOp,
    Intrinsic.total_realTest, Intrinsic.total_realDivision, Intrinsic.total_onBools,
    Intrinsic.total_boolNegation, List.not_mem_nil, false_imp_iff, implies_true, and_self]

end EmberLang
