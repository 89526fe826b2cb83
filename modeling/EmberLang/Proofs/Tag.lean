import EmberLang.Value.Tag
import Mathlib

/-!
# Equality of constants and of tags

Constants are compared by kind and contents, and tags by name or by
constant. Neither comparison is an equality: the two zeros are one
constant, and what is not a number differs from itself. What remains is a
partial equivalence – symmetric and transitive – and that is all that a
dispatch by tags needs. A tag that differs from itself is then equal to no
tag at all.

Only the comparison of reals has something to it. Two reals compare as
equal if they are the same number, or both are zeros.
-/

namespace EmberLang

namespace Decimal

open Float.Model (UnpackedFloat)

/-- **When two reals order as equal**: both are zeros, or they are the
same infinity or the same finite number. -/
theorem compare_eq_some_eq_iff (a b : UnpackedFloat) :
    a.compare b = some .eq ↔
      (∃ s t, a = .zero s ∧ b = .zero t) ∨ (a = b ∧ a ≠ .notANumber) := by
  rcases a with s | _ | s | ⟨s, m, e, hm⟩ <;> rcases b with t | _ | t | ⟨t, n, f, hn⟩ <;>
    (try cases s) <;> (try cases t) <;>
    simp [UnpackedFloat.compare, Ordering.then_eq_eq, and_comm]
  -- what is left compares two signs
  all_goals rfl

theorem beq_iff (x y : Float) :
    (x == y) = true ↔
      (∃ s t, x.toModel.unpack = .zero s ∧ y.toModel.unpack = .zero t)
        ∨ (x.toModel.unpack = y.toModel.unpack ∧ x.toModel.unpack ≠ .notANumber) := by
  rw [← compare_eq_some_eq_iff]
  show (x.toModel.unpack.compare y.toModel.unpack == some .eq) = true ↔ _
  exact beq_iff_eq

theorem beq_symm {x y : Float} (h : (x == y) = true) : (y == x) = true := by
  rw [beq_iff] at h ⊢
  rcases h with ⟨s, t, hx, hy⟩ | ⟨hxy, hx⟩
  · exact Or.inl ⟨t, s, hy, hx⟩
  · exact Or.inr ⟨hxy.symm, hxy ▸ hx⟩

theorem beq_trans {x y z : Float} (h : (x == y) = true) (h' : (y == z) = true) :
    (x == z) = true := by
  rw [beq_iff] at h h' ⊢
  rcases h with ⟨s, t, hx, hy⟩ | ⟨hxy, hx⟩
  · rcases h' with ⟨_, u, _, hz⟩ | ⟨hyz, _⟩
    · exact Or.inl ⟨s, u, hx, hz⟩
    · exact Or.inl ⟨s, t, hx, hyz ▸ hy⟩
  · rw [hxy] at hx ⊢
    exact h'

end Decimal

namespace Literal

theorem same_symm {k l : Literal} (h : k.same l = true) : l.same k = true := by
  cases k <;> cases l <;> simp only [same, beq_iff_eq, Bool.false_eq_true] at h ⊢
  case real.real => exact Decimal.beq_symm h
  all_goals exact h.symm

theorem same_trans {j k l : Literal} (h : j.same k = true) (h' : k.same l = true) :
    j.same l = true := by
  cases j <;> cases k <;> simp only [same, beq_iff_eq, Bool.false_eq_true] at h <;>
    cases l <;> simp only [same, beq_iff_eq, Bool.false_eq_true] at h' ⊢
  case real.real.real => exact Decimal.beq_trans h h'
  all_goals exact h.trans h'

end Literal

namespace Tag

theorem same_symm {a b : Tag} (h : a.same b = true) : b.same a = true := by
  cases a <;> cases b <;> simp only [same, Bool.false_eq_true] at h ⊢
  · rwa [Name.same_comm]
  · exact Literal.same_symm h

theorem same_trans {a b c : Tag} (h : a.same b = true) (h' : b.same c = true) :
    a.same c = true := by
  cases a <;> cases b <;> simp only [same, Bool.false_eq_true] at h <;>
    cases c <;> simp only [same, Bool.false_eq_true] at h' ⊢
  · exact Name.same_trans h h'
  · exact Literal.same_trans h h'

/-- **Two tags that are the same are the same as the same tags.** -/
theorem same_congr {a b : Tag} (h : a.same b = true) (c : Tag) : a.same c = b.same c := by
  rw [Bool.eq_iff_iff]
  exact ⟨same_trans (same_symm h), same_trans h⟩

/-- Names that are the same have the same tag. -/
theorem same_ofName {m n : Name} (h : m.same n = true) : (ofName m).same (ofName n) = true := by
  have hkey : m.key? = n.key? := eq_of_beq h
  unfold ofName
  rw [hkey]
  split
  · exact beq_self_eq_true _
  · exact h

end Tag

end EmberLang
