import EmberLang.Error

/-!
# Outcomes

A step of checking, reading or wording has a result or fails. The
questions asked of a sequence of such steps are answered here once: what
came of each step if the whole has a result, and which results and which
failures the whole can have if those of each step are known.
-/

namespace EmberLang

/-- **If two steps have a result, so has the first**, and the second goes
on with it. -/
theorem bind_eq_ok {α β : Type} {m : Except Failure α} {g : α → Except Failure β} {b : β}
    (h : m >>= g = .ok b) : ∃ a, m = .ok a ∧ g a = .ok b := by
  cases m with
  | ok a => exact ⟨a, rfl, h⟩
  | error f => cases h

@[simp]
theorem ok_bind {α β : Type} (a : α) (g : α → Except Failure β) : (Except.ok a >>= g) = g a := rfl

@[simp]
theorem map_ok {α β : Type} (g : α → β) (a : α) :
    g <$> (Except.ok a : Except Failure α) = .ok (g a) := rfl

@[simp]
theorem pure_eq_ok {α : Type} (a : α) : (pure a : Except Failure α) = .ok a := rfl

/-- Whether a step has failed in a certain way can be decided, whatever its
results are. -/
instance decidableEqError {α : Type} (f : Failure) :
    (m : Except Failure α) → Decidable (m = .error f)
  | .ok _ => isFalse nofun
  | .error g => decidable_of_iff (g = f) ⟨congrArg Except.error, Except.error.inj⟩

/-- **The failures of a step** are all of one sort. -/
def FailsOnly {α : Type} (P : Failure → Prop) (m : Except Failure α) : Prop :=
  ∀ f, m = .error f → P f

namespace FailsOnly

variable {α β : Type} {P P' : Failure → Prop}

theorem ok (a : α) : FailsOnly P (.ok a : Except Failure α) := by rintro f ⟨⟩

theorem error {f : Failure} (h : P f) : FailsOnly P (.error f : Except Failure α) := by
  rintro g ⟨⟩
  exact h

theorem bind {m : Except Failure α} {g : α → Except Failure β} (hm : FailsOnly P m)
    (hg : ∀ a, m = .ok a → FailsOnly P (g a)) : FailsOnly P (m >>= g) := by
  cases m with
  | ok a => exact hg a rfl
  | error e => exact error (hm e rfl)

theorem mono {m : Except Failure α} (hm : FailsOnly P m) (h : ∀ f, P f → P' f) :
    FailsOnly P' m := fun f hf => h f (hm f hf)

theorem foldlM {l : List α} {g : β → α → Except Failure β} (hg : ∀ b a, FailsOnly P (g b a))
    (b : β) : FailsOnly P (l.foldlM g b) := by
  induction l generalizing b with
  | nil => exact ok b
  | cons a l ih => exact (hg b a).bind fun b' _ => ih b'

theorem forM {l : List α} {g : α → Except Failure PUnit} (hg : ∀ a ∈ l, FailsOnly P (g a)) :
    FailsOnly P (l.forM g) := by
  induction l with
  | nil => exact ok _
  | cons a l ih =>
    exact (hg a List.mem_cons_self).bind fun _ _ => ih fun b hb => hg b (List.mem_cons_of_mem _ hb)

end FailsOnly

/-- **The results of a step** are all of one sort. -/
def GivesOnly {α : Type} (P : α → Prop) (m : Except Failure α) : Prop :=
  ∀ a, m = .ok a → P a

namespace GivesOnly

variable {α β : Type} {P : α → Prop} {Q : β → Prop}

theorem ok {a : α} (h : P a) : GivesOnly P (.ok a : Except Failure α) := by
  rintro b ⟨⟩
  exact h

theorem error (f : Failure) : GivesOnly P (.error f : Except Failure α) := by rintro a ⟨⟩

theorem any (m : Except Failure α) : GivesOnly (fun _ => True) m := fun _ _ => trivial

theorem bind {m : Except Failure α} {g : α → Except Failure β} (hm : GivesOnly P m)
    (hg : ∀ a, P a → GivesOnly Q (g a)) : GivesOnly Q (m >>= g) := by
  cases m with
  | ok a => exact hg a (hm a rfl)
  | error f => exact error f

end GivesOnly

end EmberLang
