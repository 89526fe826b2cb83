import EmberLang.Proofs.PositionFree
import EmberLang.Proofs.Simulation

/-!
# Two runs that agree

Two computations *match* if from states that are related they lead to
states that are related, and either both come to related results or both
fail, at different positions at most (`Matches`). They then keep in step,
with failures that correspond if they are equal without their positions
(`matches_iff_inStep`), and the rules for computations in step are theirs.

For runs the relation between states is on journals (`Journal.Alike`): the
same foreign calls and the same trace up to positions, and host states
that are related in a way that is left open. A host may keep values, and
then its states cannot be expected to be equal; a host that keeps no
values relates every state to itself only.
-/

namespace EmberLang

variable {S α β γ δ : Type}

/-- **Two outcomes agree**: both are results, and related, or both are
failures that differ in position at most. -/
def Agree (Q : α → β → Prop) : Except Failure α → Except Failure β → Prop
  | .ok a, .ok b => Q a b
  | .error f, .error g => g.erase = f.erase
  | _, _ => False

namespace Agree

variable {Q : α → β → Prop}

/-- Outcomes that are equal without positions agree. -/
theorem of_eraseOutcome {g : α → γ} {o o' : Except Failure α}
    (h : eraseOutcome g o' = eraseOutcome g o) : Agree (fun a b => g b = g a) o o' := by
  cases o with
  | ok a =>
    cases o' with
    | ok b => exact Except.ok.inj h
    | error f => cases h
  | error f =>
    cases o' with
    | ok b => cases h
    | error f' => exact Except.error.inj h

theorem iff_concur {o : Except Failure α} {o' : Except Failure β} :
    Agree Q o o' ↔ Concur (fun f f' => f'.erase = f.erase) Q o o' := by
  cases o <;> cases o' <;> exact Iff.rfl

theorem mono {P : α → β → Prop} {o : Except Failure α} {o' : Except Failure β}
    (h : Agree Q o o') (hQP : ∀ a b, Q a b → P a b) : Agree P o o' :=
  iff_concur.2 ((iff_concur.1 h).mono hQP)

/-- **The two ways to agree.** -/
theorem fails_or_gives {o : Except Failure α} {o' : Except Failure β} (h : Agree Q o o') :
    (∃ f f', o = .error f ∧ o' = .error f' ∧ f'.erase = f.erase)
      ∨ ∃ a b, o = .ok a ∧ o' = .ok b ∧ Q a b := by
  cases o with
  | ok a =>
    cases o' with
    | ok b => exact .inr ⟨a, b, rfl, rfl, h⟩
    | error f => exact h.elim
  | error f =>
    cases o' with
    | ok b => exact h.elim
    | error f' => exact .inl ⟨f, f', rfl, rfl, h⟩

/-- The same outcome twice. -/
theorem refl (o : Except Failure α) : Agree (fun a b => b = a) o o :=
  of_eraseOutcome (g := id) rfl

end Agree

/-- Arms that are alike compile to cases that are. -/
theorem Case.agree_compile {t : ConstructorTable} {arms arms' : List Node}
    (h : Node.eraseAll arms' = Node.eraseAll arms) :
    Agree (fun c c' => c'.erase = c.erase) (compile t arms) (compile t arms') := by
  refine .of_eraseOutcome ?_
  rw [← compile_erase, h, compile_erase]

/-- Cases that are alike choose alike among values that are. -/
theorem Case.select?_alike {c c' : Case} (hc : c'.erase = c.erase) {v v' : Value}
    (hv : v.Alike v') :
    (c.select? v = none ∧ c'.select? v' = none)
      ∨ ∃ i b b', c.select? v = some (i, b) ∧ c'.select? v' = some (i, b')
        ∧ eraseBindings b' = eraseBindings b := by
  have hselect := c'.select?_erase v'
  rw [hc, hv, c.select?_erase] at hselect
  cases hr : c.select? v with
  | none =>
    cases hr' : c'.select? v' with
    | none => exact .inl ⟨rfl, rfl⟩
    | some r' =>
      rw [hr, hr'] at hselect
      cases hselect
  | some r =>
    cases hr' : c'.select? v' with
    | none =>
      rw [hr, hr'] at hselect
      cases hselect
    | some r' =>
      rw [hr, hr'] at hselect
      obtain ⟨hindex, hbindings⟩ := Prod.mk.inj (Option.some.inj hselect)
      exact .inr ⟨r.1, r.2, r'.2, rfl, by rw [hindex], hbindings.symm⟩

/-- **Two computations match**: from related states they lead to related
states, and their outcomes agree. -/
def Matches (J : S → S → Prop) (Q : α → β → Prop) (m : ExceptT Failure (StateM S) α)
    (m' : ExceptT Failure (StateM S) β) : Prop :=
  ∀ s s', J s s' → J (m.run s).2 (m'.run s').2 ∧ Agree Q (m.run s).1 (m'.run s').1

/-- Computations that match are computations in step. -/
theorem matches_iff_inStep {J : S → S → Prop} {Q : α → β → Prop}
    {m : ExceptT Failure (StateM S) α} {m' : ExceptT Failure (StateM S) β} :
    Matches J Q m m' ↔ InStep (fun f f' => f'.erase = f.erase) J Q m m' :=
  forall₂_congr fun _ _ => imp_congr_right fun _ => and_congr_right fun _ => Agree.iff_concur

namespace Matches

variable {J : S → S → Prop} {P : α → β → Prop} {Q : γ → δ → Prop}

theorem pure {a : α} {b : β} (h : P a b) : Matches J P (Pure.pure a) (Pure.pure b) :=
  matches_iff_inStep.2 (.pure h)

theorem throw {f g : Failure} (h : g.erase = f.erase) :
    Matches J P (MonadExcept.throw f) (MonadExcept.throw g) :=
  matches_iff_inStep.2 (.throw h)

/-- **One step after another**, side by side. -/
theorem bind {m : ExceptT Failure (StateM S) α} {m' : ExceptT Failure (StateM S) β}
    {f : α → ExceptT Failure (StateM S) γ} {f' : β → ExceptT Failure (StateM S) δ}
    (hm : Matches J P m m') (hf : ∀ a b, P a b → Matches J Q (f a) (f' b)) :
    Matches J Q (m >>= f) (m' >>= f') :=
  matches_iff_inStep.2 ((matches_iff_inStep.1 hm).bind fun a b h => matches_iff_inStep.1 (hf a b h))

theorem modify {g g' : S → S} (h : ∀ s s', J s s' → J (g s) (g' s')) :
    Matches J (fun _ _ => True) (modify g : ExceptT Failure (StateM S) PUnit)
      (modify g' : ExceptT Failure (StateM S) PUnit) :=
  matches_iff_inStep.2 (.modify h)

theorem get :
    Matches J J (get : ExceptT Failure (StateM S) S) (get : ExceptT Failure (StateM S) S) :=
  matches_iff_inStep.2 .get

/-- The same steps for the items of two lists. -/
theorem forM {ι : Type} {R : ι → ι → Prop} {l l' : List ι}
    {f f' : ι → ExceptT Failure (StateM S) PUnit} (hl : List.Forall₂ R l l')
    (h : ∀ i i', R i i' → Matches J (fun _ _ => True) (f i) (f' i')) :
    Matches J (fun _ _ => True) (l.forM f) (l'.forM f') :=
  matches_iff_inStep.2 (InStep.forM hl fun i i' hi => matches_iff_inStep.1 (h i i' hi))

end Matches

/-! ## Journals -/

/-- A foreign call without positions. -/
def Effect.erase (e : Effect) : Effect := ⟨e.name, Value.eraseAll e.args, e.directive⟩

/-- **Two journals are alike**: the same calls and the same trace, up to
positions, and related states of the host. -/
structure Journal.Alike {σ : Type} (R : σ → σ → Prop) (j j' : Journal σ) : Prop where
  /-- The states of the host are related. -/
  host : R j.host j'.host
  /-- The foreign calls are alike. -/
  effects : j'.effects.map Effect.erase = j.effects.map Effect.erase
  /-- So are those that the observer was told of. -/
  observed : j'.observed.map Effect.erase = j.observed.map Effect.erase
  /-- The traces are the same. -/
  trace : j'.trace = j.trace

namespace Run

variable {σ : Type} {R : σ → σ → Prop} {Q : α → β → Prop}

theorem matches_lift {o : Except Failure α} {o' : Except Failure β} (h : Agree Q o o') :
    Matches (Journal.Alike R) Q (lift o) (lift o') := by
  intro j j' hj
  rw [run_lift, run_lift]
  exact ⟨hj, h⟩

/-- Two messages with the same text. -/
theorem matches_trace {detail : Nat} {m m' : Message} (hlevel : m'.level = m.level)
    (htext : m'.text = m.text) :
    Matches (Journal.Alike R) (fun _ _ => True) (trace detail m : Run σ Unit)
      (trace detail m') := by
  unfold trace
  rw [hlevel, htext]
  split
  · refine (matches_lift (.refl m.text)).bind fun text text' h => ?_
    obtain rfl := h
    exact .modify fun j j' hj => ⟨hj.host, hj.effects, hj.observed, by rw [hj.trace]⟩
  · exact .pure trivial

end Run

end EmberLang
