import EmberLang.Eval
import EmberLang.Proofs.Outcome

/-!
# What a computation upholds

Runs and sessions are computations with a state that may fail. Most of
what is proved about them has one form: if the state is as it should be
before, it is so afterwards, and a result or a failure is as it should be,
too. `Upholds` is that form, with the condition on states as an invariant
that holds before and after every step.

The rules below take a computation apart along its binds, so that the
state and the outcome of a step are looked at only where the step is
defined.
-/

namespace EmberLang

variable {S α β : Type} {J : S → Prop} {F : Failure → Prop} {P : α → Prop} {Q : β → Prop}

/-- **A computation upholds an invariant**: from a state with `J` it leads
to a state with `J`, with a result that has `Q` or a failure that has
`F`. -/
def Upholds (J : S → Prop) (F : Failure → Prop) (Q : α → Prop)
    (m : ExceptT Failure (StateM S) α) : Prop :=
  ∀ s, J s → J (m.run s).2 ∧ (∀ a, (m.run s).1 = .ok a → Q a)
    ∧ ∀ f, (m.run s).1 = .error f → F f

/-- What a step followed by another comes to. -/
theorem run_bind_eq (m : ExceptT Failure (StateM S) α) (f : α → ExceptT Failure (StateM S) β)
    (s : S) :
    (m >>= f).run s = match m.run s with
      | (.ok a, s') => (f a).run s'
      | (.error e, s') => (.error e, s') := by
  rw [ExceptT.run_bind]
  show (m.run.bind _) s = _
  rw [StateT.bind]
  show (let r := m.run s; _) = _
  generalize m.run s = r
  rcases r with ⟨_ | _, s'⟩ <;> rfl

namespace Upholds

theorem pure {a : α} (h : P a) : Upholds J F P (Pure.pure a) := by
  intro s hs
  refine ⟨hs, ?_, ?_⟩
  · rintro b ⟨⟩
    exact h
  · rintro f ⟨⟩

theorem throw {f : Failure} (h : F f) : Upholds J F P (MonadExcept.throw f) := by
  intro s hs
  refine ⟨hs, ?_, ?_⟩
  · rintro b ⟨⟩
  · rintro g ⟨⟩
    exact h

/-- **One step after another.** -/
theorem bind {m : ExceptT Failure (StateM S) α} {f : α → ExceptT Failure (StateM S) β}
    (hm : Upholds J F P m) (hf : ∀ a, P a → Upholds J F Q (f a)) : Upholds J F Q (m >>= f) := by
  intro s hs
  obtain ⟨hs', hok, herror⟩ := hm s hs
  rw [run_bind_eq]
  rcases hrun : m.run s with ⟨e | a, s'⟩ <;> rw [hrun] at hs' hok herror
  · refine ⟨hs', ?_, ?_⟩
    · rintro b ⟨⟩
    · rintro g ⟨⟩
      exact herror e rfl
  · exact hf a (hok a rfl) s' hs'

/-- A step whose result is dropped or of no interest. -/
theorem andThen {m : ExceptT Failure (StateM S) α} {f : α → ExceptT Failure (StateM S) β}
    (hm : Upholds J F (fun _ => True) m) (hf : ∀ a, Upholds J F Q (f a)) :
    Upholds J F Q (m >>= f) :=
  hm.bind fun a _ => hf a

theorem mono {P' : α → Prop} {m : ExceptT Failure (StateM S) α} (hm : Upholds J F P m)
    (h : ∀ a, P a → P' a) : Upholds J F P' m := fun s hs =>
  ⟨(hm s hs).1, fun a ha => h a ((hm s hs).2.1 a ha), (hm s hs).2.2⟩

theorem modify {g : S → S} (h : ∀ s, J s → J (g s)) :
    Upholds J F (fun _ => True)
      (modify g : ExceptT Failure (StateM S) PUnit) := fun s hs =>
  ⟨h s hs, fun _ _ => trivial, by rintro f ⟨⟩⟩

theorem forM {ι : Type} {l : List ι} {f : ι → ExceptT Failure (StateM S) PUnit}
    (h : ∀ i ∈ l, Upholds J F (fun _ => True) (f i)) :
    Upholds J F (fun _ => True) (l.forM f) := by
  induction l with
  | nil => exact pure trivial
  | cons i l ih =>
    exact (h i List.mem_cons_self).andThen fun _ => ih fun k hk => h k (List.mem_cons_of_mem _ hk)

end Upholds

/-! ## The steps of a run -/

namespace Run

variable {σ : Type} {K : Journal σ → Prop}

theorem upholds_lift {outcome : Except Failure α} (hok : ∀ a, outcome = .ok a → P a)
    (herror : ∀ f, outcome = .error f → F f) : Upholds K F P (lift outcome : Run σ α) := by
  intro j hj
  rw [run_lift]
  exact ⟨hj, hok, herror⟩

theorem upholds_host : Upholds K F (fun state => ∃ j, K j ∧ j.host = state) (host : Run σ σ) := by
  intro j hj
  rw [run_host]
  refine ⟨hj, ?_, ?_⟩
  · rintro state ⟨⟩
    exact ⟨j, hj, rfl⟩
  · rintro f ⟨⟩

/-- The outcome of an attempt is an outcome of what was attempted. -/
theorem upholds_attempt {m : Run σ α} (h : Upholds K F P m) :
    Upholds K F (fun outcome => (∀ a, outcome = .ok a → P a) ∧ ∀ f, outcome = .error f → F f)
      (attempt m) := by
  intro j hj
  obtain ⟨hj', hok, herror⟩ := h j hj
  rw [run_attempt]
  refine ⟨hj', ?_, ?_⟩
  · rintro outcome ⟨⟩
    exact ⟨hok, herror⟩
  · rintro f ⟨⟩

/-- Writing to the trace keeps whatever does not look at the trace. -/
theorem upholds_trace {detail : Nat} {m : Message}
    (hK : ∀ j t, K j → K { j with trace := t })
    (herror : ∀ f, m.text = .error f → F f) :
    Upholds K F (fun _ => True) (trace detail m : Run σ Unit) := by
  unfold trace
  split
  · refine (upholds_lift (fun _ _ => trivial) herror).andThen fun text => ?_
    exact Upholds.modify fun j hj => hK j _ hj
  · exact Upholds.pure trivial

end Run

namespace Native

variable {σ : Type} {natives : List (Native σ)} {externs : List (Name × Nat)} {name : Name}
  {args : List Value} {p : Option Position} {native : Native σ}

/-- **What a foreign call is resolved to** is declared and provided, and is
given as many arguments as declared, and as it wants. -/
theorem resolve_eq_ok (h : resolve natives externs name args p = .ok native) :
    find? natives name = some native
      ∧ (∃ declared, externs.find? (·.1.same name) = some (declared, args.length))
      ∧ ∀ arity, native.arity? = some arity → arity = args.length := by
  obtain ⟨_, _, h⟩ := bind_eq_ok h
  dsimp only at h
  split at h
  · cases h
  · next declared arity hdeclared =>
    split at h
    · cases h
    · next n hn =>
      split at h
      · cases h
      · next hclash =>
        split at h
        · next hlength =>
          obtain rfl := Except.ok.inj h
          refine ⟨hn, ⟨declared, hlength ▸ hdeclared⟩, fun wanted hwanted => ?_⟩
          simpa [hwanted, hlength] using hclash
        · cases h

/-- The function behind a foreign call is one that the host provides. -/
theorem mem_of_resolve (h : resolve natives externs name args p = .ok native) :
    native ∈ natives :=
  List.mem_of_find?_eq_some (resolve_eq_ok h).1

end Native

end EmberLang
