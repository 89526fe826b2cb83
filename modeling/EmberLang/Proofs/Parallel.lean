import EmberLang.Proofs.Loading
import EmberLang.Proofs.Simulation

/-!
# One program on two interpreters

Two interpreters may differ in what loading does not look at: how deeply
calls may be nested, how detailed the trace is. `Session.Parallel` is what
a relation between interpreters has to stand for this – the steps of
loading lead from related interpreters to related ones. Then one program is
loaded by both, in step, or by neither (`Session.inStep_load`), and what
remains of two runs is evaluation (`Session.run_parallel`).
-/

namespace EmberLang

variable {σ α : Type} {J : Interpreter σ → Interpreter σ → Prop}

namespace Session

theorem inStep_lift (outcome : Except Failure α) :
    InStep Eq J Eq (lift outcome : Session σ α) (lift outcome) := by
  intro I I' hI
  rw [run_lift, run_lift]
  exact ⟨hI, .refl (fun _ => rfl) (fun _ => rfl) outcome⟩

/-- **Interpreters that load in parallel**: a relation that the steps of
loading keep. Of the messages of the trace, those with `T` can be
written. -/
structure Parallel (T : Message → Prop) (J : Interpreter σ → Interpreter σ → Prop) : Prop where
  /-- The intrinsics are the same. -/
  intrinsics : ∀ {I I'}, J I I' → I'.intrinsics = I.intrinsics
  /-- So is what is said of a loaded program. -/
  summary : ∀ {I I'}, J I I' → summary I' = summary I
  /-- The foreign functions are declared, and the log is empty. -/
  externs : ∀ {I I'} externs, J I I' →
    J { I with externs := externs, journal := { I.journal with effects := #[] } }
      { I' with externs := externs, journal := { I'.journal with effects := #[] } }
  /-- The constructors are declared. -/
  table : ∀ {I I'} table, J I I' → J { I with table := table } { I' with table := table }
  /-- The cases are compiled and the functions declared. -/
  compiled : ∀ {I I'} table cases globals, J I I' →
    J { I with caseTable := table, cases := cases, globals := globals }
      { I' with caseTable := table, cases := cases, globals := globals }
  /-- Messages are written. -/
  traces : ∀ {ι : Type} (l : List ι) (message : ι → Message), (∀ i ∈ l, T (message i)) →
    InStep Eq J (fun _ _ => True) (keepEngine fun E => l.forM fun i => E.trace (message i))
      (keepEngine fun E => l.forM fun i => E.trace (message i))
  /-- The messages about a loaded program can be written. -/
  texts : ∀ m : Message, (∃ text, m.text = .ok text) → T m

/-- **Interpreters load a program in parallel**, if the messages about its
functions can be written. -/
theorem inStep_load {T : Message → Prop} (P : Parallel T J) (root : Node)
    (hfunctions : ∀ p ds body, root = .program p ds body →
      ∀ f ∈ (Node.declaredFunctions ds).1, T (.function f)) :
    InStep Eq J (fun _ _ => True) (load root : Session σ Unit) (load root) := by
  cases root with
  | program p ds body =>
    unfold load
    dsimp only
    refine (inStep_lift _).bind fun externs _ he => ?_
    subst he
    refine (InStep.modify fun I I' hI => P.externs externs hI).bind fun _ _ _ => ?_
    refine (inStep_lift _).bind fun table _ ht => ?_
    subst ht
    refine (InStep.modify fun I I' hI => P.table table hI).bind fun _ _ _ => ?_
    refine InStep.get.bind fun I I' hI => ?_
    rw [P.intrinsics hI]
    refine (inStep_lift _).bind fun _ _ _ => (inStep_lift _).bind fun cases _ hc => ?_
    subst hc
    refine (InStep.modify fun I I' hI => P.compiled table cases _ hI).bind fun _ _ _ => ?_
    refine (P.traces _ _ (hfunctions p ds body rfl)).bind fun _ _ _ => ?_
    refine (inStep_lift _).bind fun _ _ _ => InStep.get.bind fun I I' hI => ?_
    rw [P.summary hI]
    exact P.traces _ id fun m hm => P.texts m (text_of_mem_summary m hm)
  | _ => exact InStep.throw rfl

/-- **Two runs of one program**: loading fails for both, or evaluation goes
on from interpreters that have loaded it. -/
theorem run_parallel {root : Node} {I I' : Interpreter σ}
    (hload : InStep Eq J (fun _ _ => True) (load root : Session σ Unit) (load root)) (hI : J I I') :
    (∃ f I₁ I₁', ExceptT.run (run root) I = (.error f, I₁)
        ∧ ExceptT.run (run root) I' = (.error f, I₁') ∧ J I₁ I₁')
      ∨ ∃ I₁ I₁', ExceptT.run (load root) I = (.ok (), I₁)
        ∧ ExceptT.run (load root) I' = (.ok (), I₁') ∧ J I₁ I₁' := by
  obtain ⟨hstate, hconcur⟩ := hload I I' hI
  rcases hrun : ExceptT.run (load root) I with ⟨f | ⟨⟩, I₁⟩
  all_goals
    rcases hrun' : ExceptT.run (load root) I' with ⟨g | ⟨⟩, I₁'⟩
    all_goals rw [hrun, hrun'] at hstate hconcur
  · obtain rfl : f = g := hconcur
    refine .inl ⟨f, I₁, I₁', ?_, ?_, hstate⟩
    · rw [run, run_bind_eq, hrun]
    · rw [run, run_bind_eq, hrun']
  · exact hconcur.elim
  · exact hconcur.elim
  · exact .inr ⟨I₁, I₁', rfl, rfl, hstate⟩

end Session

end EmberLang
