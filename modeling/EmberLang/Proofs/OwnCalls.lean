import EmberLang.Proofs.History
import EmberLang.Proofs.Independence
import EmberLang.Tree.Saved

/-!
# Whose foreign calls an interpreter shows

An interpreter keeps the foreign calls of its last run, so that they can be
looked at when the run has failed. They are forgotten when the next program
is taken up, which is one of the first steps of loading: whatever goes wrong
later, in the checks or in the run, the calls that are shown are the calls
of this run, and there are none if nothing was evaluated.

Before a program is taken up its foreign functions are collected. A tree
that is no program has none to collect, and a foreign function whose name
cannot be looked up cannot be collected. Such a tree is refused at once,
and the interpreter still shows the calls of the run before. Both trees can
come from a file, and `Session.run_shows_own_calls` says that nothing else
makes an interpreter show the calls of another run.

The calls that a run has made are those of its chronicle, where a function
of the host is written down as it begins.
-/

namespace EmberLang

variable {σ : Type}

/-- **A tree that is taken up** when it is run: a program whose foreign
functions have names that can be looked up. -/
def Node.IsTakenUp (root : Node) : Prop :=
  ∃ p ds body, root = program p ds body ∧ ∀ name ∈ externNames ds, name.key?.isSome = true

namespace Session

/-- The interpreter shows no foreign calls, and the observer was told of
none. -/
def ShowsNothing (I : Interpreter σ) : Prop :=
  I.journal.effects = #[] ∧ I.journal.observed = #[]

theorem showsNothing_traces {ι : Type} (l : List ι) (message : ι → Message) :
    Upholds ShowsNothing (fun _ => True) (fun _ => True)
      (keepEngine fun E => l.forM fun i => E.trace (message i) : Session σ Unit) :=
  upholds_keepEngine fun _ _ => Upholds.forM fun _ _ =>
    Run.upholds_trace (fun _ _ h => h) fun _ _ => trivial

/-- **After loading a program that was taken up no foreign calls are shown**,
whether it could be loaded or not. -/
theorem showsNothing_load (p : Option Position) {ds : List Node} (body : Node)
    {externs : List (Name × Nat)} (hexterns : Node.externsOf ds = .ok externs)
    {I : Interpreter σ} (hobserved : I.journal.observed = #[]) :
    ShowsNothing (ExceptT.run (load (.program p ds body)) I).2 := by
  unfold load
  dsimp only
  rw [run_lift_bind hexterns, run_modify_bind]
  have hlift {α : Type} (o : Except Failure α) :
      Upholds ShowsNothing (fun _ => True) (fun _ => True) (lift o : Session σ α) :=
    upholds_lift (fun _ _ => trivial) fun _ _ => trivial
  refine And.left ((?_ : Upholds ShowsNothing (fun _ => True) (fun _ => True) _) _ ⟨rfl, hobserved⟩)
  refine (hlift _).andThen fun table => Upholds.andThen (Upholds.modify ?_) fun _ => ?_
  · exact fun _ h => h
  refine (upholds_get.mono fun _ _ => trivial).andThen fun _ => (hlift _).andThen fun _ => ?_
  refine (hlift _).andThen fun cases => Upholds.andThen (Upholds.modify ?_) fun _ => ?_
  · exact fun _ h => h
  refine (showsNothing_traces _ _).andThen fun _ => (hlift _).andThen fun _ => ?_
  exact (upholds_get.mono fun _ _ => trivial).andThen fun K => showsNothing_traces (summary K) id

/-- A run that fails while it is loaded ends there. -/
theorem run_of_load_error {root : Node} {I I' : Interpreter σ} {f : Failure}
    (h : ExceptT.run (load root) I = (.error f, I')) :
    ExceptT.run (run root) I = (.error f, I') := by
  unfold run
  rw [run_bind_eq, h]

/-- **A tree that is not taken up changes nothing.** -/
theorem load_of_not_isTakenUp {root : Node} (h : ¬ root.IsTakenUp) (I : Interpreter σ) :
    ∃ fault, ExceptT.run (load root) I = (.error (.shape fault), I)
      ∧ ∀ c : Chronicle σ, (ExceptT.run (Recorded.run root) c) = (.error (.shape fault), c) := by
  cases root with
  | program p ds body =>
    cases hexterns : Node.externsOf ds with
    | ok externs =>
      exact absurd ⟨p, ds, body, rfl, Node.exists_externsOf_iff.1 ⟨externs, hexterns⟩⟩ h
    | error f =>
      obtain rfl := Node.fails_externsOf ds f hexterns
      unfold load Recorded.run Recorded.load
      dsimp only
      rw [hexterns]
      exact ⟨_, rfl, fun _ => rfl⟩
  | _ => exact ⟨_, rfl, fun _ => rfl⟩

/-- **A tree that is taken up has its own calls shown**, and none if it
cannot be loaded. -/
theorem shows_own_of_isTakenUp (K : Interpreter σ) {root : Node} (h : root.IsTakenUp) :
    K.perform (run root) = ((K.chronicle root).1, (K.chronicle root).2.now.interpreter)
      ∧ (K.perform (run root)).2.journal.effects.toList
        = (K.chronicle root).2.now.begun.map Invocation.effect
      ∧ (K.perform (run root)).2.journal.observed = (K.perform (run root)).2.journal.effects
      ∧ ∀ f, (K.perform (load root)).1 = .error f → (K.perform (run root)).1 = .error f
        ∧ (K.perform (run root)).2.journal.effects = #[] := by
  obtain ⟨p, ds, body, rfl, hnames⟩ := h
  obtain ⟨externs, hexterns⟩ := Node.exists_externsOf_iff.2 hnames
  let page : Interpreter σ := { K with journal := { K.journal with observed := #[], trace := #[] } }
  obtain ⟨hsame, hfaithful⟩ := Recorded.agrees_run p body hexterns page rfl
  have hran : K.perform (run (.program p ds body)) = ((K.chronicle (.program p ds body)).1,
    (K.chronicle (.program p ds body)).2.now.interpreter) := hsame
  refine ⟨hran, ?_, ?_, fun f hf => ?_⟩
  · rw [hran]
    exact hfaithful.now.effects
  · rw [hran]
    exact hfaithful.now.observed
  · have hload : K.perform (run (.program p ds body)) = (.error f, _) :=
      run_of_load_error (Prod.ext hf rfl)
    rw [hload]
    exact ⟨rfl, (showsNothing_load p body hexterns (I := page) rfl).1⟩

/-- A tree that is not taken up is refused, and nothing is kept of it. -/
theorem refused_of_not_isTakenUp (K : Interpreter σ) {root : Node} (h : ¬ root.IsTakenUp) :
    ∃ fault, (K.perform (load root)).1 = .error (.shape fault)
      ∧ K.perform (run root) = (.error (.shape fault),
        { K with journal := { K.journal with observed := #[], trace := #[] } })
      ∧ K.chronicle root = (.error (.shape fault),
        .blank { K with journal := { K.journal with observed := #[], trace := #[] } }) := by
  obtain ⟨fault, hload, hchronicle⟩ := load_of_not_isTakenUp h
    { K with journal := { K.journal with observed := #[], trace := #[] } }
  exact ⟨fault, congrArg Prod.fst hload, run_of_load_error hload, hchronicle _⟩

/-- **An interpreter shows the foreign calls of its last run**, unless the
tree was not taken up. After any history of runs, let a tree be run, whatever
comes of it. The run with a chronicle is the run, and the observer is told of
exactly the functions of the host that have begun. If loading fails, then the
run fails in the same way, and none has begun. The calls that the interpreter
shows are those of this run if and only if the tree is taken up or the
interpreter has shown none before. A tree that is not taken up is refused for
its shape, and leaves the calls of the run before. -/
theorem run_shows_own_calls (I : Interpreter σ) (history : List Node) (root : Node) :
    let K := I.afterRuns history
    let ran := K.perform (run root)
    let own := (K.chronicle root).2.now.begun.map Invocation.effect
    ran = ((K.chronicle root).1, (K.chronicle root).2.now.interpreter)
      ∧ ran.2.journal.observed.toList = own
      ∧ (∀ f, (K.perform (load root)).1 = .error f → ran.1 = .error f ∧ own = [])
      ∧ (ran.2.journal.effects.toList = own ↔ root.IsTakenUp ∨ K.journal.effects = #[])
      ∧ (¬ root.IsTakenUp → (∃ fault, ran.1 = .error (.shape fault)) ∧ own = []
        ∧ ran.2.journal.effects = K.journal.effects) := by
  intro K ran own
  by_cases htaken : root.IsTakenUp
  · obtain ⟨hran, heffects, hobserved, hload⟩ := shows_own_of_isTakenUp K htaken
    refine ⟨hran, hobserved ▸ heffects, fun f hf => ?_, iff_of_true heffects (.inl htaken),
      fun hnot => absurd htaken hnot⟩
    obtain ⟨hfails, hnone⟩ := hload f hf
    exact ⟨hfails, heffects.symm.trans (Array.toList_eq_nil_iff.2 hnone)⟩
  · obtain ⟨fault, hload, hran, hchronicle⟩ := refused_of_not_isTakenUp K htaken
    have hran : ran = _ := hran
    have hown : own = [] := by
      show List.map _ (K.chronicle root).2.now.begun = []
      rw [hchronicle]
      rfl
    rw [hran, hchronicle, hown, or_iff_right htaken]
    refine ⟨rfl, rfl, fun f hf => ⟨?_, rfl⟩, Array.toList_eq_nil_iff,
      fun _ => ⟨⟨fault, rfl⟩, rfl, rfl⟩⟩
    exact congrArg Except.error (Except.error.inj (hload.symm.trans hf))

open Node (program externDecl typeSpec literal seq directiveCall)

/-- A program that makes one foreign call. -/
def tickingProgram : Node :=
  program none [externDecl none "tick" [] [typeSpec .integer] (typeSpec .unit)]
    (seq none (directiveCall none "tick" [literal none (.int 1)]) (literal none (.int 0)))

/-- **A literal in the place of a program** is read from a file without
complaint. When it is run after a program that has made a foreign call,
nothing is evaluated, and the interpreter shows that call. -/
theorem run_literal_after_tickingProgram :
    let I : Interpreter Desk :=
      { natives := [Stock.unit.native "tick" none],
        journal := { host := { console := { input := [] } } } }
    let ran := (I.afterRuns [tickingProgram]).perform (run (literal none (.int 0)))
    Node.ofJson (.obj [("type", .str "Literal"), ("value", .int 0), ("kind", .str "Int")])
        = .ok (literal none (.int 0))
      ∧ ran.1 = .error (.shape .missingPart)
      ∧ ((I.afterRuns [tickingProgram]).chronicle (literal none (.int 0))).2.now.begun = []
      ∧ ran.2.journal.observed = #[]
      ∧ ran.2.journal.effects.map (fun e => (e.name, e.directive)) = #[("tick", true)] := by
  intro I ran
  refine ⟨rfl, rfl, rfl, rfl, ?_⟩
  decide +kernel

end Session

end EmberLang
