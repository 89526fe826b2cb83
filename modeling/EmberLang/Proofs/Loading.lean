import EmberLang.Interpreter
import EmberLang.Proofs.KeptRuns

/-!
# What loading a program leaves behind

Loading goes through a fixed order of checks and sets the parts of the
interpreter on its way. A program that has been loaded has passed them
all; `Session.load_ok` says in one place what the interpreter is then.
Loading evaluates nothing, so it never fails for want of a value for a
variable, see `Session.upholds_load`.
-/

namespace EmberLang

/-- **If two steps with a state have a result, so has the first**, and the
second goes on from there. -/
theorem run_bind_ok {S α β : Type} {m : ExceptT Failure (StateM S) α}
    {g : α → ExceptT Failure (StateM S) β} {s s' : S} {b : β}
    (h : (m >>= g).run s = (.ok b, s')) :
    ∃ a s₁, m.run s = (.ok a, s₁) ∧ (g a).run s₁ = (.ok b, s') := by
  rw [run_bind_eq] at h
  rcases hm : m.run s with ⟨f | a, s₁⟩
  · rw [hm] at h
    cases h
  · rw [hm] at h
    exact ⟨a, s₁, rfl, h⟩

/-- A second step goes on where the first has led. -/
theorem run_bind_of_ok {S α β : Type} {m : ExceptT Failure (StateM S) α}
    (g : α → ExceptT Failure (StateM S) β) {s s₁ : S} {a : α} (h : m.run s = (.ok a, s₁)) :
    (m >>= g).run s = (g a).run s₁ := by
  rw [run_bind_eq, h]

namespace Run

variable {σ : Type}

/-- Tracing changes nothing but the trace. -/
theorem trace_ok {detail : Nat} {m : Message} {j j' : Journal σ}
    (h : (trace detail m : Run σ Unit).run j = (.ok (), j')) :
    j' = { j with trace := j'.trace } := by
  unfold trace at h
  split at h
  · obtain ⟨text, j₁, htext, h⟩ := run_bind_ok h
    rw [run_lift] at htext
    obtain ⟨-, rfl⟩ := Prod.mk.inj htext
    rw [run_write] at h
    cases h
    rfl
  · cases h
    rfl

theorem traces_ok {ι : Type} {detail : Nat} {l : List ι} {message : ι → Message}
    {j j' : Journal σ}
    (h : (l.forM fun i => trace detail (message i) : Run σ Unit).run j = (.ok (), j')) :
    j' = { j with trace := j'.trace } := by
  induction l generalizing j with
  | nil =>
    cases h
    rfl
  | cons i l ih =>
    obtain ⟨_, j₁, hm, h⟩ := run_bind_ok h
    rw [ih h, trace_ok hm]

/-- A message that has a text can be traced. -/
theorem trace_of_text (detail : Nat) {m : Message} (h : ∃ text, m.text = .ok text)
    (j : Journal σ) :
    ∃ t, (trace detail m : Run σ Unit).run j = (.ok (), { j with trace := t }) := by
  obtain ⟨text, htext⟩ := h
  unfold trace
  split
  · refine ⟨j.trace.push ⟨m.level, text⟩, ?_⟩
    rw [htext]
    rfl
  · exact ⟨j.trace, rfl⟩

theorem traces_of_texts {ι : Type} (detail : Nat) {l : List ι} {message : ι → Message}
    (h : ∀ i ∈ l, ∃ text, (message i).text = .ok text) (j : Journal σ) :
    ∃ t, (l.forM fun i => trace detail (message i) : Run σ Unit).run j
      = (.ok (), { j with trace := t }) := by
  induction l generalizing j with
  | nil => exact ⟨j.trace, rfl⟩
  | cons i l ih =>
    obtain ⟨hi, hl⟩ := List.forall_mem_cons.1 h
    obtain ⟨t₁, h₁⟩ := trace_of_text detail hi j
    obtain ⟨t, ht⟩ := ih hl { j with trace := t₁ }
    exact ⟨t, (run_bind_of_ok _ h₁).trans ht⟩

end Run

/-- The message about a function whose parameters are words has a text. -/
theorem Message.text_function {f : Function} (h : ∀ n ∈ f.params, n.IsWord) :
    ∃ text, (Message.function f).text = .ok text := by
  have hwords : f.params.forM Name.needWord = .ok () := by
    generalize f.params = names at h
    induction names with
    | nil => rfl
    | cons n names ih =>
      obtain ⟨⟨s, rfl⟩, hnames⟩ := List.forall_mem_cons.1 h
      exact ih hnames
  rw [text, Name.commas, hwords]
  exact ⟨_, rfl⟩

namespace Session

variable {σ α : Type}

theorem run_lift (outcome : Except Failure α) (I : Interpreter σ) :
    ExceptT.run (lift outcome : Session σ α) I = (outcome, I) := by
  cases outcome <;> rfl

theorem run_keepEngine (m : Engine σ → Run σ α) (I : Interpreter σ) :
    ExceptT.run (keepEngine m) I
      = (((m I.engine).run I.journal).1, { I with journal := ((m I.engine).run I.journal).2 }) :=
  rfl

theorem keepEngine_traces_ok {ι : Type} {l : List ι} {message : ι → Message}
    {I I' : Interpreter σ}
    (h : ExceptT.run (keepEngine fun E => l.forM fun i => E.trace (message i)) I = (.ok (), I')) :
    I' = { I with journal := { I.journal with trace := I'.journal.trace } } := by
  rw [run_keepEngine] at h
  obtain ⟨hok, rfl⟩ := Prod.mk.inj h
  have hj := Run.traces_ok (Prod.ext hok rfl)
  exact congrArg (fun j => { I with journal := j }) hj

/-- **A program that has been loaded** has passed all checks, and the
interpreter holds what it declares. Of the journal the effects are new and
the trace goes on. -/
theorem load_ok {root : Node} {I I' : Interpreter σ}
    (h : ExceptT.run (load root) I = (.ok (), I')) :
    ∃ p ds body externs T cases fs trace,
      root = .program p ds body ∧ Node.externsOf ds = .ok externs
      ∧ root.checkDeclarations = .ok T
      ∧ Node.checkIntrinsics I.intrinsics root.walk = .ok ()
      ∧ root.compileCases T = .ok cases
      ∧ Node.declaredFunctions ds = (fs, .ok ())
      ∧ I' = { I with
          externs := externs, table := T, caseTable := T, cases := cases
          globals := .functions fs .empty
          journal := { I.journal with effects := #[], trace := trace } } := by
  unfold load at h
  split at h
  · next p ds body =>
    -- Along the steps of loading, each of which has come to a result.
    obtain ⟨externs, I₁, h₁, h⟩ := run_bind_ok h
    rw [run_lift] at h₁
    obtain ⟨hexterns, rfl⟩ := Prod.mk.inj h₁
    obtain ⟨_, I₂, ⟨⟩, h⟩ := run_bind_ok h
    obtain ⟨T, I₃, h₃, h⟩ := run_bind_ok h
    rw [run_lift] at h₃
    obtain ⟨hT, rfl⟩ := Prod.mk.inj h₃
    obtain ⟨_, I₄, ⟨⟩, h⟩ := run_bind_ok h
    obtain ⟨_, I₅, ⟨⟩, h⟩ := run_bind_ok h
    obtain ⟨_, I₆, h₆, h⟩ := run_bind_ok h
    rw [run_lift] at h₆
    obtain ⟨hintrinsics, rfl⟩ := Prod.mk.inj h₆
    obtain ⟨cases, I₇, h₇, h⟩ := run_bind_ok h
    rw [run_lift] at h₇
    obtain ⟨hcases, rfl⟩ := Prod.mk.inj h₇
    obtain ⟨_, I₈, ⟨⟩, h⟩ := run_bind_ok h
    obtain ⟨_, I₉, h₉, h⟩ := run_bind_ok h
    obtain ⟨_, I₁₀, h₁₀, h⟩ := run_bind_ok h
    rw [run_lift] at h₁₀
    obtain ⟨houtcome, rfl⟩ := Prod.mk.inj h₁₀
    obtain ⟨_, I₁₁, ⟨⟩, h⟩ := run_bind_ok h
    refine ⟨p, ds, body, externs, T, cases, _, I'.journal.trace, rfl, hexterns, hT, hintrinsics,
      hcases, Prod.ext rfl houtcome, ?_⟩
    rw [keepEngine_traces_ok h, keepEngine_traces_ok h₉]
  · cases h

/-- The messages about a loaded program have texts. -/
theorem text_of_mem_summary {I : Interpreter σ} : ∀ m ∈ summary I, ∃ text, m.text = .ok text := by
  intro m hm
  unfold summary at hm
  rcases List.mem_append.1 hm with hm | hm
  · rcases List.mem_append.1 hm with hm | hm
    · obtain ⟨t, -, rfl⟩ := List.mem_map.1 hm
      exact ⟨_, rfl⟩
    · obtain ⟨e, -, rfl⟩ := List.mem_map.1 hm
      exact ⟨_, rfl⟩
  · obtain rfl := List.mem_singleton.1 hm
    exact ⟨_, rfl⟩

theorem run_lift_bind {o : Except Failure α} {a : α} (h : o = .ok a) {β : Type}
    (k : α → Session σ β) (I : Interpreter σ) :
    ExceptT.run (lift o >>= k) I = ExceptT.run (k a) I := by
  subst h
  rfl

theorem run_modify_bind {β : Type} (g : Interpreter σ → Interpreter σ) (k : PUnit → Session σ β)
    (I : Interpreter σ) :
    ExceptT.run ((modify g : Session σ PUnit) >>= k) I = ExceptT.run (k ⟨⟩) (g I) := rfl

theorem run_get_bind {β : Type} (k : Interpreter σ → Session σ β) (I : Interpreter σ) :
    ExceptT.run ((get : Session σ (Interpreter σ)) >>= k) I = ExceptT.run (k I) I := rfl

/-- **A program that passes all checks is loaded.** -/
theorem load_of_checks {p : Option Position} {ds : List Node} {body : Node}
    {externs : List (Name × Nat)} {T : ConstructorTable} {cases : List Case} {fs : List Function}
    {I : Interpreter σ} (hexterns : Node.externsOf ds = .ok externs)
    (hT : (Node.program p ds body).checkDeclarations = .ok T)
    (hknown : Node.checkIntrinsics I.intrinsics (Node.program p ds body).walk = .ok ())
    (hcases : (Node.program p ds body).compileCases T = .ok cases)
    (hfs : Node.declaredFunctions ds = (fs, .ok ()))
    (hwords : ∀ f ∈ fs, ∀ n ∈ f.params, n.IsWord) :
    ∃ trace, ExceptT.run (load (.program p ds body)) I = (.ok (), { I with
      externs := externs, table := T, caseTable := T, cases := cases
      globals := .functions fs .empty
      journal := { I.journal with effects := #[], trace := trace } }) := by
  have htraces {K : Interpreter σ} {ι : Type} {l : List ι} (message : ι → Message)
      (h : ∀ i ∈ l, ∃ text, (message i).text = .ok text) :
      ∃ t, ExceptT.run (keepEngine fun E => l.forM fun i => E.trace (message i)) K
        = (.ok (), { K with journal := { K.journal with trace := t } }) := by
    obtain ⟨t, ht⟩ := Run.traces_of_texts K.detail h K.journal
    have hdetail : (l.forM fun i => K.engine.trace (message i))
        = l.forM fun i => Run.trace K.detail (message i) := rfl
    exact ⟨t, by rw [run_keepEngine, hdetail, ht]⟩
  unfold load
  dsimp only
  rw [run_lift_bind hexterns, run_modify_bind, run_lift_bind hT, run_modify_bind, run_get_bind,
    run_lift_bind hknown, run_lift_bind hcases, hfs]
  dsimp only
  rw [run_modify_bind]
  obtain ⟨t₁, h₁⟩ := htraces Message.function fun f hf =>
    Message.text_function (hwords f hf)
  rw [run_bind_of_ok _ h₁, run_lift_bind rfl, run_get_bind]
  obtain ⟨t₂, h₂⟩ := htraces id text_of_mem_summary
  exact ⟨t₂, h₂⟩

theorem run_keepEngine_bind {β : Type} (m : Engine σ → Run σ α) (g : α → Engine σ → Run σ β)
    (I : Interpreter σ) :
    ExceptT.run (keepEngine m >>= fun a => keepEngine (g a)) I
      = ExceptT.run (keepEngine fun E => m E >>= fun a => g a E) I := by
  rw [run_bind_eq, run_keepEngine, run_keepEngine, run_bind_eq]
  rcases (m I.engine).run I.journal with ⟨f | a, j⟩ <;> rfl

/-- **A run goes on from what was loaded.** -/
theorem run_of_loaded {p : Option Position} {ds : List Node} {body : Node} {I I' : Interpreter σ}
    (hload : ExceptT.run (load (.program p ds body)) I = (.ok (), I')) :
    ExceptT.run (run (.program p ds body)) I = ExceptT.run (keepEngine fun E => do
      let v ← E.eval (E.callAt I'.runDepth 0) I'.globals body
      E.trace (.result v)
      return v) I' := by
  have htail (v : Value) : (keepEngine (fun E => E.trace (.result v)) >>= fun _ => pure v)
      = (keepEngine fun E => do E.trace (.result v); return v : Session σ Value) :=
    funext fun K => run_keepEngine_bind _ (fun _ _ => pure v) K
  unfold run
  rw [run_bind_of_ok _ hload]
  dsimp only [Node.scope?]
  simp only [htail]
  rw [run_get_bind, run_keepEngine_bind]

/-- **What an interpreter holds that has loaded a program**, `I` being the
one before. -/
structure Loaded (p : Option Position) (ds : List Node) (body : Node) (fs : List Function)
    (I I' : Interpreter σ) : Prop where
  /-- The foreign functions. -/
  externs : Node.externsOf ds = .ok I'.externs
  /-- The constructors. -/
  table : (Node.program p ds body).checkDeclarations = .ok I'.table
  /-- The intrinsics are known. -/
  known : Node.checkIntrinsics I.intrinsics (Node.program p ds body).walk = .ok ()
  /-- The cases. -/
  cases : (Node.program p ds body).compileCases I'.table = .ok I'.cases
  /-- The functions. -/
  functions : Node.declaredFunctions ds = (fs, .ok ())
  /-- The scope of the body. -/
  globals : I'.globals = .functions fs .empty
  /-- Cases are compiled with the constructors of the program. -/
  caseTable : I'.caseTable = I'.table
  /-- The host stays. -/
  natives : I'.natives = I.natives
  /-- The intrinsics stay. -/
  intrinsics : I'.intrinsics = I.intrinsics
  /-- The state of the host stays. -/
  host : I'.journal.host = I.journal.host
  /-- No foreign call has been made. -/
  effects : I'.journal.effects = #[]

theorem loaded_of_load {root : Node} {I I' : Interpreter σ}
    (h : ExceptT.run (load root) I = (.ok (), I')) :
    ∃ p ds body fs, root = .program p ds body ∧ Loaded p ds body fs I I' := by
  obtain ⟨p, ds, body, externs, T, cases, fs, trace, rfl, hexterns, hT, hknown, hcases, hfs, rfl⟩ :=
    load_ok h
  exact ⟨p, ds, body, fs, rfl, hexterns, hT, hknown, hcases, hfs, rfl, rfl, rfl, rfl, rfl, rfl⟩

end Session

/-! ## How loading fails -/

namespace ConstructorTable

theorem notUnbound_newConstructors (t : ConstructorTable) (typeName : Name)
    (done : List Constructor) (ns : List Node) :
    NotUnbound (t.newConstructors typeName done ns) := by
  induction ns generalizing done with
  | nil => exact .ok _
  | cons n ns ih =>
    unfold newConstructors
    split
    · exact .error rfl
    · refine (Name.notUnbound_check _).bind fun _ _ => ?_
      split
      · exact .error rfl
      · split
        · exact .error rfl
        · exact ih _

theorem notUnbound_declareAll (t : ConstructorTable) (ns : List Node) :
    NotUnbound (t.declareAll ns) := by
  induction ns generalizing t with
  | nil => exact .ok _
  | cons n ns ih =>
    unfold declareAll
    split
    · cases ‹_ = _›
    · next p name _ cs rest heq =>
      obtain ⟨rfl, rfl⟩ := List.cons.inj heq
      refine FailsOnly.bind ?_ fun t' _ => ih t'
      refine (Name.notUnbound_check _).bind fun _ _ => ?_
      split
      · exact .error rfl
      · exact (t.notUnbound_newConstructors name [] cs).bind fun _ _ => .ok _
    · next heq =>
      obtain ⟨rfl, rfl⟩ := List.cons.inj heq
      exact ih t

end ConstructorTable

namespace Node

theorem notUnbound_checkScope (t : ConstructorTable) (seen : List Name) (ds : List Node) :
    NotUnbound (checkScope t seen ds) := by
  induction ds generalizing seen with
  | nil => exact .ok _
  | cons d ds ih =>
    unfold checkScope
    split
    · exact .error rfl
    · refine (Name.notUnbound_check _).bind fun _ _ => ?_
      split
      · exact .error rfl
      · exact ih _

theorem notUnbound_checkDeclarations (root : Node) : NotUnbound root.checkDeclarations := by
  unfold checkDeclarations
  split
  · exact .error rfl
  · refine (ConstructorTable.notUnbound_declareAll _ _).bind fun t _ => ?_
    exact (FailsOnly.forM fun ds _ => notUnbound_checkScope t [] ds).bind fun _ _ => .ok _

/-- Foreign functions are found unless one has a name that cannot be looked
up. -/
theorem fails_externsOf (ds : List Node) :
    FailsOnly (fun f => f = .shape .unfitName) (externsOf ds) := by
  have hcheck (n : Name) : FailsOnly (fun f => f = .shape .unfitName) n.check := by
    unfold Name.check
    split
    · exact .ok _
    · exact .error rfl
  refine FailsOnly.foldlM (fun found n => ?_) []
  split
  · exact (hcheck _).bind fun _ _ => .ok _
  · exact .ok _

theorem notUnbound_externsOf (ds : List Node) : NotUnbound (externsOf ds) :=
  (fails_externsOf ds).mono fun _ h => h ▸ rfl

theorem notUnbound_checkIntrinsics (t : IntrinsicTable) (ns : List Node) :
    NotUnbound (checkIntrinsics t ns) := by
  induction ns with
  | nil => exact .ok _
  | cons n ns ih =>
    unfold checkIntrinsics
    split
    · exact .ok _
    · next heq =>
      obtain ⟨rfl, rfl⟩ := List.cons.inj heq
      refine (Name.notUnbound_check _).bind fun _ _ => ?_
      split
      · exact ih
      · exact .error rfl
    · next heq =>
      obtain ⟨rfl, rfl⟩ := List.cons.inj heq
      exact ih

mutual

theorem notUnbound_resolvePattern (t : ConstructorTable) (names : List Name) (n : Node) :
    NotUnbound (n.resolvePattern t names) := by
  cases n with
  | patternVar p name =>
    unfold resolvePattern
    refine name.notUnbound_check.bind fun _ _ => ?_
    split
    · split
      · exact .ok _
      · exact .error rfl
    · split
      · exact .error rfl
      · exact .ok _
  | patternCtor p c args =>
    unfold resolvePattern
    refine (t.fails_lookup c p).notUnbound.bind fun known _ => ?_
    split
    · exact (notUnbound_resolvePatterns t names args).bind fun _ _ => .ok _
    · exact .error rfl
  | _ => exact .ok _

theorem notUnbound_resolvePatterns (t : ConstructorTable) (names : List Name) (ns : List Node) :
    NotUnbound (resolvePatterns t names ns) := by
  cases ns with
  | nil => exact .ok _
  | cons n ns =>
    unfold resolvePatterns
    refine (notUnbound_resolvePattern t names n).bind fun r _ => ?_
    exact (notUnbound_resolvePatterns t r.2 ns).bind fun _ _ => .ok _

end

end Node

namespace Case

theorem notUnbound_compileFrom (t : ConstructorTable) (done : Case) (arms : List Node) :
    NotUnbound (compileFrom t done arms) := by
  induction arms generalizing done with
  | nil => exact .ok _
  | cons n rest ih =>
    cases n with
    | arm p pattern body =>
      unfold compileFrom
      exact (pattern.notUnbound_resolvePattern t []).bind fun r _ => ih _
    | _ => exact .error rfl

theorem notUnbound_compileNodes (t : ConstructorTable) (ns : List Node) :
    NotUnbound (compileNodes t ns) := by
  induction ns with
  | nil => exact .ok _
  | cons n rest ih =>
    cases n with
    | caseOf p scrutinee arms =>
      unfold compileNodes
      exact (notUnbound_compileFrom t _ arms).bind fun _ _ => ih.bind fun _ _ => .ok _
    | _ => exact ih

end Case

theorem Node.notUnbound_compileCases (root : Node) (t : ConstructorTable) :
    NotUnbound (root.compileCases t) := by
  unfold compileCases
  split
  · exact .error rfl
  · refine (Case.notUnbound_compileNodes t _).bind fun _ _ => ?_
    refine FailsOnly.bind ?_ fun ns _ => (Case.notUnbound_compileNodes t ns).bind fun _ _ => .ok _
    unfold walk?
    split
    · exact .error rfl
    · exact .ok _

namespace Session

variable {σ α : Type} {J : Interpreter σ → Prop} {F : Failure → Prop} {P : α → Prop}

theorem upholds_lift {outcome : Except Failure α} (hok : ∀ a, outcome = .ok a → P a)
    (herror : FailsOnly F outcome) : Upholds J F P (lift outcome : Session σ α) := by
  intro I hI
  rw [run_lift]
  exact ⟨hI, hok, herror⟩

/-- What a run upholds of its journal, a step upholds of the
interpreter. -/
theorem upholds_keepEngine {m : Engine σ → Run σ α}
    (h : ∀ I, J I → Upholds (fun j => J { I with journal := j }) F P (m I.engine)) :
    Upholds J F P (keepEngine m) := by
  intro I hI
  rw [run_keepEngine]
  exact h I hI I.journal hI

theorem upholds_get : Upholds J F J (get : Session σ (Interpreter σ)) := by
  intro I hI
  refine ⟨hI, ?_, ?_⟩
  · rintro I' ⟨⟩
    exact hI
  · rintro f ⟨⟩

/-- **Loading never wants the value of a variable**, and keeps all that
depends only on what the interpreter was made with. -/
theorem upholds_load
    (hJ : ∀ (I : Interpreter σ) externs table caseTable cases globals journal, J I →
      J ⟨I.natives, I.intrinsics, I.detail, I.maxDepth, externs, table, caseTable, cases, globals,
        journal⟩) (root : Node) :
    Upholds J (fun f => f.isUnbound = false) (fun _ => True) (load root : Session σ Unit) := by
  have htrace : ∀ {ι : Type} (l : List ι) (message : ι → Message),
      Upholds J (fun f => f.isUnbound = false) (fun _ => True)
        (keepEngine fun E => l.forM fun i => E.trace (message i) : Session σ Unit) := by
    intro ι l message
    refine upholds_keepEngine fun I hI => Upholds.forM fun i _ => ?_
    exact Run.upholds_trace (fun _ _ _ => hJ I _ _ _ _ _ _ hI)
      (FailsIfChecked.of_wording (message i).wording_text).notUnbound
  unfold load
  split
  · next p ds body =>
    refine (upholds_lift (fun _ _ => trivial) (Node.notUnbound_externsOf ds)).andThen fun _ => ?_
    refine (Upholds.modify fun _ h => hJ _ _ _ _ _ _ _ h).andThen fun _ => ?_
    refine (upholds_lift (fun _ _ => trivial) (Node.notUnbound_checkDeclarations _)).andThen
      fun T => ?_
    refine (Upholds.modify fun _ h => hJ _ _ _ _ _ _ _ h).andThen fun _ => ?_
    refine (upholds_get.mono fun _ _ => trivial).andThen fun I => ?_
    refine (upholds_lift (fun _ _ => trivial) (Node.notUnbound_checkIntrinsics _ _)).andThen
      fun _ => ?_
    refine (upholds_lift (fun _ _ => trivial) (Node.notUnbound_compileCases _ T)).andThen
      fun cases => ?_
    refine (Upholds.modify fun _ h => hJ _ _ _ _ _ _ _ h).andThen fun _ => ?_
    refine (htrace _ _).andThen fun _ => ?_
    refine (upholds_lift (fun _ _ => trivial) (Node.notUnbound_declaredFunctions ds)).andThen
      fun _ => ?_
    exact (upholds_get.mono fun _ _ => trivial).andThen fun I => htrace (summary I) id
  · exact Upholds.throw rfl

/-- **What a run of a loaded program comes to under a discipline**: its
journal is kept, whatever came of it, and so is its result. -/
theorem run_of_load {D : Discipline} {state : σ → Prop} {root : Node} {I I' : Interpreter σ}
    (hload : ExceptT.run (load root) I = (.ok (), I')) (G : Governs D F state I'.engine)
    (hglobals : I'.globals.Kept D) (hjournal : I'.journal.Kept D state)
    (hbody : ∀ ds body, root.scope? = some (ds, body) → D.Code I'.globals.Binds body) :
    (ExceptT.run (run root) I).2.journal.Kept D state
      ∧ (∀ v, (ExceptT.run (run root) I).1 = .ok v → v.Kept D)
      ∧ ∀ f, (ExceptT.run (run root) I).1 = .error f → F f := by
  unfold run
  rw [run_bind_eq, hload]
  -- What the program was loaded with stays; the journal goes on.
  let J : Interpreter σ → Prop := fun K =>
    K.engine = I'.engine ∧ K.globals = I'.globals ∧ K.journal.Kept D state
  suffices h : Upholds J F (Value.Kept D) _ by
    obtain ⟨⟨-, -, hj⟩, houtcome⟩ := h I' ⟨rfl, rfl, hjournal⟩
    exact ⟨hj, houtcome⟩
  have hkeep : ∀ {α : Type} {P : α → Prop} {m : Engine σ → Run σ α},
      Upholds (Journal.Kept D state) F P (m I'.engine) → Upholds J F P (keepEngine m) := by
    intro α P m hm
    refine upholds_keepEngine fun K hK => ?_
    rw [hK.1]
    intro j hj
    obtain ⟨hj', houtcome⟩ := hm j hj.2.2
    exact ⟨⟨hK.1, hK.2.1, hj'⟩, houtcome⟩
  obtain ⟨p, ds, body, -, -, -, -, -, rfl, -⟩ := load_ok hload
  refine upholds_get.bind fun K hK => ?_
  refine (hkeep (P := Value.Kept D) ?_).bind fun v hv => ?_
  · rw [hK.2.1]
    exact Engine.eval_upholds G (Engine.callAt_keeps G _ 0) hglobals body (hbody ds body rfl)
  · refine (hkeep (G.upholds_trace (.result v) fun C => C.worded v hv)).andThen fun _ => ?_
    exact Upholds.pure hv

/-- What a run comes to under a discipline that governs what the program
runs on once it is loaded. -/
theorem run_outcome (D : Discipline) (state : σ → Prop) {root : Node} {I : Interpreter σ}
    (hfails : ∀ f, f.isUnbound = false → F f)
    (hloaded : ∀ I', ExceptT.run (load root) I = (.ok (), I') →
      Governs D F state I'.engine ∧ I'.globals.Kept D ∧ I'.journal.Kept D state
        ∧ ∀ ds body, root.scope? = some (ds, body) → D.Code I'.globals.Binds body) :
    (∀ v, (ExceptT.run (run root) I).1 = .ok v → v.Kept D)
      ∧ ∀ f, (ExceptT.run (run root) I).1 = .error f → F f := by
  rcases hload : ExceptT.run (load root) I with ⟨f | ⟨⟩, I'⟩
  · unfold run
    rw [run_bind_eq, hload]
    refine ⟨by rintro v ⟨⟩, ?_⟩
    rintro g ⟨⟩
    exact hfails f ((upholds_load (J := fun _ => True) (fun _ _ _ _ _ _ _ _ => trivial) root I
      trivial).2.2 f (by rw [hload]))
  · obtain ⟨G, hglobals, hjournal, hbody⟩ := hloaded I' hload
    exact (run_of_load hload G hglobals hjournal hbody).2

end Session

end EmberLang
