import EmberLang.Proofs.Loading
import EmberLang.Proofs.Operations

/-!
# One host in the place of another

A program learns of its host only what foreign calls give back. If another
host, with states of another kind, gives back the same at every foreign
call, the program cannot tell the two apart: its run on the second host has
the same outcome, makes the same foreign calls and writes the same trace.

A `Replacement` is a second host whose state can be told from the state of
the first and from the foreign calls so far. It comes with what holds of the
first host between foreign calls, and with what holds when a failure has
ended the run. All that has to be shown is that a foreign call keeps to
this (`Replacement.Fits`). Evaluation and loading follow, and
`Replacement.Fits.run` says so of the whole run.
-/

namespace EmberLang

variable {σ τ S T α β : Type}

/-! ## Computations over two kinds of states -/

/-- **A computation shadows another** at a state: it has the same outcome,
and its state stays a view of the other's. A result leaves a state with `K`,
and a failure one with `B`. -/
structure Shadow (view : S → T) (K : S → Prop) (B : Failure → S → Prop)
    (m : ExceptT Failure (StateM S) α) (m' : ExceptT Failure (StateM T) α) (s : S) : Prop where
  /-- The outcome and the state. -/
  same : m'.run (view s) = ((m.run s).1, view (m.run s).2)
  /-- The state after a result. -/
  ok : ∀ a, (m.run s).1 = .ok a → K (m.run s).2
  /-- The state after a failure. -/
  error : ∀ f, (m.run s).1 = .error f → B f (m.run s).2

namespace Shadow

variable {view : S → T} {K : S → Prop} {B : Failure → S → Prop}
  {m : ExceptT Failure (StateM S) α} {m' : ExceptT Failure (StateM T) α} {s : S}

/-- **One step after another.** -/
theorem bind {f : α → ExceptT Failure (StateM S) β} {f' : α → ExceptT Failure (StateM T) β}
    (h : Shadow view K B m m' s)
    (hf : ∀ a, (m.run s).1 = .ok a → K (m.run s).2 → Shadow view K B (f a) (f' a) (m.run s).2) :
    Shadow view K B (m >>= f) (m' >>= f') s := by
  obtain ⟨hsame, hok, herror⟩ := h
  rcases hrun : m.run s with ⟨e | a, s₁⟩ <;> rw [hrun] at hsame hok herror hf
  · have hstop : (m >>= f).run s = (.error e, s₁) := by rw [run_bind_eq, hrun]
    have hstop' : (m' >>= f').run (view s) = (.error e, view s₁) := by rw [run_bind_eq, hsame]
    refine ⟨by rw [hstop, hstop'], fun b hb => ?_, fun g hg => ?_⟩
    · rw [hstop] at hb
      cases hb
    · rw [hstop] at hg ⊢
      exact herror g (congrArg Except.error (Except.error.inj hg))
  · have hgo := run_bind_of_ok f hrun
    have hgo' := run_bind_of_ok f' hsame
    obtain ⟨hsame', hok', herror'⟩ := hf a rfl (hok a rfl)
    refine ⟨by rw [hgo, hgo', hsame'], ?_, ?_⟩
    · rw [hgo]
      exact hok'
    · rw [hgo]
      exact herror'

/-- A step that changes nothing. -/
theorem of_outcome {outcome : Except Failure α} (hm : m.run s = (outcome, s))
    (hm' : m'.run (view s) = (outcome, view s)) (hK : K s) (hB : ∀ f, B f s) :
    Shadow view K B m m' s := by
  refine ⟨by rw [hm, hm'], fun a _ => ?_, fun f _ => ?_⟩
  · rw [hm]
    exact hK
  · rw [hm]
    exact hB f

/-- A change of the state. -/
theorem modify {g : S → S} {g' : T → T} (hview : g' (view s) = view (g s)) (hK : K (g s)) :
    Shadow view K B (modify g : ExceptT Failure (StateM S) PUnit)
      (modify g' : ExceptT Failure (StateM T) PUnit) s := by
  refine ⟨?_, fun _ _ => hK, fun f hf => by cases hf⟩
  show (Except.ok PUnit.unit, g' (view s)) = (Except.ok PUnit.unit, view (g s))
  rw [hview]

end Shadow

/-! ## Functions under the same names -/

namespace Native

variable {natives : List (Native σ)} {externs : List (Name × Nat)} {name : Name}
  {args : List Value} {p : Option Position}

theorem find?_map (g : Native σ → Native τ) (hname : ∀ n, (g n).name = n.name) (name : Name) :
    find? (natives.map g) name = (find? natives name).map g := by
  unfold find?
  rw [List.find?_map]
  exact congrArg (Option.map g) (congrArg (List.find? · natives) (funext fun n =>
    congrArg (fun word => name.same (.word word)) (hname n)))

/-- Changing what the functions do does not change which is meant. -/
theorem resolve_map (g : Native σ → Native τ) (hname : ∀ n, (g n).name = n.name)
    (harity : ∀ n, (g n).arity? = n.arity?) :
    resolve (natives.map g) externs name args p = (resolve natives externs name args p).map g := by
  unfold resolve
  rw [find?_map g hname]
  cases name.check with
  | error f => rfl
  | ok _ =>
    simp only [ok_bind]
    cases externs.find? (·.1.same name) with
    | none => rfl
    | some declared =>
      cases find? natives name with
      | none => rfl
      | some n =>
        dsimp only [Option.map_some]
        rw [harity]
        split
        · rfl
        · split
          · rfl
          · rfl

end Native

/-! ## Replacements -/

/-- **A host in the place of another.** -/
structure Replacement (σ τ : Type) where
  /-- The functions of the host. -/
  natives : List (Native σ)
  /-- Those of the other host. -/
  others : List (Native τ)
  /-- The state of the other host, by the state of the host and the foreign
  calls so far. -/
  state : σ → List Effect → τ
  /-- What holds of the host between foreign calls. -/
  Settled : σ → List Effect → Prop
  /-- What holds of it when a failure has ended the run. -/
  Ended : Failure → σ → List Effect → Prop

namespace Replacement

variable (R : Replacement σ τ)

/-- A journal with the other host. -/
def journal (j : Journal σ) : Journal τ where
  host := R.state j.host j.observed.toList
  effects := j.effects
  observed := j.observed
  trace := j.trace

/-- What a program runs on, with the other host. -/
def engine (E : Engine σ) : Engine τ where
  natives := R.others
  externs := E.externs
  intrinsics := E.intrinsics
  table := E.table
  caseTable := E.caseTable
  detail := E.detail

/-- An interpreter with the other host. -/
def interpreter (I : Interpreter σ) : Interpreter τ where
  natives := R.others
  intrinsics := I.intrinsics
  detail := I.detail
  maxDepth := I.maxDepth
  externs := I.externs
  table := I.table
  caseTable := I.caseTable
  cases := I.cases
  globals := I.globals
  journal := R.journal I.journal

/-- The host between foreign calls. -/
abbrev Holds (j : Journal σ) : Prop := R.Settled j.host j.observed.toList

/-- **A run on the host is replaced** by a run on the other host. -/
def Replaces (m : Run σ α) (m' : Run τ α) : Prop :=
  ∀ j, R.Holds j → Shadow R.journal R.Holds (fun f j => R.Ended f j.host j.observed.toList) m m' j

/-- **The other host is as good as the first.** -/
structure Fits : Prop where
  /-- It provides functions of the same names. -/
  names : ∀ name, (Native.find? R.others name).isSome = (Native.find? R.natives name).isSome
  /-- A run may fail between foreign calls. -/
  ended : ∀ f s es, R.Settled s es → R.Ended f s es
  /-- Foreign calls can be replaced. -/
  foreign : ∀ (E : Engine σ) call call' name args directive p, E.natives = R.natives →
    R.Replaces (E.callForeign call name args directive p)
      ((R.engine E).callForeign call' name args directive p)

/-! ### Evaluation looks at the host only through its operations -/

section Operations

variable {M : Type → Type} [Monad M] (E : Engine σ) (O : Operations M)

theorem foreignName?_engine (scope : Scope) (n : Node) :
    (R.engine E).foreignName? scope n = E.foreignName? scope n := rfl

mutual

theorem evalWith_engine (scope : Scope) (n : Node) :
    (R.engine E).evalWith O scope n = E.evalWith O scope n := by
  cases n with
  | call p callee args =>
    rw [Engine.evalWith, Engine.evalWith, evalAllWith_engine scope args,
      evalWith_engine scope callee, foreignName?_engine]
  | intrinsicCall p op args =>
    rw [Engine.evalWith, Engine.evalWith, evalAllWith_engine scope args]
    rfl
  | directiveCall p name args =>
    rw [Engine.evalWith, Engine.evalWith, evalAllWith_engine scope args]
  | construct p c args =>
    rw [Engine.evalWith, Engine.evalWith, evalAllWith_engine scope args]
    rfl
  | caseOf p scrutinee arms =>
    rw [Engine.evalWith, Engine.evalWith, evalWith_engine scope scrutinee]
    -- The scope of the arm is known only once the value is there.
    simp only [evalArmWith_engine _ _ arms]
    rfl
  | letIn p name value body valueType =>
    rw [Engine.evalWith, Engine.evalWith, evalWith_engine scope value]
    simp only [evalWith_engine _ body]
  | seq p first rest =>
    rw [Engine.evalWith, Engine.evalWith, evalWith_engine scope first, evalWith_engine scope rest]
  | block p declarations body =>
    rw [Engine.evalWith, Engine.evalWith]
    simp only [evalWith_engine _ body]
  | _ =>
    unfold Engine.evalWith
    rfl

theorem evalAllWith_engine (scope : Scope) (ns : List Node) :
    (R.engine E).evalAllWith O scope ns = E.evalAllWith O scope ns := by
  cases ns with
  | nil => rw [Engine.evalAllWith, Engine.evalAllWith]
  | cons n ns =>
    rw [Engine.evalAllWith, Engine.evalAllWith, evalWith_engine scope n,
      evalAllWith_engine scope ns]

theorem evalArmWith_engine (scope : Scope) (index : Nat) (arms : List Node) :
    (R.engine E).evalArmWith O scope index arms = E.evalArmWith O scope index arms := by
  cases arms with
  | nil => rw [Engine.evalArmWith, Engine.evalArmWith]
  | cons n arms =>
    cases index with
    | zero =>
      cases n with
      | arm q pattern body =>
        rw [Engine.evalArmWith, Engine.evalArmWith, evalWith_engine scope body]
      | _ =>
        unfold Engine.evalArmWith
        rfl
    | succ index =>
      rw [Engine.evalArmWith, Engine.evalArmWith, evalArmWith_engine scope index arms]

end

theorem callOnceWith_engine (depth : Nat) :
    (R.engine E).callOnceWith O depth = E.callOnceWith O depth := by
  funext f args p
  unfold Engine.callOnceWith
  simp only [evalWith_engine]

end Operations

/-! ### Runs -/

namespace Fits

variable {R} (h : R.Fits) {E : Engine σ}

include h

theorem lift (outcome : Except Failure α) :
    R.Replaces (Run.lift outcome) (Run.lift outcome) := fun j hj =>
  .of_outcome (Run.run_lift outcome j) (Run.run_lift outcome _) hj fun f => h.ended f _ _ hj

theorem pure (a : α) : R.Replaces (Pure.pure a) (Pure.pure a) := h.lift (.ok a)

omit h in
/-- **One step after another**, where the second may rely on how the first
came to its result. -/
theorem bind {m : Run σ α} {m' : Run τ α} {f : α → Run σ β} {f' : α → Run τ β}
    (hm : R.Replaces m m') (hf : ∀ a, (∃ j, (m.run j).1 = .ok a) → R.Replaces (f a) (f' a)) :
    R.Replaces (m >>= f) (m' >>= f') := fun j hj =>
  (hm j hj).bind fun a ha hK => hf a ⟨j, ha⟩ _ hK

theorem trace (msg : Message) : R.Replaces (E.trace msg) ((R.engine E).trace msg) := by
  show R.Replaces (Run.trace E.detail msg) (Run.trace E.detail msg)
  unfold Run.trace
  split
  · exact bind (h.lift _) fun text _ j hj => .modify rfl hj
  · exact h.pure ()

theorem traces {ι : Type} (l : List ι) (message : ι → Message) :
    R.Replaces (l.forM fun i => E.trace (message i))
      (l.forM fun i => (R.engine E).trace (message i)) := by
  induction l with
  | nil => exact h.pure _
  | cons i l ih => exact bind (h.trace (message i)) fun _ _ => ih

/-- The operations of a run on the other host. -/
theorem tracks (hE : E.natives = R.natives) {call : Engine.Caller σ} {call' : Engine.Caller τ}
    (hcall : ∀ f args p, R.Replaces (call f args p) (call' f args p)) :
    Tracks anything (fun _ => True) (fun _ => True) E call ((R.engine E).operations call')
      R.Replaces where
  pure := h.pure
  bind hm hR hf := bind hR fun a ⟨j, hj⟩ => hf a ((hm j j.kept_anything).2.1 a hj)
  lift := h.lift
  trace msg _ := h.trace msg
  foreign name args directive p _ := h.foreign E call call' name args directive p hE
  call f args p _ _ := hcall f args p
  functions _ _ _ := trivial

/-- **Calls**, however many may be nested. -/
theorem callAt (hE : E.natives = R.natives) (limit depth : Nat) (f : Value) (args : List Value)
    (p : Option Position) :
    R.Replaces (E.callAt limit depth f args p) ((R.engine E).callAt limit depth f args p) := by
  induction limit generalizing depth f args p with
  | zero => exact h.lift (.error .callsTooDeep)
  | succ limit ih =>
    rw [Engine.callAt_succ, Engine.callAt_succ, ← Engine.callOnceWith_operations (R.engine E),
      callOnceWith_engine]
    exact Engine.callOnce_tracks (h.tracks hE (ih (depth + 1))) (governs_anything E)
      (Engine.Caller.keeps_anything _) E.detail depth f.kept_anything
      (Value.keptAll_anything args) p

/-- **Evaluation.** -/
theorem eval (hE : E.natives = R.natives) (limit : Nat) (scope : Scope) (n : Node) :
    R.Replaces (E.eval (E.callAt limit 0) scope n)
      ((R.engine E).eval ((R.engine E).callAt limit 0) scope n) := by
  rw [← Engine.evalWith_operations (R.engine E), evalWith_engine]
  exact Engine.eval_tracks (h.tracks hE (h.callAt hE limit 0)) (governs_anything E)
    (Engine.Caller.keeps_anything _) E.detail scope.kept_anything n trivial

end Fits

/-! ### Steps of an interpreter -/

/-- An interpreter for the host, between foreign calls. -/
structure Ready (I : Interpreter σ) : Prop where
  /-- It is an interpreter for the host. -/
  natives : I.natives = R.natives
  /-- The host is as it should be. -/
  holds : R.Holds I.journal

/-- **A step of an interpreter is replaced** by a step of an interpreter for
the other host. -/
def ReplacesStep (m : Session σ α) (m' : Session τ α) : Prop :=
  ∀ I, R.Ready I → Shadow R.interpreter R.Ready
    (fun f I => R.Ended f I.journal.host I.journal.observed.toList) m m' I

namespace ReplacesStep

variable {R}

theorem bind {m : Session σ α} {m' : Session τ α} {f : α → Session σ β} {f' : α → Session τ β}
    (hm : R.ReplacesStep m m') (hf : ∀ a, R.ReplacesStep (f a) (f' a)) :
    R.ReplacesStep (m >>= f) (m' >>= f') := fun I hI =>
  (hm I hI).bind fun a _ hK => hf a _ hK

/-- What is looked up in the interpreter differs between the two. -/
theorem get_bind {k : Interpreter σ → Session σ α} {k' : Interpreter τ → Session τ α}
    (hk : ∀ I, R.Ready I → R.ReplacesStep (k I) (k' (R.interpreter I))) :
    R.ReplacesStep (get >>= k) (get >>= k') := fun I hI =>
  let hrun := hk I hI I hI
  ⟨hrun.same, hrun.ok, hrun.error⟩

theorem modify {g : Interpreter σ → Interpreter σ} {g' : Interpreter τ → Interpreter τ}
    (h : ∀ I, R.Ready I → g' (R.interpreter I) = R.interpreter (g I) ∧ R.Ready (g I)) :
    R.ReplacesStep (modify g : Session σ PUnit) (modify g' : Session τ PUnit) := fun I hI =>
  .modify (h I hI).1 (h I hI).2

theorem keepEngine {m : Engine σ → Run σ α} {m' : Engine τ → Run τ α}
    (hm : ∀ E, E.natives = R.natives → R.Replaces (m E) (m' (R.engine E))) :
    R.ReplacesStep (Session.keepEngine m) (Session.keepEngine m') := by
  intro I hI
  obtain ⟨hsame, hok, herror⟩ := hm I.engine hI.natives I.journal hI.holds
  refine ⟨?_, fun a ha => ⟨hI.natives, hok a ha⟩, herror⟩
  rw [Session.run_keepEngine, Session.run_keepEngine]
  exact congrArg (fun r => (r.1, { R.interpreter I with journal := r.2 })) hsame

end ReplacesStep

namespace Fits

variable {R} (h : R.Fits)

include h

theorem replacesStep_lift (outcome : Except Failure α) :
    R.ReplacesStep (Session.lift outcome) (Session.lift outcome) := fun I hI =>
  .of_outcome (Session.run_lift outcome I) (Session.run_lift outcome _) hI
    fun f => h.ended f _ _ hI.holds

theorem replacesStep_traces {ι : Type} (l : List ι) (message : ι → Message) :
    R.ReplacesStep (Session.keepEngine fun E => l.forM fun i => E.trace (message i))
      (Session.keepEngine fun E => l.forM fun i => E.trace (message i)) :=
  .keepEngine fun _ _ => h.traces l message

theorem summary_interpreter {I : Interpreter σ} (hI : R.Ready I) :
    Session.summary (R.interpreter I) = Session.summary I := by
  unfold Session.summary
  refine congrArg (· ++ _) (congrArg (_ ++ ·) (List.map_congr_left fun e _ => ?_))
  show Message.foreign e.1 (Native.find? R.others e.1).isSome = _
  rw [h.names, hI.natives]

/-- **Loading.** -/
theorem load (root : Node) : R.ReplacesStep (Session.load root) (Session.load root) := by
  cases root with
  | program p ds body =>
    unfold Session.load
    dsimp only
    refine (h.replacesStep_lift _).bind fun externs => ?_
    refine ReplacesStep.bind (.modify ?_) fun _ => ?_
    · exact fun I hI => ⟨rfl, hI.natives, hI.holds⟩
    refine (h.replacesStep_lift _).bind fun table => ?_
    refine ReplacesStep.bind (.modify ?_) fun _ => ?_
    · exact fun I hI => ⟨rfl, hI.natives, hI.holds⟩
    refine .get_bind fun I _ => (h.replacesStep_lift _).bind fun _ => ?_
    refine (h.replacesStep_lift _).bind fun cases => ?_
    refine ReplacesStep.bind (.modify ?_) fun _ => ?_
    · exact fun I hI => ⟨rfl, hI.natives, hI.holds⟩
    refine (h.replacesStep_traces _ _).bind fun _ => (h.replacesStep_lift _).bind fun _ => ?_
    refine .get_bind fun I hI => ?_
    rw [h.summary_interpreter hI]
    exact h.replacesStep_traces _ id
  | _ => exact h.replacesStep_lift (.error (.shape .missingPart))

/-- **Whole runs.** -/
theorem run (root : Node) : R.ReplacesStep (Session.run root) (Session.run root) := by
  unfold Session.run
  refine (h.load root).bind fun _ => ?_
  split
  · exact h.replacesStep_lift (.error (.shape .missingPart))
  · next body _ =>
    refine .get_bind fun I _ => ?_
    refine (ReplacesStep.keepEngine fun E hE => h.eval hE I.runDepth I.globals body).bind
      fun v => ?_
    refine (ReplacesStep.keepEngine fun E _ => h.trace (.result v)).bind fun _ => ?_
    exact h.replacesStep_lift (.ok v)

end Fits

end Replacement

end EmberLang
