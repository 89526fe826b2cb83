import EmberLang.Proofs.KeptRuns

/-!
# Evaluation over other operations

Evaluation does four things beside following the expression: it has the
outcome of a step that keeps no journal, writes to the trace, calls a
foreign function, and calls a value. `Operations` are these four as
computations of any kind, and `Engine.evalWith` is evaluation with them in
the place of those of a run. With the operations of a run it is evaluation
(`Engine.evalWith_operations`); with others it may keep a history, write
less, or call less deeply.

What relates a run to evaluation over other operations is a relation
between computations that each of the four respects and that goes along
binds (`Tracks`). Then it holds of evaluation as a whole
(`Engine.eval_tracks`), for all code and all values that a discipline
lets through, and of a call with its body (`Engine.callOnce_tracks`).
-/

namespace EmberLang

/-- **What evaluation does beside following the expression**, as
computations of any kind. -/
structure Operations (M : Type → Type) where
  /-- Has an outcome. -/
  lift : {α : Type} → Except Failure α → M α
  /-- Writes a message of the trace. -/
  trace : Message → M Unit
  /-- Calls a foreign function, as a directive or not. -/
  foreign : Name → List Value → Bool → Option Position → M Value
  /-- Calls a value. -/
  call : Value → List Value → Option Position → M Value

/-- The operations of a run, where `call` calls a value. -/
def Engine.operations {σ : Type} (E : Engine σ) (call : Engine.Caller σ) : Operations (Run σ) where
  lift := Run.lift
  trace := E.trace
  foreign := E.callForeign call
  call := call

namespace Engine

variable {σ : Type} {M : Type → Type} [Monad M]

/-- The functions of a scope, each announced in the trace. -/
def announceWith (O : Operations M) (declarations : List Node) : M (List Function) := do
  let (functions, outcome) := Node.declaredFunctions declarations
  functions.forM fun f => O.trace (.function f)
  O.lift outcome
  O.lift (.ok functions)

mutual

/-- **The value of an expression in a scope**, over any operations. -/
def evalWith (E : Engine σ) (O : Operations M) (scope : Scope) : Node → M Value
  | .literal p v => do
    O.trace (.eval (.literal p v))
    O.lift (.ok v.value)
  | .unit p => do
    O.trace (.eval (.unit p))
    O.lift (.ok .unit)
  | .var p name => do
    O.trace (.eval (.var p name))
    O.lift (scope.get name p)
  | .call p callee args => do
    O.trace (.eval (.call p callee args))
    let values ← evalAllWith E O scope args
    match ← O.lift (E.foreignName? scope callee) with
    | some name =>
      O.trace (.foreignCall name values)
      O.foreign name values false p
    | none =>
      let f ← evalWith E O scope callee
      O.call f values p
  | .intrinsicCall p op args => do
    O.trace (.eval (.intrinsicCall p op args))
    let values ← evalAllWith E O scope args
    O.lift (E.intrinsics.applyNamed op values p)
  | .directiveCall p name args => do
    O.trace (.eval (.directiveCall p name args))
    let values ← evalAllWith E O scope args
    O.trace (.directive name values)
    let _ ← O.foreign name values true p
    O.lift (.ok .unit)
  | .construct p c args => do
    O.trace (.eval (.construct p c args))
    let values ← evalAllWith E O scope args
    O.lift (E.table.construct c values p)
  | .caseOf p scrutinee arms => do
    O.trace (.eval (.caseOf p scrutinee arms))
    let v ← evalWith E O scope scrutinee
    match Case.compile E.caseTable arms with
    | .error _ => O.lift (.error .uncompiledCase)
    | .ok c =>
      match c.select? v with
      | some (index, bindings) =>
        O.trace (.chosen v index)
        evalArmWith E O (scope.bindAll bindings) index arms
      | none =>
        let label ← O.lift v.caseLabel
        O.lift (.error (.of (.nonExhaustiveMatch label) p))
  | .letIn p name value body valueType => do
    O.trace (.eval (.letIn p name value body valueType))
    let v ← evalWith E O scope value
    O.lift name.check
    evalWith E O (.bind name v scope) body
  | .seq p first rest => do
    O.trace (.eval (.seq p first rest))
    let _ ← evalWith E O scope first
    evalWith E O scope rest
  | .lambda p params body => do
    O.trace (.eval (.lambda p params body))
    O.lift (.ok (.closure ⟨"<fn>", params, body⟩ scope))
  | .block p declarations body => do
    O.trace (.eval (.block p declarations body))
    let functions ← announceWith O declarations
    evalWith E O (.functions functions scope) body
  | n => do
    O.trace (.eval n)
    O.lift (.error (.misplaced .evaluation n.className))

/-- The values of several expressions. -/
def evalAllWith (E : Engine σ) (O : Operations M) (scope : Scope) : List Node → M (List Value)
  | [] => O.lift (.ok [])
  | n :: ns => do
    let v ← evalWith E O scope n
    let vs ← evalAllWith E O scope ns
    O.lift (.ok (v :: vs))

/-- The value of the body of one of some arms. -/
def evalArmWith (E : Engine σ) (O : Operations M) (scope : Scope) : Nat → List Node → M Value
  | _, [] => O.lift (.error (.shape .missingItem))
  | 0, .arm _ _ body :: _ => evalWith E O scope body
  | 0, _ :: _ => O.lift (.error (.shape .missingPart))
  | index + 1, _ :: rest => evalArmWith E O scope index rest

end

/-- **A single call of a value**, below `depth` others, where `call` makes
the calls that it leads to. -/
def callOnce (E : Engine σ) (call : Caller σ) (depth : Nat) : Caller σ := fun f args position =>
  match f with
  | .closure function scope =>
    if args.length = function.params.length then do
      Run.lift (function.params.forM Name.check)
      E.trace (.call depth function.name args)
      eval E call (scope.bindAll (function.params.zip args)) function.body
    else throw (.of (.arity function.name.text function.params.length args.length) position)
  | v => throw (.of (.typeMismatch (.notCallable v.typeName.text)) position)

theorem callAt_succ (E : Engine σ) (limit depth : Nat) :
    callAt E (limit + 1) depth = callOnce E (callAt E limit (depth + 1)) depth := rfl

/-- A single call of a value, over any operations. -/
def callOnceWith (E : Engine σ) (O : Operations M) (depth : Nat) (f : Value) (args : List Value)
    (position : Option Position) : M Value :=
  match f with
  | .closure function scope =>
    if args.length = function.params.length then do
      O.lift (function.params.forM Name.check)
      O.trace (.call depth function.name args)
      evalWith E O (scope.bindAll (function.params.zip args)) function.body
    else
      O.lift (.error (.of (.arity function.name.text function.params.length args.length) position))
  | v => O.lift (.error (.of (.typeMismatch (.notCallable v.typeName.text)) position))

end Engine

/-! ## Relations that follow a run -/

variable {σ : Type} {D : Discipline} {F : Failure → Prop} {state : σ → Prop} {E : Engine σ}
variable {M : Type → Type} [Monad M] {O : Operations M} {call : Engine.Caller σ}

/-- **A message is kept** if the values are that it words, and the
parameters of the function that it announces may have their names. -/
def Message.Kept (D : Discipline) : Message → Prop
  | .function f => D.Params f.params
  | .result v => v.Kept D
  | .directive _ args => Value.KeptAll D args
  | .foreignCall _ args => Value.KeptAll D args
  | .call _ _ args => Value.KeptAll D args
  | .chosen v _ => v.Kept D
  | _ => True

theorem Message.worded_of_kept (hdata : ∀ {c k}, D.Data c k → c.IsWord)
    (hparams : ∀ {names}, D.Params names → ∀ n ∈ names, n.IsWord) {m : Message} (h : m.Kept D) :
    m.Worded := by
  cases m with
  | function f => exact hparams h
  | result v => exact v.worded_of_kept hdata hparams h
  | directive name args => exact Value.wordedAll_of_kept hdata hparams args h
  | foreignCall name args => exact Value.wordedAll_of_kept hdata hparams args h
  | call depth name args => exact Value.wordedAll_of_kept hdata hparams args h
  | chosen v index => exact v.worded_of_kept hdata hparams h
  | _ => trivial

/-- **A relation follows a run** into other operations if it goes along
binds and holds of each operation, as far as values are kept. What is
known of the result of a first step helps with the second. -/
structure Tracks (D : Discipline) (F : Failure → Prop) (state : σ → Prop) (E : Engine σ)
    (call : Engine.Caller σ) (O : Operations M) (R : {α : Type} → Run σ α → M α → Prop) :
    Prop where
  /-- A result. -/
  pure : ∀ {α : Type} (a : α), R (Pure.pure a) (Pure.pure a)
  /-- One step after another. -/
  bind : ∀ {α β : Type} {P : α → Prop} {m : Run σ α} {m' : M α} {f : α → Run σ β} {f' : α → M β},
    Upholds (Journal.Kept D state) F P m → R m m' → (∀ a, P a → R (f a) (f' a)) →
      R (m >>= f) (m' >>= f')
  /-- An outcome. -/
  lift : ∀ {α : Type} (outcome : Except Failure α), R (Run.lift outcome) (O.lift outcome)
  /-- A message. -/
  trace : ∀ m : Message, m.Kept D → R (E.trace m) (O.trace m)
  /-- A foreign call. -/
  foreign : ∀ name args directive p, Value.KeptAll D args →
    R (E.callForeign call name args directive p) (O.foreign name args directive p)
  /-- A call. -/
  call : ∀ f args p, f.Kept D → Value.KeptAll D args → R (call f args p) (O.call f args p)
  /-- The functions that a block announces may have their parameters, also
  if a declaration after them is not well formed. -/
  functions : ∀ {Γ p ds body}, D.Code Γ (.block p ds body) →
    ∀ f ∈ (Node.declaredFunctions ds).1, D.Params f.params

namespace Tracks

variable {R : {α : Type} → Run σ α → M α → Prop}

theorem ok {α : Type} (T : Tracks D F state E call O R) (a : α) :
    R (Pure.pure a) (O.lift (.ok a)) := T.lift (.ok a)

theorem error {α : Type} (T : Tracks D F state E call O R) (f : Failure) :
    R (throw f : Run σ α) (O.lift (.error f)) := T.lift (.error f)

section

variable (T : Tracks D F state E call O R) (G : Governs D F state E)

include T G

/-- The message that a node is about to be evaluated, and what follows. -/
theorem evalTrace_bind {β : Type} (n : Node) {f : Unit → Run σ β} {f' : Unit → M β}
    (h : R (f ()) (f' ())) : R (E.trace (.eval n) >>= f) (O.trace (.eval n) >>= f') :=
  T.bind (G.upholds_evalTrace n) (T.trace _ trivial) fun _ _ => h

/-- Messages about functions, one after the other. -/
theorem forM_trace {fs : List Function} (hfs : ∀ f ∈ fs, D.Params f.params) :
    R (fs.forM fun f => E.trace (.function f)) (fs.forM fun f => O.trace (.function f)) := by
  induction fs with
  | nil => exact T.pure _
  | cons f fs ih =>
    obtain ⟨hf, hfs⟩ := List.forall_mem_cons.1 hfs
    exact T.bind (G.upholds_trace (.function f) fun C => C.params hf) (T.trace _ hf)
      fun _ _ => ih hfs

theorem announce {Γ : Name → Prop} {p : Option Position} {ds : List Node} {body : Node}
    (hcode : D.Code Γ (.block p ds body)) : R (E.announce ds) (Engine.announceWith O ds) := by
  have hparams := T.functions hcode
  unfold Engine.announce Engine.announceWith
  refine T.bind (P := fun _ => True) ?_ (T.forM_trace G hparams) fun _ _ => ?_
  · exact Upholds.forM fun f hf => G.upholds_trace (.function f) fun C => C.params (hparams f hf)
  refine T.bind (P := fun _ => True) ?_ (T.lift _) fun _ _ => T.ok _
  exact G.upholds_lift (fun _ _ => trivial) (Node.fails_declaredFunctions ds)
    fun C => C.code hcode

end

end Tracks

theorem Engine.foreignName?_detail (E : Engine σ) (d : Nat) (scope : Scope) (callee : Node) :
    { E with detail := d }.foreignName? scope callee = E.foreignName? scope callee := by
  cases callee <;> rfl

namespace Engine

variable {R : {α : Type} → Run σ α → M α → Prop}

mutual

/-- **A relation that follows a run holds of evaluation.** The level of
detail is a matter of the operations. -/
theorem eval_tracks (T : Tracks D F state E call O R) (G : Governs D F state E)
    (hcall : call.Keeps D F state) (d : Nat) {scope : Scope} (hs : scope.Kept D) (n : Node)
    (hcode : D.Code scope.Binds n) :
    R (eval E call scope n) (evalWith { E with detail := d } O scope n) := by
  cases n with
  | literal p v =>
    rw [eval, evalWith]
    exact T.evalTrace_bind G _ (T.ok _)
  | unit p =>
    rw [eval, evalWith]
    exact T.evalTrace_bind G _ (T.ok _)
  | var p name =>
    rw [eval, evalWith]
    exact T.evalTrace_bind G _ (T.lift _)
  | call p callee args =>
    rw [eval, evalWith]
    refine T.evalTrace_bind G _ ?_
    refine T.bind (evalAll_upholds G hcall hs args (G.callArgs hcode))
      (evalAll_tracks T G hcall d hs args (G.callArgs hcode)) fun values hvalues => ?_
    have hword : D.Checked E → ∀ q name, callee = .var q name → name.IsWord :=
      fun C => C.code hcode
    rw [foreignName?_detail]
    refine T.bind (G.upholds_foreignName? scope hword) (T.lift _)
      fun name? ⟨hforeign, hhidden⟩ => ?_
    cases name? with
    | some name =>
      exact T.bind (G.upholds_trace (.foreignCall name values) fun C => C.wordedAll values hvalues)
        (T.trace _ hvalues) fun _ _ => T.foreign name values false p hvalues
    | none =>
      -- A callee that is the name of a foreign function need not be code. It is
      -- evaluated only where the scope hides that function, as a variable that
      -- has a value.
      have hf : Upholds (Journal.Kept D state) F (Value.Kept D) (eval E call scope callee)
          ∧ R (eval E call scope callee) (evalWith { E with detail := d } O scope callee) := by
        rcases G.callee hcode with hcallee | ⟨q, name, rfl, hextern⟩
        · exact ⟨eval_upholds G hcall hs callee hcallee, eval_tracks T G hcall d hs callee hcallee⟩
        · refine ⟨G.upholds_evalVar call hs q (fun C => hword C q name rfl)
            (.inl (hhidden q name rfl rfl hextern)), ?_⟩
          rw [eval, evalWith]
          exact T.evalTrace_bind G _ (T.lift _)
      exact T.bind hf.1 hf.2 fun f hf => T.call f values p hf hvalues
  | intrinsicCall p op args =>
    rw [eval, evalWith]
    refine T.evalTrace_bind G _ ?_
    exact T.bind (evalAll_upholds G hcall hs args (G.intrinsicArgs hcode))
      (evalAll_tracks T G hcall d hs args (G.intrinsicArgs hcode)) fun _ _ => T.lift _
  | directiveCall p name args =>
    rw [eval, evalWith]
    refine T.evalTrace_bind G _ ?_
    refine T.bind (evalAll_upholds G hcall hs args (G.directiveArgs hcode))
      (evalAll_tracks T G hcall d hs args (G.directiveArgs hcode)) fun values hvalues => ?_
    refine T.bind (G.upholds_trace (.directive name values) fun C => C.wordedAll values hvalues)
      (T.trace _ hvalues) fun _ _ => ?_
    exact T.bind (G.upholds_callForeign hcall (fun C => C.code hcode) hvalues true p)
      (T.foreign name values true p hvalues) fun _ _ => T.ok _
  | construct p c args =>
    rw [eval, evalWith]
    refine T.evalTrace_bind G _ ?_
    exact T.bind (evalAll_upholds G hcall hs args (G.constructArgs hcode))
      (evalAll_tracks T G hcall d hs args (G.constructArgs hcode)) fun _ _ => T.lift _
  | caseOf p scrutinee arms =>
    rw [eval, evalWith]
    refine T.evalTrace_bind G _ ?_
    refine T.bind (eval_upholds G hcall hs scrutinee (G.scrutinee hcode))
      (eval_tracks T G hcall d hs scrutinee (G.scrutinee hcode)) fun v hv => ?_
    dsimp only
    cases hc : Case.compile E.caseTable arms with
    | error f => exact T.error .uncompiledCase
    | ok c =>
      dsimp only
      cases hselect : c.select? v with
      | some choice =>
        obtain ⟨index, bindings⟩ := choice
        have harm : Case.ArmMatches E.caseTable arms v index bindings :=
          Case.armMatches_of_select? hc hselect
        refine T.bind (G.upholds_trace (.chosen v index) fun C => C.worded v hv) (T.trace _ hv)
          fun _ _ => ?_
        -- The arm runs with the names that its pattern has bound.
        refine evalArm_tracks T G hcall d (hs.bindAll (harm.kept hv)) index arms ?_
        intro q pattern body hbody
        rw [Scope.binds_bindAll]
        exact G.arm hcode v hv index bindings harm q pattern body hbody
      | none =>
        refine T.bind (P := fun _ => True) ?_ (T.lift _) fun _ _ => T.error _
        exact G.upholds_lift (fun _ _ => trivial) (.of_wording v.wording_caseLabel)
          fun C => C.worded v hv
  | letIn p name value body t =>
    obtain ⟨hvalue, hbody⟩ := G.letIn hcode
    rw [eval, evalWith]
    refine T.evalTrace_bind G _ ?_
    refine T.bind (eval_upholds G hcall hs value hvalue) (eval_tracks T G hcall d hs value hvalue)
      fun v hv => ?_
    refine T.bind (G.upholds_check fun C => C.code hcode) (T.lift _) fun _ _ => ?_
    rw [← Scope.binds_bind name v] at hbody
    have hinner : (Scope.bind name v scope).Kept D := ⟨hv, hs⟩
    exact eval_tracks T G hcall d hinner body hbody
  | seq p first rest =>
    obtain ⟨hfirst, hrest⟩ := G.seq hcode
    rw [eval, evalWith]
    refine T.evalTrace_bind G _ ?_
    exact T.bind (eval_upholds G hcall hs first hfirst) (eval_tracks T G hcall d hs first hfirst)
      fun _ _ => eval_tracks T G hcall d hs rest hrest
  | lambda p params body =>
    rw [eval, evalWith]
    exact T.evalTrace_bind G _ (T.ok _)
  | block p declarations body =>
    rw [eval, evalWith]
    refine T.evalTrace_bind G _ ?_
    refine T.bind (G.upholds_announce hcode) (T.announce G hcode) fun fs hfs => ?_
    obtain ⟨hfunctions, hbody⟩ := G.block hcode hfs
    rw [← Scope.binds_functions fs scope] at hfunctions hbody
    have hinner : (Scope.functions fs scope).Kept D := ⟨hfunctions, hs⟩
    exact eval_tracks T G hcall d hinner body hbody
  | _ =>
    unfold eval evalWith
    exact T.evalTrace_bind G _ (T.error _)

theorem evalAll_tracks (T : Tracks D F state E call O R) (G : Governs D F state E)
    (hcall : call.Keeps D F state) (d : Nat) {scope : Scope} (hs : scope.Kept D) (ns : List Node)
    (hcode : ∀ n ∈ ns, D.Code scope.Binds n) :
    R (evalAll E call scope ns) (evalAllWith { E with detail := d } O scope ns) := by
  cases ns with
  | nil =>
    rw [evalAll, evalAllWith]
    exact T.ok []
  | cons n ns =>
    rw [evalAll, evalAllWith]
    have hn := hcode n List.mem_cons_self
    have hns : ∀ m ∈ ns, D.Code scope.Binds m := fun m hm => hcode m (List.mem_cons_of_mem _ hm)
    refine T.bind (eval_upholds G hcall hs n hn) (eval_tracks T G hcall d hs n hn) fun v _ => ?_
    exact T.bind (evalAll_upholds G hcall hs ns hns) (evalAll_tracks T G hcall d hs ns hns)
      fun vs _ => T.ok (v :: vs)

theorem evalArm_tracks (T : Tracks D F state E call O R) (G : Governs D F state E)
    (hcall : call.Keeps D F state) (d : Nat) {scope : Scope} (hs : scope.Kept D) (index : Nat)
    (arms : List Node) (hcode : ∀ q pattern body, arms[index]? = some (.arm q pattern body) →
      D.Code scope.Binds body) :
    R (evalArm E call scope index arms)
      (evalArmWith { E with detail := d } O scope index arms) := by
  cases arms with
  | nil =>
    rw [evalArm, evalArmWith]
    exact T.error _
  | cons n rest =>
    cases index with
    | zero =>
      cases n with
      | arm q pattern body =>
        rw [evalArm, evalArmWith]
        exact eval_tracks T G hcall d hs body (hcode q pattern body rfl)
      | _ =>
        rw [evalArm, evalArmWith]
        · exact T.error _
        all_goals simp
    | succ index =>
      rw [evalArm, evalArmWith]
      exact evalArm_tracks T G hcall d hs index rest hcode

end

/-- **It also holds of a call**, of any value. -/
theorem callOnce_tracks (T : Tracks D F state E call O R) (G : Governs D F state E)
    (hcall : call.Keeps D F state) (d depth : Nat) {f : Value} (hf : f.Kept D) {args : List Value}
    (hargs : Value.KeptAll D args) (p : Option Position) :
    R (callOnce E call depth f args p)
      (callOnceWith { E with detail := d } O depth f args p) := by
  cases f with
  | closure function scope =>
    obtain ⟨hcode, hs⟩ := hf
    unfold callOnce callOnceWith
    dsimp only
    split
    · next hlength =>
      refine T.bind (G.upholds_checkParams hcode.1) (T.lift _) fun _ _ => ?_
      refine T.bind
        (G.upholds_trace (.call depth function.name args) fun C => C.wordedAll args hargs)
        (T.trace _ hargs) fun _ _ => ?_
      have hbindings : ∀ b ∈ function.params.zip args, b.2.Kept D := fun b hb =>
        Value.keptAll_iff.1 hargs b.2 (List.of_mem_zip hb).2
      refine eval_tracks T G hcall d (hs.bindAll hbindings) _ ?_
      rw [Scope.binds_bindAll, List.map_fst_zip (Nat.le_of_eq hlength.symm)]
      exact hcode.2
    · exact T.error _
  | _ => exact T.error _

end Engine

/-! ## The discipline that lets everything through -/

/-- **No promise at all.** -/
def anything : Discipline where
  Code _ _ := True
  Data _ _ := True

mutual

theorem Value.kept_anything : (v : Value) → v.Kept anything
  | .data _ fs => ⟨trivial, Value.keptAll_anything fs⟩
  | .closure _ s => ⟨⟨trivial, trivial⟩, Scope.kept_anything s⟩
  | .int _ => trivial
  | .real _ => trivial
  | .bool _ => trivial
  | .char _ => trivial
  | .unit => trivial

theorem Value.keptAll_anything : (vs : List Value) → Value.KeptAll anything vs
  | [] => trivial
  | v :: vs => ⟨Value.kept_anything v, Value.keptAll_anything vs⟩

theorem Scope.kept_anything : (s : Scope) → s.Kept anything
  | .empty => trivial
  | .bind _ v s => ⟨Value.kept_anything v, Scope.kept_anything s⟩
  | .functions _ s => ⟨fun _ _ => ⟨trivial, trivial⟩, Scope.kept_anything s⟩

end

theorem HostResult.kept_anything (r : HostResult) : r.Kept anything := by
  cases r with
  | value v => exact v.kept_anything
  | _ => trivial

theorem Action.keeps_anything (a : Action σ) :
    a.Keeps anything (fun _ => True) (fun _ => True) := by
  induction a with
  | done s r => exact ⟨trivial, r.kept_anything⟩
  | fail s f => exact ⟨trivial, trivial⟩
  | call s f args next ih =>
    exact ⟨trivial, f.kept_anything, Value.keptAll_anything args, fun t o _ _ _ => ih t o⟩

theorem Journal.kept_anything (j : Journal σ) : j.Kept anything fun _ => True :=
  ⟨trivial, fun e _ => Value.keptAll_anything e.args⟩

theorem Engine.Caller.keeps_anything (call : Engine.Caller σ) :
    call.Keeps anything (fun _ => True) (fun _ => True) := fun _ _ _ _ _ _ _ =>
  ⟨Journal.kept_anything _, fun v _ => v.kept_anything, fun _ _ => trivial⟩

theorem governs_anything (E : Engine σ) : Governs anything (fun _ => True) (fun _ => True) E where
  fails _ _ := trivial
  checked := .inr fun _ _ => trivial
  var _ := .inr fun _ => trivial
  callee _ := .inl trivial
  callArgs _ _ _ := trivial
  intrinsicArgs _ _ _ := trivial
  directiveArgs _ _ _ := trivial
  constructArgs _ _ _ := trivial
  scrutinee _ := trivial
  arm _ _ _ _ _ _ _ _ _ _ := trivial
  letIn _ := ⟨trivial, trivial⟩
  seq _ := ⟨trivial, trivial⟩
  lambda _ := ⟨trivial, trivial⟩
  block _ _ := ⟨fun _ _ => ⟨trivial, trivial⟩, trivial⟩
  data _ _ _ := ⟨trivial, trivial⟩
  native _ _ _ _ _ _ := Action.keeps_anything _
  intrinsic _ _ _ r _ := r.kept_anything

namespace Engine

/-- **Evaluation over the operations of a run is evaluation.** -/
theorem evalWith_operations (E : Engine σ) (call : Caller σ) (scope : Scope) (n : Node) :
    evalWith E (E.operations call) scope n = eval E call scope n := by
  have T : Tracks anything (fun _ => True) (fun _ => True) E call (E.operations call)
      (fun m m' => m' = m) := {
    pure := fun _ => rfl
    bind := by
      rintro α β P m m' f f' hm rfl hf
      funext j
      have hok := (hm j (Journal.kept_anything j)).2.1
      show (m' >>= f').run j = (m' >>= f).run j
      rw [run_bind_eq, run_bind_eq]
      rcases hrun : m'.run j with ⟨e | a, j'⟩
      · rfl
      · rw [hrun] at hok
        dsimp only
        rw [hf a (hok a rfl)]
    lift := fun _ => rfl
    trace := fun _ _ => rfl
    foreign := fun _ _ _ _ _ => rfl
    call := fun _ _ _ _ _ => rfl
    functions := fun _ _ _ => trivial }
  exact eval_tracks T (governs_anything E) call.keeps_anything E.detail scope.kept_anything n
    trivial

theorem callOnceWith_operations (E : Engine σ) (call : Caller σ) (depth : Nat) :
    callOnceWith E (E.operations call) depth = callOnce E call depth := by
  funext f args p
  unfold callOnceWith callOnce
  simp only [evalWith_operations]
  rfl

end Engine

end EmberLang
