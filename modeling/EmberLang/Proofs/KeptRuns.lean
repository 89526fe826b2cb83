import EmberLang.Proofs.Discipline

/-!
# Evaluation under a discipline

The induction that `Discipline` prepares. Evaluation follows the
expression, and a call leads to the body of a closure with one call less
to go; so there is one lemma for each step of the evaluator, one induction
over expressions with any caller that keeps what it is given, and one over
the number of calls.
-/

namespace EmberLang

variable {σ : Type} {D : Discipline} {F : Failure → Prop} {state : σ → Prop} {E : Engine σ}

/-! ## Actions of the host -/

/-- **What a host does with kept values**, along its calls. -/
theorem Action.upholds_perform {call : Value → List Value → Run σ Value}
    (hcall : ∀ f args, f.Kept D → Value.KeptAll D args →
      Upholds (Journal.Kept D state) F (Value.Kept D) (call f args))
    (action : Action σ) (ha : action.Keeps D F state) :
    Upholds (Journal.Kept D state) F (HostResult.Kept D) (action.perform call) := by
  have hset : ∀ s, state s →
      Upholds (Journal.Kept D state) F (fun _ => True) (Run.setHost s : Run σ Unit) :=
    fun s hs => Upholds.modify fun j hj => ⟨hs, hj.effects⟩
  induction action with
  | done s r =>
    rw [Action.perform]
    exact (hset s ha.1).andThen fun _ => Upholds.pure ha.2
  | fail s f =>
    rw [Action.perform]
    exact (hset s ha.1).andThen fun _ => Upholds.throw ha.2
  | call s callee args next ih =>
    obtain ⟨hs, hcallee, hargs, hnext⟩ := ha
    rw [Action.perform]
    refine (hset s hs).andThen fun _ => ?_
    refine (Run.upholds_attempt (hcall callee args hcallee hargs)).bind ?_
    rintro outcome ⟨hok, herror⟩
    refine Run.upholds_host.bind ?_
    rintro s' ⟨j, hj, rfl⟩
    exact ih j.host outcome (hnext j.host outcome hj.host hok herror)

/-! ## Steps that keep no journal -/

theorem Native.fails_resolve (natives : List (Native σ)) (externs : List (Name × Nat))
    (name : Name) (args : List Value) (p : Option Position) :
    FailsIfChecked name.IsWord (resolve natives externs name args p) := by
  refine name.fails_check.bind fun _ _ => ?_
  dsimp only
  split
  · exact .error ⟨rfl, fun _ => rfl⟩
  · split
    · exact .error ⟨rfl, fun _ => rfl⟩
    · split
      · exact .error ⟨rfl, fun _ => rfl⟩
      · split
        · exact .ok _
        · exact .error ⟨rfl, fun _ => rfl⟩

namespace IntrinsicTable

theorem fails_operands (name : String) (kind : LiteralKind) (p : Option Position) :
    ∀ (index : Nat) (vs : List Value), FailsIfChecked True (operands name kind p index vs)
  | _, [] => .ok _
  | index, v :: vs => by
    unfold operands
    dsimp only
    split
    · split
      · exact (fails_operands name kind p (index + 1) vs).bind fun _ _ => .ok _
      · exact .error ⟨rfl, fun _ => rfl⟩
    · exact .error ⟨rfl, fun _ => rfl⟩

/-- **The operands of an intrinsic** are as many as its arguments, and all
of its kind. -/
theorem operands_ok {name : String} {kind : LiteralKind} {p : Option Position} {index : Nat}
    {vs : List Value} {ls : List Literal} (h : operands name kind p index vs = .ok ls) :
    ls.length = vs.length ∧ ∀ l ∈ ls, l.kind = kind := by
  induction vs generalizing index ls with
  | nil =>
    obtain rfl := Except.ok.inj h
    exact ⟨rfl, List.forall_mem_nil _⟩
  | cons v vs ih =>
    unfold operands at h
    dsimp only at h
    split at h
    · split at h
      · next hkind =>
        obtain ⟨rest, hrest, h⟩ := bind_eq_ok h
        obtain rfl := Except.ok.inj h
        obtain ⟨hlength, hkinds⟩ := ih hrest
        exact ⟨congrArg Nat.succ hlength, List.forall_mem_cons.2 ⟨hkind, hkinds⟩⟩
      · cases h
    · cases h

/-- How an intrinsic fails: if it is known and total, and a host that is
asked gives back only what can be worded, then in ordinary ways. -/
theorem fails_applyNamed (t : IntrinsicTable) (op : Name) (args : List Value)
    (p : Option Position) :
    FailsIfChecked (t.knows op = true ∧ ∀ i ∈ t.entries, i.IsTotal ∧
        ∀ operands r, i.compute operands = .result r → r.Worded)
      (t.applyNamed op args p) := by
  unfold applyNamed
  split
  · next name =>
    unfold apply
    split
    · next hget =>
      refine .error ⟨rfl, fun h => ?_⟩
      have hknown : (t.get? name).isSome = true := h.1
      rw [hget] at hknown
      cases hknown
    · next i hi =>
      have hmem : i ∈ t.entries := List.mem_of_find?_eq_some hi
      split
      · next hlength =>
        refine ((fails_operands _ _ p 0 args).mono fun _ => trivial).bind fun ls hls => ?_
        obtain ⟨hcount, hkinds⟩ := operands_ok hls
        split
        · next r hr => exact (r.fails_toValue _ p).mono fun h => (h.2 i hmem).2 ls r hr
        · exact .error ⟨rfl, fun _ => rfl⟩
        · next fault hfault =>
          refine .error ⟨rfl, fun h => ?_⟩
          exact absurd hfault ((h.2 i hmem).1 ls (hcount.trans hlength) hkinds fault)
      · exact .error ⟨rfl, fun _ => rfl⟩
  · next datum =>
    refine ((Name.fails_check _).mono fun h => absurd h.1 (by simp [knows])).bind fun _ _ => ?_
    exact .error ⟨rfl, fun h => absurd h.1 (by simp [knows])⟩

/-- What an intrinsic gives is kept if all intrinsics give what is
kept. -/
theorem kept_applyNamed {t : IntrinsicTable} (h : ∀ i ∈ t.entries, i.Keeps D) {op : Name}
    {args : List Value} {p : Option Position} {v : Value}
    (hv : t.applyNamed op args p = .ok v) : v.Kept D := by
  unfold applyNamed at hv
  split at hv
  · unfold apply at hv
    split at hv
    · cases hv
    · next i hi =>
      split at hv
      · obtain ⟨operands, _, hv⟩ := bind_eq_ok hv
        split at hv
        · next r hr =>
          exact (h i (List.mem_of_find?_eq_some hi) operands r hr).toValue hv
        · cases hv
        · cases hv
      · cases hv
  · obtain ⟨_, _, hv⟩ := bind_eq_ok hv
    cases hv

end IntrinsicTable

namespace ConstructorTable

theorem fails_lookup (t : ConstructorTable) (name : Name) (p : Option Position) :
    FailsIfChecked (name.IsWord ∧ t.contains name = true) (t.lookup name p) := by
  refine (name.fails_check.mono fun h => h.1).bind fun _ _ => ?_
  split
  · exact .ok _
  · next hnone => exact .error ⟨rfl, fun h => absurd h.2 (by simp [contains, hnone])⟩

theorem get?_congr (t : ConstructorTable) {m n : Name} (h : m.same n = true) :
    t.get? m = t.get? n := by
  unfold get?
  congr 1
  exact funext fun c => Name.same_congr h c.name

/-- A constructor is found by its own name. -/
theorem get?_name (t : ConstructorTable) {name : Name} {c : Constructor}
    (h : t.get? name = some c) : t.get? c.name = some c := by
  rw [← h]
  exact t.get?_congr (by simpa using List.find?_some h)

theorem get?_of_lookup {t : ConstructorTable} {name : Name} {p : Option Position}
    {c : Constructor} (h : t.lookup name p = .ok c) : t.get? name = some c := by
  obtain ⟨_, _, h⟩ := bind_eq_ok h
  split at h
  · next d hd =>
    obtain rfl : d = c := Except.ok.inj h
    exact hd
  · cases h

theorem fails_construct (t : ConstructorTable) (name : Name) (fields : List Value)
    (p : Option Position) :
    FailsIfChecked (name.IsWord ∧ t.contains name = true) (t.construct name fields p) := by
  refine (t.fails_lookup name p).bind fun c _ => ?_
  split
  · exact .ok _
  · exact .error ⟨rfl, fun _ => rfl⟩

/-- **What is built has as many fields as its constructor takes.** -/
theorem construct_eq_ok {t : ConstructorTable} {name : Name} {fields : List Value}
    {p : Option Position} {v : Value} (h : t.construct name fields p = .ok v) :
    ∃ c, t.get? name = some c ∧ fields.length = c.arity
      ∧ v = .data (if fields.isEmpty then c.name else name) fields := by
  obtain ⟨c, hc, h⟩ := bind_eq_ok h
  split at h
  · next hlength =>
    exact ⟨c, get?_of_lookup hc, hlength, (Except.ok.inj h).symm⟩
  · cases h

end ConstructorTable

namespace Node

theorem notUnbound_paramNames : ∀ ns : List Node, NotUnbound (paramNames ns)
  | [] => .ok _
  | n :: ns => by
    unfold paramNames
    split
    · exact (notUnbound_paramNames ns).bind fun _ _ => .ok _
    · exact .error rfl

theorem notUnbound_declaredFunctions (ds : List Node) : NotUnbound (declaredFunctions ds).2 := by
  fun_induction declaredFunctions ds with
  | case1 => exact .ok _
  | case2 p name tps params body r rest names hnames fs outcome hrest ih =>
    rw [hrest] at ih
    exact ih
  | case3 p name tps params body r rest f hf =>
    exact .error (notUnbound_paramNames params f hf)
  | case4 n rest hn ih => exact ih

/-- The failure of a declaration that is not well formed, if there is
one. -/
theorem fails_declaredFunctions (ds : List Node) :
    FailsIfChecked ((declaredFunctions ds).2 = .ok ()) (declaredFunctions ds).2 := fun f hf =>
  ⟨notUnbound_declaredFunctions ds f hf, fun h => by cases hf.symm.trans h⟩

end Node

/-! ## Steps of a run -/

namespace Governs

variable (G : Governs D F state E)

include G

/-- **How a step fails**, if its code has been checked whenever all code
has been. -/
theorem failsOnly {α : Type} {checked : Prop} {m : Except Failure α}
    (h : FailsIfChecked checked m) (hchecked : D.Checked E → checked) : FailsOnly F m := by
  refine FailsOnly.mono h fun f hf => ?_
  rcases G.checked with C | hall
  · exact G.fails f (hf.2 (hchecked C))
  · exact hall f hf.1

/-- A failure that a check rules out. -/
theorem fails_unchecked {f : Failure} (hf : f.isUnbound = false) (hnot : ¬ D.Checked E) : F f := by
  rcases G.checked with C | hall
  · exact absurd C hnot
  · exact hall f hf

theorem upholds_trace (m : Message) (hm : D.Checked E → m.Worded) :
    Upholds (Journal.Kept D state) F (fun _ => True) (E.trace m) :=
  Run.upholds_trace (fun _ _ hj => ⟨hj.host, hj.effects⟩)
    (G.failsOnly (.of_wording m.wording_text) hm)

/-- The message that a node is about to be evaluated. -/
theorem upholds_evalTrace (n : Node) :
    Upholds (Journal.Kept D state) F (fun _ => True) (E.trace (.eval n)) :=
  G.upholds_trace (.eval n) fun _ => trivial

/-- A step that keeps no journal. -/
theorem upholds_lift {α : Type} {P : α → Prop} {checked : Prop} {m : Except Failure α}
    (hok : ∀ a, m = .ok a → P a) (h : FailsIfChecked checked m)
    (hchecked : D.Checked E → checked) :
    Upholds (Journal.Kept D state) F P (Run.lift m : Run σ α) :=
  Run.upholds_lift hok (G.failsOnly h hchecked)

theorem upholds_check {name : Name} (hname : D.Checked E → name.IsWord) :
    Upholds (Journal.Kept D state) F (fun _ => True) (Run.lift name.check : Run σ Unit) :=
  G.upholds_lift (fun _ _ => trivial) name.fails_check hname

theorem upholds_get {scope : Scope} (hs : scope.Kept D) {name : Name} (p : Option Position)
    (hword : D.Checked E → name.IsWord)
    (hname : scope.Binds name ∨ ∀ q, F (.of (.unboundVariable name.text) q)) :
    Upholds (Journal.Kept D state) F (Value.Kept D) (Run.lift (scope.get name p)) := by
  refine Run.upholds_lift (fun v hv => ?_) ?_
  · obtain ⟨_, _, hv⟩ := bind_eq_ok hv
    split at hv
    · next w hw =>
      obtain rfl : w = v := Except.ok.inj hv
      exact hs.lookup? hw
    · cases hv
  · refine FailsOnly.bind (G.failsOnly name.fails_check hword) fun _ _ => ?_
    split
    · exact .ok _
    · next hnone =>
      refine .error ?_
      rcases hname with hbound | hallowed
      · exact absurd hbound (by simp [Scope.Binds, Scope.isBound, hnone])
      · exact hallowed p

theorem upholds_evalVar (call : Engine.Caller σ) {scope : Scope} (hs : scope.Kept D) {name : Name}
    (p : Option Position) (hword : D.Checked E → name.IsWord)
    (hname : scope.Binds name ∨ ∀ q, F (.of (.unboundVariable name.text) q)) :
    Upholds (Journal.Kept D state) F (Value.Kept D) (E.eval call scope (.var p name)) := by
  unfold Engine.eval
  exact (G.upholds_evalTrace _).andThen fun _ => G.upholds_get hs p hword hname

theorem upholds_checkParams {names : List Name} (hnames : D.Params names) :
    Upholds (Journal.Kept D state) F (fun _ => True)
      (Run.lift (names.forM Name.check) : Run σ Unit) :=
  G.upholds_lift (fun _ _ => trivial) (.forM fun n hn => n.fails_check.mono fun h => h n hn)
    fun C => C.params hnames

/-- What a call does before the body is evaluated. -/
theorem upholds_beforeBody {names : List Name} (hnames : D.Params names) {args : List Value}
    (hargs : Value.KeptAll D args) {depth : Nat} {name : Name} :
    Upholds (Journal.Kept D state) F (fun _ => True) (do
      Run.lift (names.forM Name.check)
      E.trace (.call depth name args) : Run σ Unit) := by
  refine (G.upholds_checkParams hnames).andThen fun _ => ?_
  exact G.upholds_trace (.call depth name args) fun C => C.wordedAll args hargs

/-! ## Foreign calls and intrinsics -/

theorem upholds_callForeign {call : Engine.Caller σ}
    (hcall : ∀ f args p, f.Kept D → Value.KeptAll D args →
      Upholds (Journal.Kept D state) F (Value.Kept D) (call f args p))
    {name : Name} (hname : D.Checked E → name.IsWord) {args : List Value}
    (hargs : Value.KeptAll D args) (directive : Bool) (p : Option Position) :
    Upholds (Journal.Kept D state) F (Value.Kept D) (E.callForeign call name args directive p) := by
  unfold Engine.callForeign
  refine (G.upholds_lift (P := fun native => native.Keeps D F state) ?_
    (Native.fails_resolve _ _ name args p) hname).bind ?_
  · exact fun native h => G.native native (Native.mem_of_resolve h)
  intro native hnative
  refine Upholds.andThen (Upholds.modify fun j hj => hj.record hargs) fun _ => ?_
  refine Run.upholds_host.bind ?_
  rintro s ⟨j, hj, rfl⟩
  refine (Action.upholds_perform (fun f as => hcall f as none) _
    (hnative j.host args hj.host hargs)).bind fun r hr => ?_
  exact G.upholds_lift (fun v hv => hr.toValue hv) (r.fails_toValue native.name p)
    fun C => C.worded_result hr

theorem upholds_applyNamed {op : Name} (hop : D.Checked E → E.intrinsics.knows op = true)
    (args : List Value) (p : Option Position) :
    Upholds (Journal.Kept D state) F (Value.Kept D)
      (Run.lift (E.intrinsics.applyNamed op args p)) := by
  refine G.upholds_lift (fun _ hv => IntrinsicTable.kept_applyNamed G.intrinsic hv)
    (E.intrinsics.fails_applyNamed op args p) fun C => ⟨hop C, fun i hi => ⟨C.intrinsics i hi, ?_⟩⟩
  exact fun operands r hr => C.worded_result (G.intrinsic i hi operands r hr)

theorem upholds_construct {Γ : Name → Prop} {p : Option Position} {c : Name} {args : List Node}
    (hcode : D.Code Γ (.construct p c args)) {values : List Value}
    (hvalues : Value.KeptAll D values) :
    Upholds (Journal.Kept D state) F (Value.Kept D) (Run.lift (E.table.construct c values p)) := by
  refine G.upholds_lift (fun v hv => ?_) (E.table.fails_construct c values p) fun C => C.code hcode
  obtain ⟨known, hknown, hlength, rfl⟩ := ConstructorTable.construct_eq_ok hv
  obtain ⟨hgiven, hdeclared⟩ := G.data hcode known hknown
  refine ⟨?_, hvalues⟩
  rw [hlength]
  split
  · exact hdeclared
  · exact hgiven

/-- **Whether a callee is foreign.** A declared name that is not is hidden
by a variable. -/
theorem upholds_foreignName? (scope : Scope) {callee : Node}
    (hword : D.Checked E → ∀ q name, callee = .var q name → name.IsWord) :
    Upholds (Journal.Kept D state) F
      (fun name? => (∀ name, name? = some name → ∃ q, callee = .var q name) ∧
        ∀ q name, callee = .var q name → name? = none →
          E.externs.any (·.1.same name) = true → scope.Binds name)
      (Run.lift (E.foreignName? scope callee)) := by
  cases callee with
  | var q name =>
    refine G.upholds_lift ?_ (name.fails_check.bind fun _ _ => .ok _) fun C => hword C q name rfl
    intro name? h
    obtain ⟨_, _, h⟩ := bind_eq_ok h
    obtain rfl := Except.ok.inj h
    split
    · exact ⟨by rintro name' ⟨⟩; exact ⟨q, rfl⟩, by rintro q' name' - ⟨⟩⟩
    · next hnot =>
      refine ⟨by rintro name' ⟨⟩, ?_⟩
      rintro q' name' ⟨⟩ - hextern
      unfold Scope.Binds
      by_contra hbound
      exact hnot (by simp [hbound, hextern])
  | _ =>
    refine Run.upholds_lift ?_ (by rintro f ⟨⟩)
    rintro name? ⟨⟩
    exact ⟨by rintro name' ⟨⟩, by rintro q' name' ⟨⟩⟩

theorem upholds_announce {Γ : Name → Prop} {p : Option Position} {ds : List Node} {body : Node}
    (hcode : D.Code Γ (.block p ds body)) :
    Upholds (Journal.Kept D state) F (fun fs => Node.declaredFunctions ds = (fs, .ok ()))
      (E.announce ds) := by
  unfold Engine.announce
  refine (Upholds.forM fun f hf => G.upholds_trace (.function f) fun C => ?_).andThen fun _ => ?_
  · exact C.params ((G.block hcode (Prod.ext rfl (C.code hcode))).1 f hf).1
  refine (G.upholds_lift (P := fun _ => (Node.declaredFunctions ds).2 = .ok ()) (fun _ h => h)
    (Node.fails_declaredFunctions ds) fun C => C.code hcode).bind fun _ h => ?_
  exact Upholds.pure (Prod.ext rfl h)

end Governs

/-! ## Evaluation -/

/-- **A way to call values keeps what it is given.** -/
def Engine.Caller.Keeps (D : Discipline) (F : Failure → Prop) (state : σ → Prop)
    (call : Engine.Caller σ) : Prop :=
  ∀ f args p, f.Kept D → Value.KeptAll D args →
    Upholds (Journal.Kept D state) F (Value.Kept D) (call f args p)

namespace Engine

mutual

/-- **Evaluation in a kept scope keeps the discipline.** -/
theorem eval_upholds (G : Governs D F state E) {call : Caller σ} (hcall : call.Keeps D F state)
    {scope : Scope} (hs : scope.Kept D) (n : Node) (hcode : D.Code scope.Binds n) :
    Upholds (Journal.Kept D state) F (Value.Kept D) (eval E call scope n) := by
  cases n with
  | literal p v =>
    unfold eval
    exact (G.upholds_evalTrace _).andThen fun _ => Upholds.pure v.kept_value
  | unit p =>
    unfold eval
    exact (G.upholds_evalTrace _).andThen fun _ => Upholds.pure trivial
  | var p name => exact G.upholds_evalVar call hs p (fun C => C.code hcode) (G.var hcode)
  | call p callee args =>
    unfold eval
    refine (G.upholds_evalTrace _).andThen fun _ => ?_
    refine (evalAll_upholds G hcall hs args (G.callArgs hcode)).bind fun values hvalues => ?_
    have hword : D.Checked E → ∀ q name, callee = .var q name → name.IsWord :=
      fun C => C.code hcode
    refine (G.upholds_foreignName? scope hword).bind fun name? ⟨hforeign, hhidden⟩ => ?_
    cases name? with
    | some name =>
      obtain ⟨q, hq⟩ := hforeign name rfl
      refine (G.upholds_trace (.foreignCall name values)
        fun C => C.wordedAll values hvalues).andThen fun _ => ?_
      exact G.upholds_callForeign hcall (fun C => hword C q name hq) hvalues false p
    | none =>
      have hf : Upholds (Journal.Kept D state) F (Value.Kept D) (eval E call scope callee) := by
        rcases G.callee hcode with hcallee | ⟨q, name, rfl, hextern⟩
        · exact eval_upholds G hcall hs callee hcallee
        · -- A declared name that is not foreign here is hidden by a variable.
          exact G.upholds_evalVar call hs q (fun C => hword C q name rfl)
            (.inl (hhidden q name rfl rfl hextern))
      exact hf.bind fun f hf => hcall f values p hf hvalues
  | intrinsicCall p op args =>
    unfold eval
    refine (G.upholds_evalTrace _).andThen fun _ => ?_
    refine (evalAll_upholds G hcall hs args (G.intrinsicArgs hcode)).bind fun values hvalues => ?_
    exact G.upholds_applyNamed (fun C => C.code hcode) values p
  | directiveCall p name args =>
    unfold eval
    refine (G.upholds_evalTrace _).andThen fun _ => ?_
    refine (evalAll_upholds G hcall hs args (G.directiveArgs hcode)).bind fun values hvalues => ?_
    refine (G.upholds_trace (.directive name values)
      fun C => C.wordedAll values hvalues).andThen fun _ => ?_
    exact (G.upholds_callForeign hcall (fun C => C.code hcode) hvalues true p).bind
      fun _ _ => Upholds.pure trivial
  | construct p c args =>
    unfold eval
    refine (G.upholds_evalTrace _).andThen fun _ => ?_
    refine (evalAll_upholds G hcall hs args (G.constructArgs hcode)).bind fun values hvalues => ?_
    exact G.upholds_construct hcode hvalues
  | caseOf p scrutinee arms =>
    unfold eval
    refine (G.upholds_evalTrace _).andThen fun _ => ?_
    refine (eval_upholds G hcall hs scrutinee (G.scrutinee hcode)).bind fun v hv => ?_
    split
    · next f hf =>
      refine Upholds.throw (G.fails_unchecked rfl fun C => ?_)
      obtain ⟨c, hc⟩ := C.code hcode
      cases hf.symm.trans hc
    · next c hc =>
      split
      · next index bindings hselect =>
        have harm : Case.ArmMatches E.caseTable arms v index bindings :=
          Case.armMatches_of_select? hc hselect
        have hexists : ∃ q pattern body, arms[index]? = some (.arm q pattern body) := by
          obtain ⟨q, pattern, body, -, -, hbody, -, -⟩ := harm
          exact ⟨q, pattern, body, hbody⟩
        refine (G.upholds_trace (.chosen v index) fun C => C.worded v hv).andThen fun _ => ?_
        refine evalArm_upholds G hcall (hs.bindAll (harm.kept hv)) index arms hexists ?_
        intro q pattern body hbody
        rw [Scope.binds_bindAll]
        exact G.arm hcode v hv index bindings harm q pattern body hbody
      · refine (G.upholds_lift (fun _ _ => trivial) (.of_wording v.wording_caseLabel)
          fun C => C.worded v hv).andThen ?_
        exact fun _ => Upholds.throw (G.fails _ rfl)
  | letIn p name value body t =>
    obtain ⟨hvalue, hbody⟩ := G.letIn hcode
    unfold eval
    refine (G.upholds_evalTrace _).andThen fun _ => ?_
    refine (eval_upholds G hcall hs value hvalue).bind fun v hv => ?_
    refine (G.upholds_check fun C => C.code hcode).andThen fun _ => ?_
    rw [← Scope.binds_bind name v] at hbody
    have hinner : (Scope.bind name v scope).Kept D := ⟨hv, hs⟩
    exact eval_upholds G hcall hinner body hbody
  | seq p first rest =>
    obtain ⟨hfirst, hrest⟩ := G.seq hcode
    unfold eval
    refine (G.upholds_evalTrace _).andThen fun _ => ?_
    exact (eval_upholds G hcall hs first hfirst).bind fun _ _ => eval_upholds G hcall hs rest hrest
  | lambda p params body =>
    unfold eval
    exact (G.upholds_evalTrace _).andThen fun _ => Upholds.pure ⟨G.lambda hcode, hs⟩
  | block p declarations body =>
    unfold eval
    refine (G.upholds_evalTrace _).andThen fun _ => ?_
    refine (G.upholds_announce hcode).bind fun fs hfs => ?_
    obtain ⟨hfunctions, hbody⟩ := G.block hcode hfs
    rw [← Scope.binds_functions fs scope] at hfunctions hbody
    have hinner : (Scope.functions fs scope).Kept D := ⟨hfunctions, hs⟩
    exact eval_upholds G hcall hinner body hbody
  | _ =>
    -- There is no rule for any other node, so it has not been checked.
    unfold eval
    exact (G.upholds_evalTrace _).andThen fun _ =>
      Upholds.throw (G.fails_unchecked rfl fun C => C.code hcode)

theorem evalAll_upholds (G : Governs D F state E) {call : Caller σ} (hcall : call.Keeps D F state)
    {scope : Scope} (hs : scope.Kept D) (ns : List Node) (hcode : ∀ n ∈ ns, D.Code scope.Binds n) :
    Upholds (Journal.Kept D state) F (Value.KeptAll D) (evalAll E call scope ns) := by
  cases ns with
  | nil =>
    unfold evalAll
    exact Upholds.pure trivial
  | cons n ns =>
    unfold evalAll
    refine (eval_upholds G hcall hs n (hcode n List.mem_cons_self)).bind fun v hv => ?_
    refine (evalAll_upholds G hcall hs ns fun m hm => hcode m (List.mem_cons_of_mem _ hm)).bind
      fun vs hvs => ?_
    exact Upholds.pure ⟨hv, hvs⟩

theorem evalArm_upholds (G : Governs D F state E) {call : Caller σ} (hcall : call.Keeps D F state)
    {scope : Scope} (hs : scope.Kept D) (index : Nat) (arms : List Node)
    (harm : ∃ q pattern body, arms[index]? = some (.arm q pattern body))
    (hcode : ∀ q pattern body, arms[index]? = some (.arm q pattern body) →
      D.Code scope.Binds body) :
    Upholds (Journal.Kept D state) F (Value.Kept D) (evalArm E call scope index arms) := by
  cases arms with
  | nil => obtain ⟨_, _, _, ⟨⟩⟩ := harm
  | cons n rest =>
    cases index with
    | zero =>
      cases n with
      | arm q pattern body =>
        unfold evalArm
        exact eval_upholds G hcall hs body (hcode q pattern body rfl)
      | _ => obtain ⟨_, _, _, ⟨⟩⟩ := harm
    | succ index =>
      rw [evalArm]
      exact evalArm_upholds G hcall hs index rest harm hcode

end

/-- **Calls keep what they are given**, however many may be nested. -/
theorem callAt_keeps (G : Governs D F state E) :
    ∀ limit depth : Nat, (callAt E limit depth).Keeps D F state
  | 0, _ => fun _ _ _ _ _ => Upholds.throw (G.fails _ rfl)
  | limit + 1, depth => by
    intro f args p hf hargs
    cases f with
    | closure function scope =>
      obtain ⟨hcode, hs⟩ := hf
      unfold callAt
      dsimp only
      split
      · next hlength =>
        rw [← bind_assoc]
        refine (G.upholds_beforeBody hcode.1 hargs).andThen fun _ => ?_
        have hbindings : ∀ b ∈ function.params.zip args, b.2.Kept D := fun b hb =>
          Value.keptAll_iff.1 hargs b.2 (List.of_mem_zip hb).2
        refine eval_upholds G (callAt_keeps G limit (depth + 1)) (hs.bindAll hbindings) _ ?_
        rw [Scope.binds_bindAll, List.map_fst_zip (Nat.le_of_eq hlength.symm)]
        exact hcode.2
      · exact Upholds.throw (G.fails _ rfl)
    | _ => exact Upholds.throw (G.fails _ rfl)

end Engine

end EmberLang
