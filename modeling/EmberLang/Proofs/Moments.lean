import EmberLang.Proofs.Loading
import Mathlib.Logic.Relation

/-!
# The moments of a run

Evaluation is a function from a scope and an expression to an outcome, and
the outcome does not tell in which scopes the parts of the expression were
evaluated, let alone the bodies of the closures that were called. To speak
about these scopes, a run is looked at as a tree of evaluations. A
*moment* is what an evaluation begins with, and `Engine.Enters` says which
evaluations one evaluation begins by itself: those of its parts, each
after what is evaluated before it has had a result, and those of the
bodies of the closures that it calls or that the host calls back.

The moments of a run are all that can be reached like this from the body
of the program. What one step keeps, `Engine.Enters.kept`, all of them
keep: `Moment.kept_of_reaches`.
-/

namespace EmberLang

variable {σ α : Type}

/-- **A moment of a run**: an expression is about to be evaluated. -/
structure Moment (σ : Type) where
  /-- How many more calls may be nested. -/
  limit : Nat
  /-- Below how many other calls it stands. -/
  depth : Nat
  /-- Where its names have their values. -/
  scope : Scope
  /-- The expression. -/
  node : Node
  /-- What has happened so far. -/
  journal : Journal σ

/-- A computation has a result, and leaves the journal like this. -/
def Run.Yields (m : Run σ α) (j : Journal σ) (a : α) (j' : Journal σ) : Prop :=
  m.run j = (.ok a, j')

/-- The arguments of a node that has any. -/
def Node.args? : Node → Option (List Node)
  | call _ _ args => some args
  | intrinsicCall _ _ args => some args
  | directiveCall _ _ args => some args
  | construct _ _ args => some args
  | _ => none

/-- **An action of the host comes to a call**, of `f` with `args`, when the
journal is the last one. The calls before it have had their outcomes. -/
inductive Action.Calls (call : Value → List Value → Run σ Value) :
    Action σ → Journal σ → Value → List Value → Journal σ → Prop
  /-- The call it begins with. -/
  | now {s f args next j} : Calls call (.call s f args next) j f args { j with host := s }
  /-- A call that it comes to after the first. -/
  | later {s f args next j outcome j₁ g as j₂}
      (first : (call f args).run { j with host := s } = (outcome, j₁))
      (rest : Calls call (next j₁.host outcome) j₁ g as j₂) :
      Calls call (.call s f args next) j g as j₂

namespace Engine

/-- **A call begins the evaluation of a body**, in the scope of the closure
with its parameters bound. -/
inductive Starts (E : Engine σ) : Nat → Nat → Value → List Value → Journal σ → Moment σ → Prop
  | body {limit depth f scope args j j'} (arity : args.length = f.params.length)
      (before : Run.Yields (do
        Run.lift (f.params.forM Name.check)
        E.trace (.call depth f.name args)) j () j') :
      Starts E (limit + 1) depth (.closure f scope) args j
        ⟨limit, depth + 1, scope.bindAll (f.params.zip args), f.body, j'⟩

/-- **A foreign call begins the evaluation of a body**, because the host
calls a closure back. -/
inductive CallsBack (E : Engine σ) (limit depth : Nat) (name : Name) (args : List Value)
    (directive : Bool) (p : Option Position) : Journal σ → Moment σ → Prop
  | back {native f as j j₁ m} (found : Native.resolve E.natives E.externs name args p = .ok native)
      (calls : (native.run j.host args).Calls (fun f as => E.callAt limit depth f as none)
        { j with
          effects := j.effects.push ⟨native.name, args, directive⟩
          observed := j.observed.push ⟨native.name, args, directive⟩ } f as j₁)
      (starts : E.Starts limit depth f as j₁ m) :
      CallsBack E limit depth name args directive p j m

/-- **One evaluation begins another.** All evaluations before that one have
had their results. -/
inductive Enters (E : Engine σ) : Moment σ → Moment σ → Prop
  /-- The evaluation of an argument. -/
  | arg {l d s n j j₀ j' before a after values} (args : n.args? = some (before ++ a :: after))
      (begun : Run.Yields (E.trace (.eval n)) j () j₀)
      (earlier : Run.Yields (E.evalAll (E.callAt l d) s before) j₀ values j') :
      Enters E ⟨l, d, s, n, j⟩ ⟨l, d, s, a, j'⟩
  /-- The evaluation of a callee that is not foreign. -/
  | callee {l d s p c args j j₀ j' values}
      (begun : Run.Yields (E.trace (.eval (.call p c args))) j () j₀)
      (earlier : Run.Yields (E.evalAll (E.callAt l d) s args) j₀ values j')
      (ours : E.foreignName? s c = .ok none) :
      Enters E ⟨l, d, s, .call p c args, j⟩ ⟨l, d, s, c, j'⟩
  /-- A call. -/
  | call {l d s p c args j j₀ j₁ j₂ values f m}
      (begun : Run.Yields (E.trace (.eval (.call p c args))) j () j₀)
      (earlier : Run.Yields (E.evalAll (E.callAt l d) s args) j₀ values j₁)
      (ours : E.foreignName? s c = .ok none)
      (callee : Run.Yields (E.eval (E.callAt l d) s c) j₁ f j₂)
      (starts : E.Starts l d f values j₂ m) :
      Enters E ⟨l, d, s, .call p c args, j⟩ m
  /-- A foreign call. -/
  | foreign {l d s p c args j j₀ j₁ j₂ values name m}
      (begun : Run.Yields (E.trace (.eval (.call p c args))) j () j₀)
      (earlier : Run.Yields (E.evalAll (E.callAt l d) s args) j₀ values j₁)
      (theirs : E.foreignName? s c = .ok (some name))
      (told : Run.Yields (E.trace (.foreignCall name values)) j₁ () j₂)
      (back : E.CallsBack l d name values false p j₂ m) :
      Enters E ⟨l, d, s, .call p c args, j⟩ m
  /-- A directive. -/
  | directive {l d s p name args j j₀ j₁ j₂ values m}
      (begun : Run.Yields (E.trace (.eval (.directiveCall p name args))) j () j₀)
      (earlier : Run.Yields (E.evalAll (E.callAt l d) s args) j₀ values j₁)
      (told : Run.Yields (E.trace (.directive name values)) j₁ () j₂)
      (back : E.CallsBack l d name values true p j₂ m) :
      Enters E ⟨l, d, s, .directiveCall p name args, j⟩ m
  /-- The evaluation of what a case looks at. -/
  | scrutinee {l d s p c arms j j₀}
      (begun : Run.Yields (E.trace (.eval (.caseOf p c arms))) j () j₀) :
      Enters E ⟨l, d, s, .caseOf p c arms, j⟩ ⟨l, d, s, c, j₀⟩
  /-- The evaluation of the arm that was chosen. -/
  | arm {l d s p c arms j j₀ j₁ j₂ v compiled i bindings q pattern body}
      (begun : Run.Yields (E.trace (.eval (.caseOf p c arms))) j () j₀)
      (scrutinee : Run.Yields (E.eval (E.callAt l d) s c) j₀ v j₁)
      (compiles : Case.compile E.caseTable arms = .ok compiled)
      (chosen : compiled.select? v = some (i, bindings))
      (told : Run.Yields (E.trace (.chosen v i)) j₁ () j₂)
      (found : arms[i]? = some (.arm q pattern body)) :
      Enters E ⟨l, d, s, .caseOf p c arms, j⟩ ⟨l, d, s.bindAll bindings, body, j₂⟩
  /-- The evaluation of what a local definition defines. -/
  | letValue {l d s p x e b t j j₀}
      (begun : Run.Yields (E.trace (.eval (.letIn p x e b t))) j () j₀) :
      Enters E ⟨l, d, s, .letIn p x e b t, j⟩ ⟨l, d, s, e, j₀⟩
  /-- The evaluation of what it is defined for. -/
  | letBody {l d s p x e b t j j₀ j₁ v}
      (begun : Run.Yields (E.trace (.eval (.letIn p x e b t))) j () j₀)
      (value : Run.Yields (E.eval (E.callAt l d) s e) j₀ v j₁) (named : x.check = .ok ()) :
      Enters E ⟨l, d, s, .letIn p x e b t, j⟩ ⟨l, d, .bind x v s, b, j₁⟩
  /-- The evaluation of the first expression of a sequence. -/
  | seqFirst {l d s p e b j j₀} (begun : Run.Yields (E.trace (.eval (.seq p e b))) j () j₀) :
      Enters E ⟨l, d, s, .seq p e b, j⟩ ⟨l, d, s, e, j₀⟩
  /-- The evaluation of the rest. -/
  | seqRest {l d s p e b j j₀ j₁ v} (begun : Run.Yields (E.trace (.eval (.seq p e b))) j () j₀)
      (first : Run.Yields (E.eval (E.callAt l d) s e) j₀ v j₁) :
      Enters E ⟨l, d, s, .seq p e b, j⟩ ⟨l, d, s, b, j₁⟩
  /-- The evaluation of the body of a block. -/
  | block {l d s p ds b j j₀ j₁ fs} (begun : Run.Yields (E.trace (.eval (.block p ds b))) j () j₀)
      (declared : Run.Yields (E.announce ds) j₀ fs j₁) :
      Enters E ⟨l, d, s, .block p ds b, j⟩ ⟨l, d, .functions fs s, b, j₁⟩

end Engine

/-! ## What all moments of a run keep -/

variable {D : Discipline} {F : Failure → Prop} {state : σ → Prop} {E : Engine σ}

theorem Upholds.of_yields {K : Journal σ → Prop} {P : α → Prop} {m : Run σ α}
    (h : Upholds K F P m) {j j' : Journal σ} {a : α} (hj : K j) (hm : Run.Yields m j a j') :
    K j' ∧ P a := by
  obtain ⟨hj', hok, -⟩ := h j hj
  rw [hm] at hj' hok
  exact ⟨hj', hok a rfl⟩

/-- **A moment is kept** if its scope and its journal are and its
expression may run there. -/
structure Moment.Kept (D : Discipline) (state : σ → Prop) (m : Moment σ) : Prop where
  /-- The scope. -/
  scope : m.scope.Kept D
  /-- The expression. -/
  code : D.Code m.scope.Binds m.node
  /-- The journal. -/
  journal : m.journal.Kept D state

/-- The host keeps what it is given in the calls that it comes to. -/
theorem Action.Calls.kept {call : Value → List Value → Run σ Value}
    (hcall : ∀ f args, f.Kept D → Value.KeptAll D args →
      Upholds (Journal.Kept D state) F (Value.Kept D) (call f args))
    {action : Action σ} {j j' : Journal σ} {f : Value} {args : List Value}
    (h : action.Calls call j f args j') (ha : action.Keeps D F state)
    (hj : j.Kept D state) : f.Kept D ∧ Value.KeptAll D args ∧ j'.Kept D state := by
  induction h with
  | now =>
    obtain ⟨hs, hf, hargs, -⟩ := ha
    exact ⟨hf, hargs, hs, hj.effects⟩
  | @later s _ _ _ j _ _ _ _ _ first rest ih =>
    obtain ⟨hs, hf, hargs, hnext⟩ := ha
    have hset : Journal.Kept D state { j with host := s } := ⟨hs, hj.effects⟩
    obtain ⟨hj₁, hok, herror⟩ := hcall _ _ hf hargs _ hset
    rw [first] at hj₁ hok herror
    exact ih (hnext _ _ hj₁.host hok herror) hj₁

namespace Engine

theorem Starts.kept (G : Governs D F state E) {limit depth : Nat} {f : Value} {args : List Value}
    {j : Journal σ} {m : Moment σ} (h : E.Starts limit depth f args j m) (hf : f.Kept D)
    (hargs : Value.KeptAll D args) (hj : j.Kept D state) : m.Kept D state := by
  obtain ⟨arity, before⟩ := h
  obtain ⟨⟨hparams, hcode⟩, hs⟩ := hf
  refine ⟨?_, ?_, ?_⟩
  · exact hs.bindAll fun b hb => Value.keptAll_iff.1 hargs b.2 (List.of_mem_zip hb).2
  · show D.Code (Scope.bindAll _ _).Binds _
    rw [Scope.binds_bindAll, List.map_fst_zip (Nat.le_of_eq arity.symm)]
    exact hcode
  · exact ((G.upholds_beforeBody hparams hargs).of_yields hj before).1

theorem CallsBack.kept (G : Governs D F state E) {limit depth : Nat} {name : Name}
    {args : List Value} {directive : Bool} {p : Option Position} {j : Journal σ} {m : Moment σ}
    (h : E.CallsBack limit depth name args directive p j m) (hargs : Value.KeptAll D args)
    (hj : j.Kept D state) : m.Kept D state := by
  obtain ⟨found, calls, starts⟩ := h
  have hnative := G.native _ (Native.mem_of_resolve found) j.host args hj.host hargs
  obtain ⟨hf, has, hj₁⟩ := calls.kept (fun f as => callAt_keeps G limit depth f as none) hnative
    (hj.record hargs)
  exact starts.kept G hf has hj₁

/-- **What an evaluation keeps, the evaluations that it begins keep**, if
the discipline counts callees among the expressions. -/
theorem Enters.kept (G : Governs D F state E)
    (hcallee : ∀ {Γ p c args}, D.Code Γ (.call p c args) → D.Code Γ c) {m m' : Moment σ}
    (h : E.Enters m m') (hm : m.Kept D state) : m'.Kept D state := by
  obtain ⟨l, d, s, n, j⟩ := m
  obtain ⟨hs, hcode, hj⟩ := hm
  -- What holds after the message that begins an evaluation, after arguments,
  -- and after one expression.
  have hbegun {n : Node} {j₀ : Journal σ} (hy : Run.Yields (E.trace (.eval n)) j () j₀) :
      j₀.Kept D state := ((G.upholds_evalTrace n).of_yields hj hy).1
  have hargs {args : List Node} {j₀ j₁ : Journal σ} {values : List Value}
      (hargs : ∀ a ∈ args, D.Code s.Binds a) (hj₀ : j₀.Kept D state)
      (hy : Run.Yields (E.evalAll (E.callAt l d) s args) j₀ values j₁) :=
    (evalAll_upholds G (callAt_keeps G l d) hs args hargs).of_yields hj₀ hy
  have hvalue {n : Node} {j₀ j₁ : Journal σ} {v : Value} (hn : D.Code s.Binds n)
      (hj₀ : j₀.Kept D state) (hy : Run.Yields (E.eval (E.callAt l d) s n) j₀ v j₁) :=
    (eval_upholds G (callAt_keeps G l d) hs n hn).of_yields hj₀ hy
  cases h with
  | arg args begun earlier =>
    rename_i before a after values
    have hall : ∀ b ∈ before ++ a :: after, D.Code s.Binds b := by
      unfold Node.args? at args
      split at args <;> cases args
      · exact G.callArgs hcode
      · exact G.intrinsicArgs hcode
      · exact G.directiveArgs hcode
      · exact G.constructArgs hcode
    have hbefore : ∀ b ∈ before, D.Code s.Binds b := fun b hb => hall b (List.mem_append_left _ hb)
    exact ⟨hs, hall a (by simp), (hargs hbefore (hbegun begun) earlier).1⟩
  | callee begun earlier ours =>
    exact ⟨hs, hcallee hcode, (hargs (G.callArgs hcode) (hbegun begun) earlier).1⟩
  | call begun earlier ours callee starts =>
    obtain ⟨hj₁, hvalues⟩ := hargs (G.callArgs hcode) (hbegun begun) earlier
    obtain ⟨hj₂, hf⟩ := hvalue (hcallee hcode) hj₁ callee
    exact starts.kept G hf hvalues hj₂
  | foreign begun earlier theirs told back =>
    obtain ⟨hj₁, hvalues⟩ := hargs (G.callArgs hcode) (hbegun begun) earlier
    obtain ⟨hj₂, -⟩ := (G.upholds_trace (.foreignCall _ _)
      fun C => C.wordedAll _ hvalues).of_yields hj₁ told
    exact back.kept G hvalues hj₂
  | directive begun earlier told back =>
    obtain ⟨hj₁, hvalues⟩ := hargs (G.directiveArgs hcode) (hbegun begun) earlier
    obtain ⟨hj₂, -⟩ := (G.upholds_trace (.directive _ _)
      fun C => C.wordedAll _ hvalues).of_yields hj₁ told
    exact back.kept G hvalues hj₂
  | scrutinee begun => exact ⟨hs, G.scrutinee hcode, hbegun begun⟩
  | arm begun scrutinee compiles chosen told found =>
    obtain ⟨hj₁, hv⟩ := hvalue (G.scrutinee hcode) (hbegun begun) scrutinee
    obtain ⟨hj₂, -⟩ := (G.upholds_trace (.chosen _ _) fun C => C.worded _ hv).of_yields hj₁ told
    have harm := Case.armMatches_of_select? compiles chosen
    refine ⟨hs.bindAll (harm.kept hv), ?_, hj₂⟩
    show D.Code (Scope.bindAll _ _).Binds _
    rw [Scope.binds_bindAll]
    exact G.arm hcode _ hv _ _ harm _ _ _ found
  | letValue begun => exact ⟨hs, (G.letIn hcode).1, hbegun begun⟩
  | letBody begun value named =>
    obtain ⟨hj₁, hv⟩ := hvalue (G.letIn hcode).1 (hbegun begun) value
    refine ⟨⟨hv, hs⟩, ?_, hj₁⟩
    show D.Code (Scope.bind _ _ _).Binds _
    rw [Scope.binds_bind]
    exact (G.letIn hcode).2
  | seqFirst begun => exact ⟨hs, (G.seq hcode).1, hbegun begun⟩
  | seqRest begun first =>
    exact ⟨hs, (G.seq hcode).2, (hvalue (G.seq hcode).1 (hbegun begun) first).1⟩
  | block begun declared =>
    obtain ⟨hj₁, hfs⟩ := (G.upholds_announce hcode).of_yields (hbegun begun) declared
    obtain ⟨hfunctions, hbody⟩ := G.block hcode hfs
    rw [← Scope.binds_functions] at hfunctions hbody
    exact ⟨⟨hfunctions, hs⟩, hbody, hj₁⟩

end Engine

namespace Moment

/-- **One moment leads to another** through evaluations that begin each
other. -/
def Reaches (E : Engine σ) : Moment σ → Moment σ → Prop := Relation.ReflTransGen E.Enters

/-- **What a moment keeps, all moments keep that it leads to.** -/
theorem kept_of_reaches (G : Governs D F state E)
    (hcallee : ∀ {Γ p c args}, D.Code Γ (.call p c args) → D.Code Γ c) {m m' : Moment σ}
    (h : m.Reaches E m') (hm : m.Kept D state) : m'.Kept D state := by
  induction h with
  | refl => exact hm
  | tail _ hstep ih => exact hstep.kept G hcallee ih

end Moment

namespace Session

/-- **The moments of a run**: those that the body of the program leads to
once it is loaded. -/
def Visits (root : Node) (I : Interpreter σ) (m : Moment σ) : Prop :=
  ∃ I' p ds body, I.perform (load root) = (.ok (), I') ∧ root = .program p ds body ∧
    Moment.Reaches I'.engine ⟨I'.runDepth, 0, I'.globals, body, I'.journal⟩ m

end Session

end EmberLang
