import EmberLang.Proofs.Faces
import EmberLang.Proofs.Upholds
import Mathlib.Data.List.Forall2

/-!
# Two runs side by side

Statements about two runs – of one program under two layouts, of two
orders of its declarations, in two scopes – have one form: from states
that correspond both runs lead to states that correspond, and both come to
results that correspond or both fail, with failures that correspond. Two
computations that do so *keep in step* (`InStep`), and the rules for this
take them apart along their binds, side by side.

What corresponds to what differs from statement to statement. A `Likeness`
says it for positions, failures, values, states of the host, and for
expressions in their scopes; `Simulates` asks what evaluation needs of it,
one condition for each form of expression: the parts of expressions that
correspond correspond, in the scopes that evaluation puts them in. This is
all, and `Engine.eval_inStep` and `Engine.callAt_inStep` are proved once
for every likeness.
-/

namespace EmberLang

variable {S α β γ δ : Type}

/-! ## Outcomes and computations -/

/-- **Two outcomes concur**: both are results, or both are failures, and
they correspond. -/
def Concur (F : Failure → Failure → Prop) (Q : α → β → Prop) :
    Except Failure α → Except Failure β → Prop
  | .ok a, .ok b => Q a b
  | .error f, .error g => F f g
  | _, _ => False

namespace Concur

variable {F : Failure → Failure → Prop} {P : α → β → Prop} {Q : γ → δ → Prop}

theorem refl {R : α → α → Prop} (hF : ∀ f, F f f) (hR : ∀ a, R a a) (o : Except Failure α) :
    Concur F R o o := by
  cases o with
  | ok a => exact hR a
  | error f => exact hF f

theorem mono {P' : α → β → Prop} {o : Except Failure α} {o' : Except Failure β}
    (h : Concur F P o o') (himp : ∀ a b, P a b → P' a b) : Concur F P' o o' := by
  cases o with
  | ok a =>
    cases o' with
    | ok b => exact himp a b h
    | error f => exact h
  | error f =>
    cases o' with
    | ok b => exact h
    | error g => exact h

/-- One step after another. -/
theorem bind {o : Except Failure α} {o' : Except Failure β} {k : α → Except Failure γ}
    {k' : β → Except Failure δ} (h : Concur F P o o')
    (hk : ∀ a b, P a b → Concur F Q (k a) (k' b)) : Concur F Q (o >>= k) (o' >>= k') := by
  cases o with
  | ok a =>
    cases o' with
    | ok b => exact hk a b h
    | error f => exact h.elim
  | error f =>
    cases o' with
    | ok b => exact h.elim
    | error g => exact h

/-- What is known of one result. -/
theorem and_left {R : α → Prop} {o : Except Failure α} {o' : Except Failure β}
    (h : Concur F P o o') (hR : ∀ a, o = .ok a → R a) :
    Concur F (fun a b => P a b ∧ R a) o o' := by
  cases o with
  | ok a =>
    cases o' with
    | ok b => exact ⟨h, hR a rfl⟩
    | error f => exact h
  | error f =>
    cases o' with
    | ok b => exact h
    | error g => exact h

theorem map_eq {f : α → γ} {g : β → γ} {o : Except Failure α} {o' : Except Failure β}
    (h : Concur Eq P o o') (hP : ∀ a b, P a b → g b = f a) : o'.map g = o.map f := by
  cases o with
  | ok a =>
    cases o' with
    | ok b => exact congrArg Except.ok (hP a b h)
    | error e => exact h.elim
  | error e =>
    cases o' with
    | ok b => exact h.elim
    | error e' => exact congrArg Except.error h.symm

end Concur

/-- **Two computations keep in step**: from states that correspond they
lead to states that correspond, and their outcomes concur. -/
def InStep (F : Failure → Failure → Prop) (J : S → S → Prop) (Q : α → β → Prop)
    (m : ExceptT Failure (StateM S) α) (m' : ExceptT Failure (StateM S) β) : Prop :=
  ∀ s s', J s s' → J (m.run s).2 (m'.run s').2 ∧ Concur F Q (m.run s).1 (m'.run s').1

namespace InStep

variable {F : Failure → Failure → Prop} {J : S → S → Prop} {P : α → β → Prop} {Q : γ → δ → Prop}

theorem pure {a : α} {b : β} (h : P a b) : InStep F J P (Pure.pure a) (Pure.pure b) :=
  fun _ _ hs => ⟨hs, h⟩

theorem throw {f g : Failure} (h : F f g) :
    InStep F J P (MonadExcept.throw f) (MonadExcept.throw g) :=
  fun _ _ hs => ⟨hs, h⟩

/-- **One step after another**, side by side. -/
theorem bind {m : ExceptT Failure (StateM S) α} {m' : ExceptT Failure (StateM S) β}
    {f : α → ExceptT Failure (StateM S) γ} {f' : β → ExceptT Failure (StateM S) δ}
    (hm : InStep F J P m m') (hf : ∀ a b, P a b → InStep F J Q (f a) (f' b)) :
    InStep F J Q (m >>= f) (m' >>= f') := by
  intro s s' hs
  obtain ⟨hstate, hconcur⟩ := hm s s' hs
  rw [run_bind_eq, run_bind_eq]
  rcases hrun : m.run s with ⟨e | a, t⟩ <;> rw [hrun] at hstate hconcur
  · rcases hrun' : m'.run s' with ⟨e' | b, t'⟩ <;> rw [hrun'] at hstate hconcur
    · exact ⟨hstate, hconcur⟩
    · exact hconcur.elim
  · rcases hrun' : m'.run s' with ⟨e' | b, t'⟩ <;> rw [hrun'] at hstate hconcur
    · exact hconcur.elim
    · exact hf a b hconcur t t' hstate

theorem mono {P' : α → β → Prop} {m : ExceptT Failure (StateM S) α}
    {m' : ExceptT Failure (StateM S) β} (hm : InStep F J P m m') (h : ∀ a b, P a b → P' a b) :
    InStep F J P' m m' :=
  fun s s' hs => ⟨(hm s s' hs).1, (hm s s' hs).2.mono h⟩

/-- The same steps for the items of two lists. -/
theorem forM {ι : Type} {R : ι → ι → Prop} {l l' : List ι}
    {f f' : ι → ExceptT Failure (StateM S) PUnit} (hl : List.Forall₂ R l l')
    (h : ∀ i i', R i i' → InStep F J (fun _ _ => True) (f i) (f' i')) :
    InStep F J (fun _ _ => True) (l.forM f) (l'.forM f') := by
  induction hl with
  | nil => exact pure trivial
  | cons hi _ ih => exact (h _ _ hi).bind fun _ _ _ => ih

theorem modify {g g' : S → S} (h : ∀ s s', J s s' → J (g s) (g' s')) :
    InStep F J (fun _ _ => True) (modify g : ExceptT Failure (StateM S) PUnit)
      (modify g' : ExceptT Failure (StateM S) PUnit) :=
  fun s s' hs => ⟨h s s' hs, trivial⟩

theorem get :
    InStep F J J (get : ExceptT Failure (StateM S) S) (get : ExceptT Failure (StateM S) S) :=
  fun _ _ hs => ⟨hs, hs⟩

end InStep

/-! ## Likenesses -/

/-- **A way for two runs to be alike**: what corresponds to what. -/
structure Likeness (σ : Type) where
  /-- Positions. -/
  place : Option Position → Option Position → Prop
  /-- Failures. -/
  failure : Failure → Failure → Prop
  /-- Values. -/
  value : Value → Value → Prop
  /-- Expressions, each in its scope. -/
  code : Scope → Node → Scope → Node → Prop
  /-- States of the host. -/
  host : σ → σ → Prop
  /-- Whether the traces are the same. -/
  traced : Prop

namespace Likeness

variable {σ : Type} (L : Likeness σ)

/-- Foreign calls that correspond. -/
structure Effects (e e' : Effect) : Prop where
  /-- The same function is called. -/
  name : e'.name = e.name
  /-- The arguments correspond. -/
  args : List.Forall₂ L.value e.args e'.args
  /-- Both stand as directives, or neither. -/
  directive : e'.directive = e.directive

/-- **Journals that correspond.** -/
structure Journals (j j' : Journal σ) : Prop where
  /-- The states of the host correspond. -/
  host : L.host j.host j'.host
  /-- So do the foreign calls. -/
  effects : List.Forall₂ L.Effects j.effects.toList j'.effects.toList
  /-- And those that the observer was told of. -/
  observed : List.Forall₂ L.Effects j.observed.toList j'.observed.toList
  /-- The traces are the same, if that is asked for. -/
  trace : L.traced → j'.trace = j.trace

/-- Results of the host that correspond. -/
def Results : HostResult → HostResult → Prop
  | .value v, .value v' => L.value v v'
  | r, r' => r'.face = r.face

/-- **Actions of the host that correspond**: they end in corresponding
ways, or call values that correspond and go on in corresponding ways from
all outcomes that concur. -/
def Actions : Action σ → Action σ → Prop
  | .done s r, .done s' r' => L.host s s' ∧ L.Results r r'
  | .fail s f, .fail s' f' => L.host s s' ∧ L.failure f f'
  | .call s f args next, .call s' f' args' next' =>
    L.host s s' ∧ L.value f f' ∧ List.Forall₂ L.value args args'
      ∧ ∀ t t' o o', L.host t t' → Concur L.failure L.value o o' →
        Actions (next t o) (next' t' o')
  | _, _ => False

/-- **A function of the host respects a likeness** if it takes
corresponding actions on arguments and in states that correspond. -/
def Respects (n : Native σ) : Prop :=
  ∀ s s' args args', L.host s s' → List.Forall₂ L.value args args' →
    L.Actions (n.run s args) (n.run s' args')

/-- Two runs with results that correspond. -/
abbrev Runs (Q : α → β → Prop) (m : Run σ α) (m' : Run σ β) : Prop :=
  InStep L.failure L.Journals Q m m'

/-- Bindings of the same names to values that correspond. -/
def Bindings (bs bs' : List (Name × Value)) : Prop :=
  List.Forall₂ (fun b b' => b'.1 = b.1 ∧ L.value b.2 b'.2) bs bs'

/-- Parameters with arguments that correspond. -/
theorem bindings_zip (names : List Name) {vs vs' : List Value} (h : List.Forall₂ L.value vs vs') :
    L.Bindings (names.zip vs) (names.zip vs') := by
  induction h generalizing names with
  | nil =>
    rw [List.zip_nil_right]
    exact .nil
  | cons hv _ ih =>
    cases names with
    | nil => exact .nil
    | cons n names => exact .cons ⟨rfl, hv⟩ (ih names)

/-- Two ways to call a value that keep in step. -/
def Callers (call call' : Engine.Caller σ) : Prop :=
  ∀ f f' args args' p p', L.value f f' → List.Forall₂ L.value args args' → L.place p p' →
    L.Runs L.value (call f args p) (call' f' args' p')

/-- **The arms of two cases correspond**: both cases compile or neither
does, and on values that correspond they choose the same arms, whose bodies
correspond. -/
def Arms (E E' : Engine σ) (s : Scope) (arms : List Node) (s' : Scope) (arms' : List Node) :
    Prop :=
  (∃ f f', Case.compile E.caseTable arms = .error f ∧ Case.compile E'.caseTable arms' = .error f')
    ∨ ∃ c c', Case.compile E.caseTable arms = .ok c ∧ Case.compile E'.caseTable arms' = .ok c'
      ∧ ∀ v v', L.value v v' → (c.select? v = none ∧ c'.select? v' = none)
        ∨ ∃ i b b', c.select? v = some (i, b) ∧ c'.select? v' = some (i, b')
          ∧ ∃ q pattern body q' pattern' body', arms[i]? = some (.arm q pattern body)
            ∧ arms'[i]? = some (.arm q' pattern' body')
            ∧ L.code (s.bindAll b) body (s'.bindAll b') body'

end Likeness

/-! ## Choosing an arm

Values that look the same and have fields that correspond match the same
patterns, and bind the same names to parts that correspond. -/

section Choice

variable {σ : Type} {L : Likeness σ}

mutual

theorem Node.matchPattern_rel (hface : ∀ v v', L.value v v' → v'.face = v.face)
    (hfields : ∀ c c' fs fs', L.value (.data c fs) (.data c' fs') → List.Forall₂ L.value fs fs')
    {bs bs' : List (Name × Value)} (hbs : L.Bindings bs bs') (n : Node) {v v' : Value}
    (hv : L.value v v') :
    Option.Rel L.Bindings (matchPattern bs n v) (matchPattern bs' n v') := by
  cases n with
  | patternWild p => exact .some hbs
  | patternVar p name => exact .some (List.rel_append hbs (.cons ⟨rfl, hv⟩ .nil))
  | patternLit p l =>
    rw [matchPattern, matchPattern, ← v'.literal?_face, hface v v' hv, v.literal?_face]
    split
    · split
      · exact .some hbs
      · exact .none
    · exact .none
  | patternCtor p c args =>
    have hsame := hface v v' hv
    cases v with
    | data d fs =>
      cases v' with
      | data d' fs' =>
        obtain ⟨rfl, -⟩ := Value.data.inj hsame
        rw [matchPattern, matchPattern]
        split
        · exact matchPatterns_rel hface hfields hbs args (hfields _ _ fs fs' hv)
        · exact .none
      | _ => cases hsame
    | _ =>
      cases v' with
      | data d' fs' => cases hsame
      | _ => exact .none
  | _ => exact .none

theorem Node.matchPatterns_rel (hface : ∀ v v', L.value v v' → v'.face = v.face)
    (hfields : ∀ c c' fs fs', L.value (.data c fs) (.data c' fs') → List.Forall₂ L.value fs fs')
    {bs bs' : List (Name × Value)} (hbs : L.Bindings bs bs') (ns : List Node)
    {vs vs' : List Value} (hvs : List.Forall₂ L.value vs vs') :
    Option.Rel L.Bindings (matchPatterns bs ns vs) (matchPatterns bs' ns vs') := by
  cases ns with
  | nil => exact .some hbs
  | cons n ns =>
    cases hvs with
    | nil => exact .some hbs
    | cons hv hvs =>
      rw [matchPatterns, matchPatterns]
      have hhead := matchPattern_rel hface hfields hbs n hv
      revert hhead
      generalize matchPattern bs n _ = r
      generalize matchPattern bs' n _ = r'
      rintro (hbs' | _)
      · exact matchPatterns_rel hface hfields hbs' ns hvs
      · exact .none

end

/-- **A case chooses alike among values that correspond**: no arm for
either, or the same one, with bindings that correspond. -/
theorem Case.select?_rel (hface : ∀ v v', L.value v v' → v'.face = v.face)
    (hfields : ∀ c c' fs fs', L.value (.data c fs) (.data c' fs') → List.Forall₂ L.value fs fs')
    (c : Case) {v v' : Value} (hv : L.value v v') :
    (c.select? v = none ∧ c.select? v' = none)
      ∨ ∃ i b b', c.select? v = some (i, b) ∧ c.select? v' = some (i, b') ∧ L.Bindings b b' := by
  have hattempt : ∀ i, (c.attempt? v i = none ∧ c.attempt? v' i = none)
      ∨ ∃ b b', c.attempt? v i = some (i, b) ∧ c.attempt? v' i = some (i, b')
        ∧ L.Bindings b b' := by
    intro i
    unfold attempt?
    cases c.arms[i]? with
    | none => exact .inl ⟨rfl, rfl⟩
    | some arm =>
      have hmatch := Node.matchPattern_rel hface hfields (L := L) .nil arm.pattern hv
      dsimp only [Option.bind_eq_bind, Option.bind_some]
      revert hmatch
      generalize arm.pattern.matchPattern [] v = r
      generalize arm.pattern.matchPattern [] v' = r'
      rintro (hbs | _)
      · exact .inr ⟨_, _, rfl, rfl, hbs⟩
      · exact .inl ⟨rfl, rfl⟩
  -- The tag of a value is seen from outside, so both have the same candidates.
  unfold select? candidates
  rw [← v'.tag_face, hface v v' hv, v.tag_face]
  induction c.dispatch.candidates v.tag with
  | nil => exact .inl ⟨rfl, rfl⟩
  | cons i is ih =>
    rw [List.findSome?_cons, List.findSome?_cons]
    rcases hattempt i with ⟨hr, hr'⟩ | ⟨b, b', hr, hr', hbs⟩
    · rw [hr, hr']
      exact ih
    · rw [hr, hr']
      exact .inr ⟨i, b, b', rfl, rfl, hbs⟩

end Choice

namespace Engine

/-- Whether evaluation has a rule for a node. -/
def hasRule : Node → Bool
  | .literal .. | .unit _ | .var .. | .call .. | .intrinsicCall .. | .directiveCall ..
  | .construct .. | .caseOf .. | .letIn .. | .seq .. | .lambda .. | .block .. => true
  | _ => false

end Engine

/-- **Two engines simulate each other** under a likeness: what evaluation
needs to keep in step. -/
structure Simulates {σ : Type} (L : Likeness σ) (E E' : Engine σ) : Prop where
  /-- A failure corresponds to itself. -/
  failure_refl : ∀ f, L.failure f f
  /-- An error corresponds to the same error at a place that corresponds. -/
  failure_of : ∀ {p p'}, L.place p p' → ∀ c, L.failure (.of c p) (.of c p')
  /-- So does no place to no place. -/
  place_none : L.place none none
  /-- A constant corresponds to itself. -/
  constant : ∀ l : Literal, L.value l.value l.value
  /-- So does the unit value. -/
  unitValue : L.value .unit .unit
  /-- And what an intrinsic computes. -/
  computed : ∀ i ∈ E.intrinsics.entries, ∀ ls r, i.compute ls = .result r → L.Results r r
  /-- Values that correspond look the same. -/
  face : ∀ {v v'}, L.value v v' → v'.face = v.face
  /-- Data that are built correspond if their fields do. -/
  data : ∀ {c d k fs fs'}, E.table.get? c = some k → k.arity = fs.length →
    d = c ∨ d = k.name → List.Forall₂ L.value fs fs' → L.value (.data d fs) (.data d fs')
  /-- The bodies of closures that correspond do, once they are called. -/
  closure : ∀ {f s f' s'}, L.value (.closure f s) (.closure f' s') → ∀ args args',
    args.length = f.params.length → List.Forall₂ L.value args args' →
      L.code (s.bindAll (f.params.zip args)) f.body (s'.bindAll (f'.params.zip args')) f'.body
  /-- The functions of the host are the same. -/
  natives : E'.natives = E.natives
  /-- They respect the likeness. -/
  respects : ∀ n ∈ E.natives, L.Respects n
  /-- The intrinsics are the same. -/
  intrinsics : E'.intrinsics = E.intrinsics
  /-- The traces are equally detailed. -/
  detail : E'.detail = E.detail
  /-- The same foreign functions are declared. -/
  externs : ∀ name : Name, (E'.externs.find? (·.1.same name)).map (·.2)
    = (E.externs.find? (·.1.same name)).map (·.2)
  /-- A literal. -/
  literal : ∀ {s p v s' n'}, L.code s (.literal p v) s' n' → ∃ p', n' = .literal p' v
  /-- The unit value. -/
  unit : ∀ {s p s' n'}, L.code s (.unit p) s' n' → ∃ p', n' = .unit p'
  /-- A variable. -/
  var : ∀ {s p x s' n'}, L.code s (.var p x) s' n' → ∃ p', n' = .var p' x
    ∧ Concur L.failure L.value (s.get x p) (s'.get x p')
  /-- A call. -/
  call : ∀ {s p callee args s' n'}, L.code s (.call p callee args) s' n' →
    ∃ p' callee' args', n' = .call p' callee' args' ∧ L.place p p' ∧ L.code s callee s' callee'
      ∧ List.Forall₂ (fun a a' => L.code s a s' a') args args'
      ∧ E'.foreignName? s' callee' = E.foreignName? s callee
  /-- An intrinsic. -/
  intrinsicCall : ∀ {s p op args s' n'}, L.code s (.intrinsicCall p op args) s' n' →
    ∃ p' args', n' = .intrinsicCall p' op args' ∧ L.place p p'
      ∧ List.Forall₂ (fun a a' => L.code s a s' a') args args'
  /-- A directive. -/
  directiveCall : ∀ {s p name args s' n'}, L.code s (.directiveCall p name args) s' n' →
    ∃ p' args', n' = .directiveCall p' name args' ∧ L.place p p'
      ∧ List.Forall₂ (fun a a' => L.code s a s' a') args args'
  /-- A constructor. -/
  construct : ∀ {s p c args s' n'}, L.code s (.construct p c args) s' n' →
    ∃ p' args', n' = .construct p' c args' ∧ L.place p p'
      ∧ List.Forall₂ (fun a a' => L.code s a s' a') args args'
      ∧ E'.table.get? c = E.table.get? c
  /-- A case. -/
  caseOf : ∀ {s p scrutinee arms s' n'}, L.code s (.caseOf p scrutinee arms) s' n' →
    ∃ p' scrutinee' arms', n' = .caseOf p' scrutinee' arms' ∧ L.place p p'
      ∧ L.code s scrutinee s' scrutinee' ∧ L.Arms E E' s arms s' arms'
  /-- A local definition. -/
  letIn : ∀ {s p name value body t s' n'}, L.code s (.letIn p name value body t) s' n' →
    ∃ p' value' body' t', n' = .letIn p' name value' body' t' ∧ L.code s value s' value'
      ∧ ∀ v v', L.value v v' → L.code (.bind name v s) body (.bind name v' s') body'
  /-- A sequence. -/
  seq : ∀ {s p first rest s' n'}, L.code s (.seq p first rest) s' n' →
    ∃ p' first' rest', n' = .seq p' first' rest' ∧ L.code s first s' first'
      ∧ L.code s rest s' rest'
  /-- A function as an expression. -/
  lambda : ∀ {s p params body s' n'}, L.code s (.lambda p params body) s' n' →
    ∃ p' body', n' = .lambda p' params body'
      ∧ L.value (.closure ⟨"<fn>", params, body⟩ s) (.closure ⟨"<fn>", params, body'⟩ s')
  /-- A block. -/
  block : ∀ {s p ds body s' n'}, L.code s (.block p ds body) s' n' →
    ∃ p' ds' body', n' = .block p' ds' body'
      ∧ L.Runs (fun fs fs' => L.code (.functions fs s) body (.functions fs' s') body')
        (E.announce ds) (E'.announce ds')
  /-- What evaluation has no rule for. -/
  misplaced : ∀ {s n s' n'}, L.code s n s' n' → Engine.hasRule n = false →
    Engine.hasRule n' = false ∧ n'.className = n.className

/-! ## The steps of a run -/

namespace Likeness

variable {σ : Type} {L : Likeness σ} {Q : α → β → Prop}

theorem inStep_lift {o : Except Failure α} {o' : Except Failure β}
    (h : Concur L.failure Q o o') : L.Runs Q (Run.lift o) (Run.lift o') := by
  intro j j' hj
  rw [Run.run_lift, Run.run_lift]
  exact ⟨hj, h⟩

theorem inStep_host : L.Runs L.host Run.host Run.host := fun _ _ hj => ⟨hj, hj.host⟩

theorem inStep_setHost {s s' : σ} (h : L.host s s') :
    L.Runs (fun _ _ => True) (Run.setHost s) (Run.setHost s') :=
  .modify fun _ _ hj => ⟨h, hj.effects, hj.observed, hj.trace⟩

theorem inStep_record {e e' : Effect} (h : L.Effects e e') :
    L.Runs (fun _ _ => True) (Run.record e) (Run.record e') := by
  refine .modify fun j j' hj => ⟨hj.host, ?_, ?_, hj.trace⟩
  · rw [Array.toList_push, Array.toList_push]
    exact List.rel_append hj.effects (.cons h .nil)
  · rw [Array.toList_push, Array.toList_push]
    exact List.rel_append hj.observed (.cons h .nil)

theorem inStep_attempt {m : Run σ α} {m' : Run σ β} (h : L.Runs Q m m') :
    L.Runs (Concur L.failure Q) (Run.attempt m) (Run.attempt m') := by
  intro j j' hj
  rw [Run.run_attempt, Run.run_attempt]
  exact h j j' hj

/-- Two messages with the same text. -/
theorem inStep_trace (hrefl : ∀ f, L.failure f f) {E E' : Engine σ} (hdetail : E'.detail = E.detail)
    (m m' : Message) (hlevel : m'.level = m.level) (htext : m'.text = m.text) :
    L.Runs (fun _ _ => True) (E.trace m) (E'.trace m') := by
  unfold Engine.trace Run.trace
  rw [hdetail, hlevel, htext]
  split
  · have hsame := Concur.refl (R := Eq) hrefl (fun _ => rfl) m.text
    refine (inStep_lift hsame).bind fun text text' h => ?_
    subst h
    exact .modify fun j j' hj => ⟨hj.host, hj.effects, hj.observed, fun ht => by rw [hj.trace ht]⟩
  · exact .pure trivial

/-- Performed actions keep in step if they correspond, along their
calls. -/
theorem inStep_perform {call call' : Value → List Value → Run σ Value}
    (hcall : ∀ f f' args args', L.value f f' → List.Forall₂ L.value args args' →
      L.Runs L.value (call f args) (call' f' args'))
    (action action' : Action σ) (h : L.Actions action action') :
    L.Runs L.Results (action.perform call) (action'.perform call') := by
  induction action generalizing action' with
  | done s r =>
    cases action' with
    | done s' r' => exact (inStep_setHost h.1).bind fun _ _ _ => .pure h.2
    | fail s' f' => exact h.elim
    | call s' f' args' next' => exact h.elim
  | fail s f =>
    cases action' with
    | done s' r' => exact h.elim
    | fail s' f' => exact (inStep_setHost h.1).bind fun _ _ _ => .throw h.2
    | call s' f' args' next' => exact h.elim
  | call s f args next ih =>
    cases action' with
    | done s' r' => exact h.elim
    | fail s' f' => exact h.elim
    | call s' f' args' next' =>
      obtain ⟨hs, hf, hargs, hnext⟩ := h
      rw [Action.perform, Action.perform]
      refine (inStep_setHost hs).bind fun _ _ _ => ?_
      refine (inStep_attempt (hcall f f' args args' hf hargs)).bind fun o o' ho => ?_
      exact inStep_host.bind fun t t' ht => ih t o _ (hnext t t' o o' ht ho)

end Likeness

namespace Simulates

variable {σ : Type} {L : Likeness σ} {E E' : Engine σ} {call call' : Engine.Caller σ}

theorem faces (G : Simulates L E E') {vs vs' : List Value} (h : List.Forall₂ L.value vs vs') :
    Value.faces vs' = Value.faces vs := by
  induction h with
  | nil => rfl
  | cons hv _ ih => rw [Value.faces, Value.faces, G.face hv, ih]

/-- Values that correspond are worded alike. -/
theorem texts_eq (G : Simulates L E E') {vs vs' : List Value}
    (h : List.Forall₂ L.value vs vs') : Value.texts vs' = Value.texts vs := by
  rw [← Value.texts_faces vs', G.faces h, Value.texts_faces]

/-- The foreign calls of both sides look the same. -/
theorem map_face_effects (G : Simulates L E E') {es es' : Array Effect}
    (h : List.Forall₂ L.Effects es.toList es'.toList) :
    es'.map Effect.face = es.map Effect.face := by
  rw [← Array.toList_inj, Array.toList_map, Array.toList_map]
  generalize es.toList = l at h
  generalize es'.toList = l' at h
  induction h with
  | nil => rfl
  | cons he _ ih =>
    rw [List.map_cons, List.map_cons, ih]
    unfold Effect.face
    rw [he.name, he.directive, G.faces he.args]

/-- Two messages with the same text. -/
theorem inStep_trace (G : Simulates L E E') (m m' : Message) (hlevel : m'.level = m.level)
    (htext : m'.text = m.text) : L.Runs (fun _ _ => True) (E.trace m) (E'.trace m') :=
  Likeness.inStep_trace G.failure_refl G.detail m m' hlevel htext

/-- Two nodes of one kind are about to be evaluated. -/
theorem inStep_enter (G : Simulates L E E') (n n' : Node) (h : n'.className = n.className) :
    L.Runs (fun _ _ => True) (E.trace (.eval n)) (E'.trace (.eval n')) := by
  refine G.inStep_trace _ _ rfl ?_
  rw [Message.text, Message.text, h]

theorem concur_check (G : Simulates L E E') (name : Name) :
    Concur L.failure (fun _ _ => True) name.check name.check :=
  .refl G.failure_refl (fun _ => trivial) _

/-- The function behind a foreign call is the same on both sides. -/
theorem concur_resolve (G : Simulates L E E') (name : Name) {args args' : List Value}
    (hargs : List.Forall₂ L.value args args') {p p' : Option Position} (hp : L.place p p') :
    Concur L.failure (fun n n' => n' = n) (Native.resolve E.natives E.externs name args p)
      (Native.resolve E'.natives E'.externs name args' p') := by
  unfold Native.resolve
  refine (G.concur_check name).bind fun _ _ _ => ?_
  dsimp only
  have hexterns := G.externs name
  rw [G.natives, ← hargs.length_eq]
  cases he : E.externs.find? (·.1.same name) with
  | none =>
    cases he' : E'.externs.find? (·.1.same name) with
    | none => exact G.failure_of hp _
    | some e' =>
      rw [he, he'] at hexterns
      cases hexterns
  | some e =>
    cases he' : E'.externs.find? (·.1.same name) with
    | none =>
      rw [he, he'] at hexterns
      cases hexterns
    | some e' =>
      rw [he, he'] at hexterns
      have hdeclared : e'.2 = e.2 := Option.some.inj hexterns
      dsimp only
      rw [hdeclared]
      cases Native.find? E.natives name with
      | none => exact G.failure_of hp _
      | some native =>
        dsimp only
        cases native.arity?.filter (· ≠ e.2) with
        | some arity => exact G.failure_of hp _
        | none =>
          dsimp only
          split
          · exact rfl
          · exact G.failure_of hp _

/-- Results that correspond become values that do, or are refused
alike. -/
theorem concur_toValue (G : Simulates L E E') {r r' : HostResult} (h : L.Results r r')
    (native : String) {p p' : Option Position} (hp : L.place p p') :
    Concur L.failure L.value (r.toValue native p) (r'.toValue native p') := by
  have hrefuse {r r' : HostResult} (hface : r'.face = r.face) :
      Concur L.failure L.value (r.refuse native p) (r'.refuse native p') := by
    rw [← r'.refuse_face, hface, r.refuse_face]
    unfold HostResult.refuse
    refine (Concur.refl (R := Eq) G.failure_refl (fun _ => rfl) r.shown).bind fun s s' hs => ?_
    subst hs
    exact G.failure_of hp _
  cases r with
  | value v =>
    cases r' with
    | value v' => exact h
    | _ => cases h
  | list items =>
    cases r' with
    | list items' => exact hrefuse h
    | _ => cases h
  | text s =>
    cases r' with
    | text s' =>
      obtain rfl := HostResult.text.inj h
      rw [HostResult.toValue, HostResult.toValue]
      split
      · exact G.constant (.char s')
      · exact hrefuse rfl
    | _ => cases h
  | nothing =>
    cases r' with
    | nothing => exact G.unitValue
    | _ => cases h
  | bool b =>
    cases r' with
    | bool b' =>
      obtain rfl := HostResult.bool.inj h
      exact G.constant (.bool b')
    | _ => cases h
  | int n =>
    cases r' with
    | int n' =>
      obtain rfl := HostResult.int.inj h
      exact G.constant (.int n')
    | _ => cases h
  | real x =>
    cases r' with
    | real x' =>
      obtain rfl := HostResult.real.inj h
      exact G.constant (.real x')
    | _ => cases h

theorem inStep_callForeign (G : Simulates L E E') (hcall : L.Callers call call') (name : Name)
    {args args' : List Value} (hargs : List.Forall₂ L.value args args') (directive : Bool)
    {p p' : Option Position} (hp : L.place p p') :
    L.Runs L.value (E.callForeign call name args directive p)
      (E'.callForeign call' name args' directive p') := by
  have hresolve := (G.concur_resolve name hargs hp).and_left fun _ => Native.mem_of_resolve
  refine (Likeness.inStep_lift hresolve).bind ?_
  rintro _ native ⟨rfl, hmem⟩
  have heffect : L.Effects ⟨native.name, args, directive⟩ ⟨native.name, args', directive⟩ :=
    ⟨rfl, hargs, rfl⟩
  refine (Likeness.inStep_record heffect).bind fun _ _ _ => ?_
  refine Likeness.inStep_host.bind fun s s' hs => ?_
  have haction := G.respects native hmem s s' args args' hs hargs
  refine (Likeness.inStep_perform (fun f f' args args' hf hargs =>
    hcall f f' args args' none none hf hargs G.place_none) _ _ haction).bind fun r r' hr => ?_
  exact Likeness.inStep_lift (G.concur_toValue hr native.name hp)

/-- **Intrinsics see constants only**, and these are the same. -/
theorem concur_operands (G : Simulates L E E') (name : String) (kind : LiteralKind)
    {p p' : Option Position} (hp : L.place p p') (index : Nat) {vs vs' : List Value}
    (h : List.Forall₂ L.value vs vs') :
    Concur L.failure Eq (IntrinsicTable.operands name kind p index vs)
      (IntrinsicTable.operands name kind p' index vs') := by
  induction h generalizing index with
  | nil => exact rfl
  | @cons v v' vs vs' hv _ ih =>
    have hliteral : v'.literal? = v.literal? := by
      rw [← v'.literal?_face, G.face hv, v.literal?_face]
    have htype : v'.typeName = v.typeName := by
      rw [← v'.typeName_face, G.face hv, v.typeName_face]
    rw [IntrinsicTable.operands, IntrinsicTable.operands, hliteral, htype]
    split
    · split
      · refine (ih (index + 1)).bind fun ls ls' hls => ?_
        exact congrArg _ hls
      · exact G.failure_of hp _
    · exact G.failure_of hp _

theorem concur_applyNamed (G : Simulates L E E') (op : Name) {args args' : List Value}
    (hargs : List.Forall₂ L.value args args') {p p' : Option Position} (hp : L.place p p') :
    Concur L.failure L.value (E.intrinsics.applyNamed op args p)
      (E'.intrinsics.applyNamed op args' p') := by
  rw [G.intrinsics]
  cases op with
  | word name =>
    unfold IntrinsicTable.applyNamed IntrinsicTable.apply
    dsimp only
    rw [← hargs.length_eq]
    split
    · exact G.failure_of hp _
    · next i hi =>
      split
      · refine (G.concur_operands name _ hp 0 hargs).bind fun ls ls' hls => ?_
        subst hls
        split
        · next r hr =>
          have hmem : i ∈ E.intrinsics.entries := List.mem_of_find?_eq_some hi
          exact G.concur_toValue (G.computed i hmem ls r hr) _ hp
        · exact G.failure_of hp _
        · exact G.failure_refl _
      · exact G.failure_of hp _
  | other j => exact (G.concur_check _).bind fun _ _ _ => G.failure_of hp _

theorem concur_construct (G : Simulates L E E') {c : Name} {args args' : List Value}
    (hc : E'.table.get? c = E.table.get? c) (hargs : List.Forall₂ L.value args args')
    {p p' : Option Position} (hp : L.place p p') :
    Concur L.failure L.value (E.table.construct c args p) (E'.table.construct c args' p') := by
  have hlookup : Concur L.failure (fun k k' => k' = k ∧ E.table.get? c = some k)
      (E.table.lookup c p) (E'.table.lookup c p') := by
    unfold ConstructorTable.lookup
    rw [hc]
    refine (G.concur_check c).bind fun _ _ _ => ?_
    split
    · exact ⟨rfl, by assumption⟩
    · exact G.failure_of hp _
  unfold ConstructorTable.construct
  refine hlookup.bind ?_
  rintro k _ ⟨rfl, hk⟩
  rw [← hargs.length_eq]
  split
  · next hlength =>
    cases hargs with
    | nil => exact G.data hk hlength.symm (.inr rfl) .nil
    | cons hv hvs => exact G.data hk hlength.symm (.inl rfl) (.cons hv hvs)
  · exact G.failure_of hp _

end Simulates

/-! ## Evaluation -/

namespace Engine

variable {σ : Type} {L : Likeness σ} {E E' : Engine σ} {call call' : Caller σ}

theorem eval_of_not_hasRule {n : Node} (h : hasRule n = false) (scope : Scope) :
    eval E call scope n = (do
      E.trace (.eval n)
      throw (.misplaced .evaluation n.className)) := by
  unfold eval
  split
  case h_13 => rfl
  all_goals cases h

/-- What evaluation has no rule for fails alike. -/
theorem inStep_misplaced (G : Simulates L E E') {n n' : Node} {s s' : Scope}
    (hn : L.code s n s' n') (h : hasRule n = false) :
    L.Runs L.value (eval E call s n) (eval E' call' s' n') := by
  obtain ⟨h', hclass⟩ := G.misplaced hn h
  rw [eval_of_not_hasRule h, eval_of_not_hasRule h', hclass]
  exact (G.inStep_enter n n' hclass).bind fun _ _ _ => .throw (G.failure_refl _)

mutual

/-- **Evaluation keeps in step.** The induction is on the first of the two
expressions; the conditions of `Simulates` say that the second has the same
form. -/
theorem eval_inStep (G : Simulates L E E') (hcall : L.Callers call call') {s s' : Scope}
    (n n' : Node) (hn : L.code s n s' n') :
    L.Runs L.value (eval E call s n) (eval E' call' s' n') := by
  cases n with
  | literal p v =>
    obtain ⟨q, rfl⟩ := G.literal hn
    unfold eval
    exact (G.inStep_enter _ _ rfl).bind fun _ _ _ => .pure (G.constant v)
  | unit p =>
    obtain ⟨q, rfl⟩ := G.unit hn
    unfold eval
    exact (G.inStep_enter _ _ rfl).bind fun _ _ _ => .pure G.unitValue
  | var p name =>
    obtain ⟨q, rfl, hget⟩ := G.var hn
    unfold eval
    exact (G.inStep_enter _ _ rfl).bind fun _ _ _ => Likeness.inStep_lift hget
  | call p callee args =>
    obtain ⟨q, callee', args', rfl, hp, hcallee, hargs, hname⟩ := G.call hn
    unfold eval
    refine (G.inStep_enter _ _ rfl).bind fun _ _ _ => ?_
    refine (evalAll_inStep G hcall args args' hargs).bind fun vs vs' hvs => ?_
    rw [hname]
    have hsame := Concur.refl (R := Eq) G.failure_refl (fun _ => rfl) (E.foreignName? s callee)
    refine (Likeness.inStep_lift hsame).bind fun name? name?' heq => ?_
    subst heq
    cases name? with
    | some name =>
      refine (G.inStep_trace (.foreignCall name vs) (.foreignCall name vs') rfl ?_).bind
        fun _ _ _ => ?_
      · rw [Message.text, Message.text, G.texts_eq hvs]
      · exact G.inStep_callForeign hcall name hvs false hp
    | none =>
      refine (eval_inStep G hcall callee callee' hcallee).bind fun f f' hf => ?_
      exact hcall f f' vs vs' p q hf hvs hp
  | intrinsicCall p op args =>
    obtain ⟨q, args', rfl, hp, hargs⟩ := G.intrinsicCall hn
    unfold eval
    refine (G.inStep_enter _ _ rfl).bind fun _ _ _ => ?_
    refine (evalAll_inStep G hcall args args' hargs).bind fun vs vs' hvs => ?_
    exact Likeness.inStep_lift (G.concur_applyNamed op hvs hp)
  | directiveCall p name args =>
    obtain ⟨q, args', rfl, hp, hargs⟩ := G.directiveCall hn
    unfold eval
    refine (G.inStep_enter _ _ rfl).bind fun _ _ _ => ?_
    refine (evalAll_inStep G hcall args args' hargs).bind fun vs vs' hvs => ?_
    refine (G.inStep_trace (.directive name vs) (.directive name vs') rfl ?_).bind fun _ _ _ => ?_
    · rw [Message.text, Message.text, G.texts_eq hvs]
    · refine (G.inStep_callForeign hcall name hvs true hp).bind fun _ _ _ => ?_
      exact .pure G.unitValue
  | construct p c args =>
    obtain ⟨q, args', rfl, hp, hargs, hc⟩ := G.construct hn
    unfold eval
    refine (G.inStep_enter _ _ rfl).bind fun _ _ _ => ?_
    refine (evalAll_inStep G hcall args args' hargs).bind fun vs vs' hvs => ?_
    exact Likeness.inStep_lift (G.concur_construct hc hvs hp)
  | caseOf p scrutinee arms =>
    obtain ⟨q, scrutinee', arms', rfl, hp, hscrutinee, harms⟩ := G.caseOf hn
    unfold eval
    refine (G.inStep_enter _ _ rfl).bind fun _ _ _ => ?_
    refine (eval_inStep G hcall scrutinee scrutinee' hscrutinee).bind fun v v' hv => ?_
    have hlabel : v'.caseLabel = v.caseLabel := by
      rw [← v'.caseLabel_face, G.face hv, v.caseLabel_face]
    -- The arms of both compile or those of neither do; compiled, they choose arms
    -- whose bodies correspond.
    rcases harms with ⟨f, f', hc, hc'⟩ | ⟨c, c', hc, hc', hchoice⟩
    · rw [hc, hc']
      exact .throw (G.failure_refl _)
    · rw [hc, hc']
      dsimp only
      rcases hchoice v v' hv with ⟨hr, hr'⟩ | ⟨i, b, b', hr, hr', hbody⟩
      · rw [hr, hr', hlabel]
        have hsame := Concur.refl (R := Eq) G.failure_refl (fun _ => rfl) v.caseLabel
        refine (Likeness.inStep_lift hsame).bind fun label label' heq => ?_
        subst heq
        exact .throw (G.failure_of hp _)
      · rw [hr, hr']
        refine (G.inStep_trace (.chosen v i) (.chosen v' i) rfl ?_).bind fun _ _ _ => ?_
        · rw [Message.text, Message.text, hlabel]
        · exact evalArm_inStep G hcall i arms arms' hbody
  | letIn p name value body t =>
    obtain ⟨q, value', body', t', rfl, hvalue, hbody⟩ := G.letIn hn
    unfold eval
    refine (G.inStep_enter _ _ rfl).bind fun _ _ _ => ?_
    refine (eval_inStep G hcall value value' hvalue).bind fun v v' hv => ?_
    refine (Likeness.inStep_lift (G.concur_check name)).bind fun _ _ _ => ?_
    exact eval_inStep G hcall body body' (hbody v v' hv)
  | seq p first rest =>
    obtain ⟨q, first', rest', rfl, hfirst, hrest⟩ := G.seq hn
    unfold eval
    refine (G.inStep_enter _ _ rfl).bind fun _ _ _ => ?_
    refine (eval_inStep G hcall first first' hfirst).bind fun _ _ _ => ?_
    exact eval_inStep G hcall rest rest' hrest
  | lambda p params body =>
    obtain ⟨q, body', rfl, hclosure⟩ := G.lambda hn
    unfold eval
    exact (G.inStep_enter _ _ rfl).bind fun _ _ _ => .pure hclosure
  | block p ds body =>
    obtain ⟨q, ds', body', rfl, hannounce⟩ := G.block hn
    unfold eval
    refine (G.inStep_enter _ _ rfl).bind fun _ _ _ => ?_
    exact hannounce.bind fun fs fs' hbody => eval_inStep G hcall body body' hbody
  | _ => exact inStep_misplaced G hn rfl

theorem evalAll_inStep (G : Simulates L E E') (hcall : L.Callers call call') {s s' : Scope}
    (ns ns' : List Node) (hns : List.Forall₂ (fun n n' => L.code s n s' n') ns ns') :
    L.Runs (List.Forall₂ L.value) (evalAll E call s ns) (evalAll E' call' s' ns') := by
  cases ns with
  | nil =>
    cases hns
    unfold evalAll
    exact .pure .nil
  | cons n ns =>
    cases hns with
    | @cons _ n' _ ns' hn hns =>
      unfold evalAll
      refine (eval_inStep G hcall n n' hn).bind fun v v' hv => ?_
      refine (evalAll_inStep G hcall ns ns' hns).bind fun vs vs' hvs => ?_
      exact .pure (.cons hv hvs)

theorem evalArm_inStep (G : Simulates L E E') (hcall : L.Callers call call') {s s' : Scope}
    (index : Nat) (arms arms' : List Node)
    (harm : ∃ q pattern body q' pattern' body', arms[index]? = some (.arm q pattern body)
      ∧ arms'[index]? = some (.arm q' pattern' body') ∧ L.code s body s' body') :
    L.Runs L.value (evalArm E call s index arms) (evalArm E' call' s' index arms') := by
  cases arms with
  | nil =>
    obtain ⟨_, _, _, _, _, _, h, -⟩ := harm
    cases h
  | cons n rest =>
    cases arms' with
    | nil =>
      obtain ⟨_, _, _, _, _, _, -, h, -⟩ := harm
      cases h
    | cons n' rest' =>
      cases index with
      | zero =>
        cases n with
        | arm q pattern body =>
          obtain ⟨_, _, _, _, _, body', ⟨⟩, ⟨⟩, hbody⟩ := harm
          unfold evalArm
          exact eval_inStep G hcall body body' hbody
        | _ =>
          obtain ⟨_, _, _, _, _, _, ⟨⟩, -⟩ := harm
      | succ index =>
        rw [evalArm, evalArm]
        exact evalArm_inStep G hcall index rest rest' harm

end

/-- **Calls keep in step**, however many may be nested. -/
theorem callAt_inStep (G : Simulates L E E') (limit depth : Nat) :
    L.Callers (callAt E limit depth) (callAt E' limit depth) := by
  induction limit generalizing depth with
  | zero => exact fun _ _ _ _ _ _ _ _ _ => .throw (G.failure_refl _)
  | succ limit ih =>
    intro f f' args args' p p' hf hargs hp
    have hface := G.face hf
    have htype : f'.typeName = f.typeName := by
      rw [← f'.typeName_face, hface, f.typeName_face]
    -- Values that correspond look the same: both are closures, or neither is.
    cases f with
    | closure g s =>
      cases f' with
      | closure g' s' =>
        obtain ⟨hname, hparams, -⟩ := Function.mk.inj (Value.closure.inj hface).1
        unfold callAt
        dsimp only
        rw [hname, hparams, ← hargs.length_eq]
        split
        · next hlength =>
          have hsame := Concur.refl (R := fun _ _ => True) G.failure_refl (fun _ => trivial)
            (g.params.forM Name.check)
          refine (Likeness.inStep_lift hsame).bind fun _ _ _ => ?_
          refine (G.inStep_trace (.call depth g.name args) (.call depth g.name args') rfl ?_).bind
            fun _ _ _ => ?_
          · rw [Message.text, Message.text, G.texts_eq hargs]
          · have hbody := G.closure hf args args' hlength hargs
            rw [hparams] at hbody
            exact eval_inStep G (ih (depth + 1)) g.body g'.body hbody
        · exact .throw (G.failure_of hp _)
      | _ => cases hface
    | _ =>
      cases f' with
      | closure g' s' => cases hface
      | _ =>
        unfold callAt
        dsimp only
        rw [htype]
        exact .throw (G.failure_of hp _)

/-- **The body of a program keeps in step**, with the message about its
result. -/
theorem inStep_result (G : Simulates L E E') (limit : Nat) {s s' : Scope} {n n' : Node}
    (hn : L.code s n s' n') :
    L.Runs L.value
      (do
        let v ← E.eval (E.callAt limit 0) s n
        E.trace (.result v)
        return v)
      (do
        let v ← E'.eval (E'.callAt limit 0) s' n'
        E'.trace (.result v)
        return v) := by
  refine (eval_inStep G (callAt_inStep G limit 0) n n' hn).bind fun v v' hv => ?_
  refine (G.inStep_trace (.result v) (.result v') rfl ?_).bind fun _ _ _ => .pure hv
  rw [Message.text, Message.text, ← v'.text_face, G.face hv, v.text_face]

end Engine

end EmberLang
