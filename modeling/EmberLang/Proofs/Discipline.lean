import EmberLang.Proofs.Dispatch
import EmberLang.Proofs.Patterns
import EmberLang.Proofs.Upholds
import EmberLang.Proofs.Wording

/-!
# Runs keep what their code and their values promise

A closure carries code into the future: it was made in one place and runs
in another, after it has been put into data, handed to the host and called
back. Whatever is promised of the code of a program must therefore be
promised of all values, at any depth, and of the scopes inside them.

A `Discipline` says what is promised: which expressions may run where
which names are bound, which data values may be built, and which names
parameters may have. It has to be inherited – from an expression to its
parts, from a case to the arm that was chosen, from a block to its
functions. A value is *kept* if all its data may be built and all its
closures hold code that may run in their scopes. The main result
`Engine.eval_upholds` is that evaluation in a kept scope gives kept values
and fails only as the discipline allows, over every host whose functions
do the same with what they are given.

How a run can fail depends on what is known of its code. Of any tree it is
only known that a variable is looked up where a variable stands. Of code
that has been checked (`Discipline.Checked`) more is known: names are
words, cases compile, intrinsics and constructors are in their tables. All
failures that remain for such code are ordinary (`Failure.isOrdinary`).
-/

namespace EmberLang

/-! ## Names in scope -/

namespace Scope

/-- Whether a name has a value, as a property. -/
def Binds (s : Scope) (name : Name) : Prop := s.isBound name = true

end Scope

/-- Names in scope, and some more. -/
def withNames (Γ : Name → Prop) (names : List Name) : Name → Prop :=
  fun x => (∃ n ∈ names, n.same x = true) ∨ Γ x

namespace Scope

theorem binds_bind (n : Name) (v : Value) (s : Scope) :
    (bind n v s).Binds = withNames s.Binds [n] := by
  funext x
  rw [eq_iff_iff]
  unfold Binds withNames isBound
  rw [lookup?]
  cases h : n.same x <;> simp [h]

theorem binds_bindAll (bindings : List (Name × Value)) (s : Scope) :
    (s.bindAll bindings).Binds = withNames s.Binds (bindings.map (·.1)) := by
  induction bindings generalizing s with
  | nil => funext x; simp [bindAll, withNames]
  | cons b bindings ih =>
    show ((bind b.1 b.2 s).bindAll bindings).Binds = _
    rw [ih, binds_bind]
    funext x
    rw [eq_iff_iff]
    simp only [withNames, List.map_cons, List.mem_cons, List.not_mem_nil, or_false,
      exists_eq_left, exists_eq_or_imp]
    constructor
    · rintro (h | h | h)
      · exact Or.inl (Or.inr h)
      · exact Or.inl (Or.inl h)
      · exact Or.inr h
    · rintro ((h | h) | h)
      · exact Or.inr (Or.inl h)
      · exact Or.inl h
      · exact Or.inr (Or.inr h)

theorem binds_functions (fs : List Function) (s : Scope) :
    (functions fs s).Binds = withNames s.Binds (fs.map (·.name)) := by
  funext x
  rw [eq_iff_iff]
  unfold Binds withNames isBound
  rw [lookup?]
  cases h : fs.find? (·.name.same x) with
  | some f =>
    have hf : f.name.same x = true := by simpa using List.find?_some h
    simp only [Option.isSome_some, true_iff]
    exact Or.inl ⟨f.name, List.mem_map.2 ⟨f, List.mem_of_find?_eq_some h, rfl⟩, hf⟩
  | none =>
    have hnone : ∀ f ∈ fs, ¬ f.name.same x = true := by
      simpa using List.find?_eq_none.1 h
    constructor
    · exact Or.inr
    · rintro (⟨n, hn, hx⟩ | hx)
      · obtain ⟨f, hf, rfl⟩ := List.mem_map.1 hn
        exact absurd hx (hnone f hf)
      · exact hx

end Scope

/-! ## Kept values -/

/-- **What is promised of code and of data.** -/
structure Discipline where
  /-- Which expressions may run where which names are bound. -/
  Code : (Name → Prop) → Node → Prop
  /-- Which constructors may have how many fields. -/
  Data : Name → Nat → Prop
  /-- Which names the parameters of a function may have. -/
  Params : List Name → Prop := fun _ => True
  /-- Which lists the host may give back, though they are no values and are
  refused. -/
  Lists : List HostResult → Prop := fun _ => True

variable {D : Discipline}

/-- A function may be called where the given names are bound. -/
def Discipline.Runs (D : Discipline) (Γ : Name → Prop) (f : Function) : Prop :=
  D.Params f.params ∧ D.Code (withNames Γ f.params) f.body

mutual

/-- **A value is kept** if all its data may be built and all its closures
may be called. -/
def Value.Kept (D : Discipline) : Value → Prop
  | .data c fs => D.Data c fs.length ∧ Value.KeptAll D fs
  | .closure f s => D.Runs s.Binds f ∧ Scope.Kept D s
  | _ => True

/-- Several values are kept. -/
def Value.KeptAll (D : Discipline) : List Value → Prop
  | [] => True
  | v :: vs => Value.Kept D v ∧ Value.KeptAll D vs

/-- **A scope is kept** if its values are and its functions may be
called. -/
def Scope.Kept (D : Discipline) : Scope → Prop
  | .empty => True
  | .bind _ v s => Value.Kept D v ∧ Scope.Kept D s
  | .functions fs s => (∀ f ∈ fs, D.Runs (Scope.functions fs s).Binds f) ∧ Scope.Kept D s

end

namespace Value

theorem keptAll_iff {vs : List Value} : KeptAll D vs ↔ ∀ v ∈ vs, v.Kept D := by
  induction vs with
  | nil => simp [KeptAll]
  | cons v vs ih => simp [KeptAll, ih]

end Value

theorem Literal.kept_value (l : Literal) : l.value.Kept D := by
  cases l <;> simp [Literal.value, Value.Kept]

namespace Scope

/-- **What a kept scope holds is kept.** -/
theorem Kept.lookup? {s : Scope} (h : s.Kept D) {name : Name} {v : Value}
    (hv : s.lookup? name = some v) : v.Kept D := by
  induction s using Scope.lookup?.induct name with
  | case1 => exact absurd hv (by simp)
  | case2 n w outer hn =>
    rw [Scope.lookup?, if_pos hn] at hv
    obtain rfl := Option.some.inj hv
    exact h.1
  | case3 n w outer hn ih =>
    rw [Scope.lookup?, if_neg hn] at hv
    exact ih h.2 hv
  | case4 fs outer f hf =>
    rw [Scope.lookup?, hf] at hv
    obtain rfl := Option.some.inj hv
    exact ⟨h.1 f (List.mem_of_find?_eq_some hf), h⟩
  | case5 fs outer hf ih =>
    rw [Scope.lookup?, hf] at hv
    exact ih h.2 hv

theorem Kept.bindAll {s : Scope} (h : s.Kept D) {bindings : List (Name × Value)}
    (hb : ∀ b ∈ bindings, b.2.Kept D) : (s.bindAll bindings).Kept D := by
  induction bindings generalizing s with
  | nil => exact h
  | cons b bindings ih =>
    exact ih (s := bind b.1 b.2 s) ⟨hb b List.mem_cons_self, h⟩
      fun b' hb' => hb b' (List.mem_cons_of_mem _ hb')

end Scope

/-- The parts of a kept value are kept. -/
theorem Value.Kept.part? {v w : Value} (hv : v.Kept D) {place : List Nat}
    (h : v.part? place = some w) : w.Kept D := by
  induction place generalizing v with
  | nil =>
    rw [Value.part?] at h
    exact Option.some.inj h ▸ hv
  | cons i place ih =>
    cases v with
    | data c fields =>
      obtain ⟨field, hfield, h⟩ := Option.bind_eq_some_iff.1 h
      exact ih (Value.keptAll_iff.1 hv.2 field (List.mem_of_getElem? hfield)) h
    | _ => cases h

/-- A match binds parts of the value. -/
theorem Node.matchPattern_kept (pattern : Node) (v : Value) {bindings : List (Name × Value)}
    (hv : v.Kept D) (h : pattern.matchPattern [] v = some bindings) :
    ∀ b ∈ bindings, b.2.Kept D := by
  obtain rfl := pattern.matchPattern_eq_some h
  intro b hb
  obtain ⟨e, -, he⟩ := List.mem_filterMap.1 hb
  obtain ⟨w, hw, rfl⟩ := Option.map_eq_some_iff.1 he
  exact hv.part? hw

/-- An arm that matches a kept value binds kept values. -/
theorem Case.ArmMatches.kept {t : ConstructorTable} {arms : List Node} {v : Value} {i : Nat}
    {bindings : List (Name × Value)} (h : Case.ArmMatches t arms v i bindings) (hv : v.Kept D) :
    ∀ b ∈ bindings, b.2.Kept D := by
  obtain ⟨_, _, _, resolved, _, _, _, hm⟩ := h
  exact resolved.matchPattern_kept v hv hm

/-! ## Hosts that keep what they are given -/

variable {σ : Type} {F : Failure → Prop} {state : σ → Prop}

namespace Failure

/-- Whether a failure is the error that a variable has no value. -/
def isUnbound : Failure → Bool
  | error ⟨.unboundVariable _, _⟩ => true
  | _ => false

/-- **Whether a failure is ordinary**: it comes from what a program does
with values, and no check of its text can rule it out. -/
def isOrdinary : Failure → Bool
  | error ⟨.unresolvedExtern .., _⟩ => true
  | error ⟨.arity .., _⟩ => true
  | error ⟨.intrinsicArity .., _⟩ => true
  | error ⟨.typeMismatch _, _⟩ => true
  | error ⟨.nonExhaustiveMatch _, _⟩ => true
  | error ⟨.divisionByZero _, _⟩ => true
  | callsTooDeep => true
  | numeralTooLong => true
  | _ => false

end Failure

/-- The failures of a step are no want of a value for a variable. -/
abbrev NotUnbound {α : Type} (m : Except Failure α) : Prop :=
  FailsOnly (fun f => f.isUnbound = false) m

/-- **How a step fails whose code may have been checked**: never for want
of the value of a variable, and only in ordinary ways if it has been. -/
abbrev FailsIfChecked {α : Type} (checked : Prop) (m : Except Failure α) : Prop :=
  FailsOnly (fun f => f.isUnbound = false ∧ (checked → f.isOrdinary = true)) m

namespace FailsIfChecked

variable {α : Type} {checked : Prop} {m : Except Failure α}

theorem of_wording (h : Wording checked m) : FailsIfChecked checked m :=
  FailsOnly.mono h fun _ hf => by
    rcases hf with rfl | ⟨rfl, hnot⟩
    · exact ⟨rfl, fun _ => rfl⟩
    · exact ⟨rfl, fun hworded => absurd hworded hnot⟩

theorem notUnbound (h : FailsIfChecked checked m) : NotUnbound m :=
  FailsOnly.mono h fun _ hf => hf.1

theorem mono {checked' : Prop} (h : FailsIfChecked checked m) (himp : checked' → checked) :
    FailsIfChecked checked' m := FailsOnly.mono h fun _ hf => ⟨hf.1, fun hc => hf.2 (himp hc)⟩

end FailsIfChecked

theorem Name.fails_check (n : Name) : FailsIfChecked n.IsWord n.check := by
  cases n with
  | word s => exact .ok ()
  | other j =>
    unfold check
    split
    · exact .ok ()
    · exact .error ⟨rfl, by rintro ⟨s, ⟨⟩⟩⟩

theorem Name.notUnbound_check (n : Name) : NotUnbound n.check := n.fails_check.notUnbound

namespace HostResult

/-- A result of the host is kept if it is a kept value, or a list that may
be given back, or neither. -/
def Kept (D : Discipline) : HostResult → Prop
  | value v => v.Kept D
  | list items => D.Lists items
  | _ => True

theorem Kept.toValue {r : HostResult} (h : r.Kept D) {native : String} {p : Option Position}
    {v : Value} (hv : r.toValue native p = .ok v) : v.Kept D := by
  cases r with
  | value w =>
    obtain rfl : w = v := Except.ok.inj hv
    exact h
  | text s =>
    rw [HostResult.toValue] at hv
    split at hv
    · obtain rfl := Except.ok.inj hv
      trivial
    · unfold refuse at hv
      cases hs : (text s).shown <;> rw [hs] at hv <;> exact absurd hv (by simp [bind, Except.bind])
  | list items =>
    simp only [HostResult.toValue, refuse] at hv
    cases hs : (list items).shown <;> rw [hs] at hv <;>
      exact absurd hv (by simp [bind, Except.bind])
  | _ =>
    obtain rfl := Except.ok.inj hv
    trivial

theorem fails_refuse (r : HostResult) (native : String) (p : Option Position) :
    FailsIfChecked r.Worded (r.refuse native p) :=
  (FailsIfChecked.of_wording r.wording_shown).bind fun _ _ => .error ⟨rfl, fun _ => rfl⟩

theorem fails_toValue (r : HostResult) (native : String) (p : Option Position) :
    FailsIfChecked r.Worded (r.toValue native p) := by
  cases r with
  | text s =>
    unfold toValue
    dsimp only
    split
    · exact .ok _
    · exact fails_refuse _ native p
  | list items => exact fails_refuse _ native p
  | _ => exact .ok _

end HostResult

/-- **An action of the host keeps what it is given**: it ends with a kept
result or an allowed failure, calls only kept values with kept values, and
goes on like this whatever kept value or allowed failure a call comes to.
`state` is what the host can rely on of its own state. -/
def Action.Keeps (D : Discipline) (F : Failure → Prop) (state : σ → Prop) : Action σ → Prop
  | .done s r => state s ∧ r.Kept D
  | .fail s f => state s ∧ F f
  | .call s callee args next =>
    state s ∧ callee.Kept D ∧ Value.KeptAll D args ∧
      ∀ s' outcome, state s' → (∀ v, outcome = .ok v → v.Kept D) →
        (∀ f, outcome = .error f → F f) → (next s' outcome).Keeps D F state

/-- A function of the host keeps what it is given. -/
def Native.Keeps (D : Discipline) (F : Failure → Prop) (state : σ → Prop) (n : Native σ) : Prop :=
  ∀ s args, state s → Value.KeptAll D args → (n.run s args).Keeps D F state

/-- An intrinsic gives kept results. -/
def Intrinsic.Keeps (D : Discipline) (i : Intrinsic) : Prop :=
  ∀ operands r, i.compute operands = .result r → r.Kept D

/-- A journal whose effects are kept. -/
structure Journal.Kept (D : Discipline) (state : σ → Prop) (j : Journal σ) : Prop where
  /-- The host is as it should be. -/
  host : state j.host
  /-- The arguments of all foreign calls so far are kept. -/
  effects : ∀ e ∈ j.effects, Value.KeptAll D e.args

theorem Journal.Kept.record {j : Journal σ} (hj : j.Kept D state) {args : List Value}
    (hargs : Value.KeptAll D args) {name : String} {directive : Bool} :
    Journal.Kept D state { j with
      effects := j.effects.push ⟨name, args, directive⟩
      observed := j.observed.push ⟨name, args, directive⟩ } := by
  refine ⟨hj.host, fun e he => ?_⟩
  rcases Array.mem_push.1 he with he | rfl
  · exact hj.effects e he
  · exact hargs

/-! ## Code that has been checked -/

/-- **A node has been checked**: there is a rule for it, and what the rule
looks up by name is there. The nodes below it have to be checked
themselves. -/
def Node.IsChecked (E : Engine σ) : Node → Prop
  | .literal .. => True
  | .unit _ => True
  | .var _ name => name.IsWord
  | .call _ callee _ => ∀ q name, callee = .var q name → name.IsWord
  | .intrinsicCall _ op _ => E.intrinsics.knows op = true
  | .directiveCall _ name _ => name.IsWord
  | .construct _ c _ => c.IsWord ∧ E.table.contains c = true
  | .caseOf _ _ arms => ∃ c, Case.compile E.caseTable arms = .ok c
  | .letIn _ name _ _ _ => name.IsWord
  | .seq .. => True
  | .lambda .. => True
  | .block _ ds _ => (Node.declaredFunctions ds).2 = .ok ()
  | _ => False

/-- An intrinsic has a result, or divides by zero, on all operands that it
is applied to. -/
def Intrinsic.IsTotal (i : Intrinsic) : Prop :=
  ∀ operands, operands.length = i.arity → (∀ l ∈ operands, l.kind = i.operand) →
    ∀ fault, i.compute operands ≠ .failed fault

/-- **All code that may run has been checked**, and all names that can get
into a wording are words. -/
structure Discipline.Checked (D : Discipline) (E : Engine σ) : Prop where
  /-- Expressions. -/
  code : ∀ {Γ n}, D.Code Γ n → n.IsChecked E
  /-- The constructors of data values. -/
  data : ∀ {c k}, D.Data c k → c.IsWord
  /-- The parameters of functions. -/
  params : ∀ {names}, D.Params names → ∀ n ∈ names, n.IsWord
  /-- The values in lists that the host gives back. -/
  lists : ∀ {items}, D.Lists items → HostResult.WordedAll items
  /-- The intrinsics. -/
  intrinsics : ∀ i ∈ E.intrinsics.entries, i.IsTotal

mutual

/-- **A kept value has a wording** if data and parameters may only have
words for names. -/
theorem Value.worded_of_kept (hdata : ∀ {c k}, D.Data c k → c.IsWord)
    (hparams : ∀ {names}, D.Params names → ∀ n ∈ names, n.IsWord) :
    (v : Value) → v.Kept D → v.Worded
  | .data _ fs, h => ⟨hdata h.1, Value.wordedAll_of_kept hdata hparams fs h.2⟩
  | .closure _ _, h => hparams h.1.1
  | .int _, _ => trivial
  | .real _, _ => trivial
  | .bool _, _ => trivial
  | .char _, _ => trivial
  | .unit, _ => trivial

theorem Value.wordedAll_of_kept (hdata : ∀ {c k}, D.Data c k → c.IsWord)
    (hparams : ∀ {names}, D.Params names → ∀ n ∈ names, n.IsWord) :
    (vs : List Value) → Value.KeptAll D vs → Value.WordedAll vs
  | [], _ => trivial
  | v :: vs, h =>
    ⟨Value.worded_of_kept hdata hparams v h.1, Value.wordedAll_of_kept hdata hparams vs h.2⟩

end

namespace Discipline.Checked

variable {E : Engine σ}

theorem worded (C : D.Checked E) (v : Value) (h : v.Kept D) : v.Worded :=
  v.worded_of_kept C.data C.params h

theorem wordedAll (C : D.Checked E) (vs : List Value) (h : Value.KeptAll D vs) :
    Value.WordedAll vs :=
  Value.wordedAll_of_kept C.data C.params vs h

theorem worded_result (C : D.Checked E) {r : HostResult} (h : r.Kept D) : r.Worded := by
  cases r with
  | value v => exact C.worded v h
  | list items => exact C.lists h
  | _ => trivial

end Discipline.Checked

/-! ## Governing -/

/-- **A discipline governs what a program runs on**: its promises are
inherited, and the host keeps them. Ordinary failures are allowed, and
either all code has been checked or all other failures are allowed as
well, but for the want of a value for a variable. -/
structure Governs (D : Discipline) (F : Failure → Prop) (state : σ → Prop) (E : Engine σ) :
    Prop where
  /-- The failures that are allowed. -/
  fails : ∀ f, f.isOrdinary = true → F f
  /-- The failures that are allowed unless all code has been checked. -/
  checked : D.Checked E ∨ ∀ f, f.isUnbound = false → F f
  /-- A variable is bound, or may be unbound. -/
  var : ∀ {Γ p name}, D.Code Γ (.var p name) →
    Γ name ∨ ∀ q, F (.of (.unboundVariable name.text) q)
  /-- A callee is an expression or the name of a foreign function. -/
  callee : ∀ {Γ p callee args}, D.Code Γ (.call p callee args) →
    D.Code Γ callee ∨ ∃ q name, callee = .var q name ∧ E.externs.any (·.1.same name) = true
  /-- The arguments of a call. -/
  callArgs : ∀ {Γ p callee args}, D.Code Γ (.call p callee args) → ∀ a ∈ args, D.Code Γ a
  /-- The arguments of an intrinsic. -/
  intrinsicArgs : ∀ {Γ p op args}, D.Code Γ (.intrinsicCall p op args) → ∀ a ∈ args, D.Code Γ a
  /-- The arguments of a directive. -/
  directiveArgs : ∀ {Γ p name args}, D.Code Γ (.directiveCall p name args) → ∀ a ∈ args, D.Code Γ a
  /-- The fields of a constructor. -/
  constructArgs : ∀ {Γ p c args}, D.Code Γ (.construct p c args) → ∀ a ∈ args, D.Code Γ a
  /-- What a case looks at. -/
  scrutinee : ∀ {Γ p scrutinee arms}, D.Code Γ (.caseOf p scrutinee arms) → D.Code Γ scrutinee
  /-- The arm that a kept value chooses. -/
  arm : ∀ {Γ p scrutinee arms}, D.Code Γ (.caseOf p scrutinee arms) →
    ∀ v, v.Kept D → ∀ i bindings, Case.ArmMatches E.caseTable arms v i bindings →
      ∀ q pattern body, arms[i]? = some (.arm q pattern body) →
        D.Code (withNames Γ (bindings.map (·.1))) body
  /-- A local definition. -/
  letIn : ∀ {Γ p name value body t}, D.Code Γ (.letIn p name value body t) →
    D.Code Γ value ∧ D.Code (withNames Γ [name]) body
  /-- A sequence. -/
  seq : ∀ {Γ p first rest}, D.Code Γ (.seq p first rest) → D.Code Γ first ∧ D.Code Γ rest
  /-- A function without a name. -/
  lambda : ∀ {Γ p params body}, D.Code Γ (.lambda p params body) → D.Runs Γ ⟨"<fn>", params, body⟩
  /-- A block and its functions. -/
  block : ∀ {Γ p ds body fs}, D.Code Γ (.block p ds body) →
    Node.declaredFunctions ds = (fs, .ok ()) →
    (∀ f ∈ fs, D.Runs (withNames Γ (fs.map (·.name))) f)
      ∧ D.Code (withNames Γ (fs.map (·.name))) body
  /-- Data that the program builds. -/
  data : ∀ {Γ p c args}, D.Code Γ (.construct p c args) → ∀ d, E.table.get? c = some d →
    D.Data c d.arity ∧ D.Data d.name d.arity
  /-- The functions of the host. -/
  native : ∀ n ∈ E.natives, n.Keeps D F state
  /-- The intrinsics. -/
  intrinsic : ∀ i ∈ E.intrinsics.entries, i.Keeps D

end EmberLang
