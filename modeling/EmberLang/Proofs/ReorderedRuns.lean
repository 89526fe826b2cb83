import EmberLang.Proofs.Natives
import EmberLang.Proofs.Reordering

/-!
# The order of declarations does not matter

A program whose declarations are put in another order runs as before. The
two runs do not come to the same closures: the bodies of functions may
hold blocks, which were reordered too, and the layers of functions in
their scopes are in another order. So values correspond if they are the
same up to this (`Value.Reordered`), and scopes if every name is found in
both or in neither (`Scope.Reordered`). The likeness `reordering` puts
this together.

A function of the host that calls closures, keeps them and passes them on,
but does not look into them, respects it. With such a host both runs have
the same failures at the same positions, or results that look the same,
and make the same foreign calls (`Session.run_reordered`). Only the trace
tells the declarations in their order.
-/

namespace EmberLang

/-! ## Scopes whose order is of no account -/

namespace Node

/-- **Declarations whose functions can be defined in any order**: their
names are distinct, and nothing is wrong with their parameters. -/
structure SoundScope (ds : List Node) : Prop where
  /-- All parameters have names. -/
  params : ∀ d ∈ ds, d.hasParams
  /-- These are words. -/
  words : ∀ f ∈ ds.filterMap function?, ∀ x ∈ f.params, x.IsWord
  /-- The functions have distinct names. -/
  distinct : Name.Distinct ((ds.filterMap function?).map Function.name)

theorem SoundScope.declaredFunctions {ds : List Node} (h : SoundScope ds) :
    declaredFunctions ds = (ds.filterMap function?, .ok ()) :=
  declaredFunctions_eq_ok_iff.2 ⟨h.params, rfl⟩

theorem soundScope_of_isClear {V : Vocabulary} {t : ConstructorTable} {ds : List Node}
    (hds : ∀ d ∈ ds, d.isDeclaration V = true) (hclear : IsClear t ds) : SoundScope ds := by
  obtain ⟨hok, hwords⟩ := declaredFunctions_of_areDeclarations hds
  obtain ⟨hparams, hfs⟩ := declaredFunctions_eq_ok_iff.1 (Prod.ext rfl hok)
  exact ⟨hparams, hfs ▸ hwords, hclear.distinct_filterMap fun _ _ => name?_of_function?⟩

/-- A tree all of whose blocks have such declarations. -/
def Sound (n : Node) : Prop := ∀ q ds b, block q ds b ∈ n.preorder → SoundScope ds

theorem Sound.of_subset {n m : Node} (h : n.Sound) (hsub : m.preorder ⊆ n.preorder) : m.Sound :=
  fun q ds b hm => h q ds b (hsub hm)

/-- **Two expressions correspond** if they are the same, or the second is
the first reordered and the order is of no account. -/
def Like (n n' : Node) : Prop := n' = n ∨ (n.Reordered n' ∧ n.Sound)

theorem Like.refl (n : Node) : n.Like n := .inl rfl

theorem forall₂_like_of_eq {ns ns' : List Node} (h : ns' = ns) : List.Forall₂ Like ns ns' := by
  subst h
  exact List.forall₂_same.2 fun n _ => .refl n

theorem ReorderedAll.like {ns ns' : List Node} (h : ReorderedAll ns ns')
    (hsound : ∀ n ∈ ns, n.Sound) : List.Forall₂ Like ns ns' := by
  induction ns generalizing ns' with
  | nil =>
    cases h
    exact .nil
  | cons n ns ih =>
    obtain ⟨hn, hns⟩ := List.forall_mem_cons.1 hsound
    cases h with
    | cons head tail => exact .cons (.inr ⟨head, hn⟩) (ih tail hns)

namespace Like

variable {p : Option Position} {n : Node}

theorem hasRule_eq {n' : Node} (h : n.Like n') : Engine.hasRule n' = Engine.hasRule n := by
  rcases h with rfl | ⟨h, -⟩
  · rfl
  · cases h <;> rfl

theorem className_eq {n' : Node} (h : n.Like n') : n'.className = n.className := by
  rcases h with rfl | ⟨h, -⟩
  · rfl
  · cases h <;> rfl

theorem eq_literal {v : Literal} (h : (literal p v).Like n) : n = literal p v := by
  rcases h with h | ⟨h, -⟩
  · exact h
  · cases h
    rfl

theorem eq_unit (h : (unit p).Like n) : n = unit p := by
  rcases h with h | ⟨h, -⟩
  · exact h
  · cases h
    rfl

theorem eq_var {name : Name} (h : (var p name).Like n) : n = var p name := by
  rcases h with h | ⟨h, -⟩
  · exact h
  · cases h
    rfl

theorem eq_call {callee : Node} {args : List Node} (h : (call p callee args).Like n) :
    ∃ callee' args', n = call p callee' args' ∧ callee.Like callee'
      ∧ List.Forall₂ Like args args' := by
  rcases h with rfl | ⟨h, hs⟩
  · exact ⟨_, _, rfl, .refl _, forall₂_like_of_eq rfl⟩
  · cases h with
    | refl => exact ⟨_, _, rfl, .refl _, forall₂_like_of_eq rfl⟩
    | call hcallee hargs =>
      refine ⟨_, _, rfl, .inr ⟨hcallee, hs.of_subset ?_⟩, hargs.like fun a ha => hs.of_subset ?_⟩
      · simp [preorder]
      · exact fun m hm => by simp [preorder, mem_preorderAll ha hm]

/-- What has arguments and nothing else below it. -/
theorem eq_of_args {args : List Node} {make : List Node → Node}
    (hpreorder : ∀ as, (make as).preorder = make as :: preorderAll as)
    (hcases : ∀ n, (make args).Reordered n → ∃ args', n = make args' ∧ ReorderedAll args args')
    (h : (make args).Like n) : ∃ args', n = make args' ∧ List.Forall₂ Like args args' := by
  rcases h with rfl | ⟨h, hs⟩
  · exact ⟨_, rfl, forall₂_like_of_eq rfl⟩
  · obtain ⟨args', rfl, hargs⟩ := hcases n h
    refine ⟨args', rfl, hargs.like fun a ha => hs.of_subset fun m hm => ?_⟩
    rw [hpreorder]
    exact List.mem_cons_of_mem _ (mem_preorderAll ha hm)

theorem eq_intrinsicCall {op : Name} {args : List Node} (h : (intrinsicCall p op args).Like n) :
    ∃ args', n = intrinsicCall p op args' ∧ List.Forall₂ Like args args' := by
  refine eq_of_args (fun _ => rfl) (fun n h => ?_) h
  cases h with
  | refl => exact ⟨_, rfl, .refl _⟩
  | intrinsicCall hargs => exact ⟨_, rfl, hargs⟩

theorem eq_directiveCall {name : Name} {args : List Node}
    (h : (directiveCall p name args).Like n) :
    ∃ args', n = directiveCall p name args' ∧ List.Forall₂ Like args args' := by
  refine eq_of_args (fun _ => rfl) (fun n h => ?_) h
  cases h with
  | refl => exact ⟨_, rfl, .refl _⟩
  | directiveCall hargs => exact ⟨_, rfl, hargs⟩

theorem eq_construct {c : Name} {args : List Node} (h : (construct p c args).Like n) :
    ∃ args', n = construct p c args' ∧ List.Forall₂ Like args args' := by
  refine eq_of_args (fun _ => rfl) (fun n h => ?_) h
  cases h with
  | refl => exact ⟨_, rfl, .refl _⟩
  | construct hargs => exact ⟨_, rfl, hargs⟩

theorem eq_arm {pattern body : Node} (h : (arm p pattern body).Like n) :
    ∃ body', n = arm p pattern body' ∧ body.Like body' := by
  rcases h with rfl | ⟨h, hs⟩
  · exact ⟨_, rfl, .refl _⟩
  · cases h with
    | refl => exact ⟨_, rfl, .refl _⟩
    | arm hbody => exact ⟨_, rfl, .inr ⟨hbody, hs.of_subset (by simp [preorder])⟩⟩

theorem eq_caseOf {scrutinee : Node} {arms : List Node} (h : (caseOf p scrutinee arms).Like n) :
    ∃ scrutinee' arms', n = caseOf p scrutinee' arms' ∧ scrutinee.Like scrutinee'
      ∧ ReorderedAll arms arms' ∧ List.Forall₂ Like arms arms' := by
  rcases h with rfl | ⟨h, hs⟩
  · exact ⟨_, _, rfl, .refl _, .refl _, forall₂_like_of_eq rfl⟩
  · cases h with
    | refl => exact ⟨_, _, rfl, .refl _, .refl _, forall₂_like_of_eq rfl⟩
    | caseOf hscrutinee harms =>
      refine ⟨_, _, rfl, .inr ⟨hscrutinee, hs.of_subset ?_⟩, harms,
        harms.like fun a ha => hs.of_subset ?_⟩
      · simp [preorder]
      · exact fun m hm => by simp [preorder, mem_preorderAll ha hm]

theorem eq_letIn {name : Name} {value body t : Node} (h : (letIn p name value body t).Like n) :
    ∃ value' body', n = letIn p name value' body' t ∧ value.Like value' ∧ body.Like body' := by
  rcases h with rfl | ⟨h, hs⟩
  · exact ⟨_, _, rfl, .refl _, .refl _⟩
  · cases h with
    | refl => exact ⟨_, _, rfl, .refl _, .refl _⟩
    | letIn hvalue hbody =>
      refine ⟨_, _, rfl, .inr ⟨hvalue, hs.of_subset ?_⟩, .inr ⟨hbody, hs.of_subset ?_⟩⟩
      · simp [preorder]
      · exact fun m hm => by simp [preorder, hm]

theorem eq_seq {first rest : Node} (h : (seq p first rest).Like n) :
    ∃ first' rest', n = seq p first' rest' ∧ first.Like first' ∧ rest.Like rest' := by
  rcases h with rfl | ⟨h, hs⟩
  · exact ⟨_, _, rfl, .refl _, .refl _⟩
  · cases h with
    | refl => exact ⟨_, _, rfl, .refl _, .refl _⟩
    | seq hfirst hrest =>
      refine ⟨_, _, rfl, .inr ⟨hfirst, hs.of_subset ?_⟩, .inr ⟨hrest, hs.of_subset ?_⟩⟩
      · simp [preorder]
      · exact fun m hm => by simp [preorder, hm]

theorem eq_lambda {params : List Name} {body : Node} (h : (lambda p params body).Like n) :
    ∃ body', n = lambda p params body' ∧ body.Like body' := by
  rcases h with rfl | ⟨h, hs⟩
  · exact ⟨_, rfl, .refl _⟩
  · cases h with
    | refl => exact ⟨_, rfl, .refl _⟩
    | lambda hbody => exact ⟨_, rfl, .inr ⟨hbody, hs.of_subset (by simp [preorder])⟩⟩

theorem eq_block {ds : List Node} {body : Node} (h : (block p ds body).Like n) :
    ∃ ds' body', n = block p ds' body' ∧ body.Like body'
      ∧ (ds' = ds ∨ (Shuffled ds ds' ∧ SoundScope ds ∧ ∀ d ∈ ds, d.Sound)) := by
  rcases h with rfl | ⟨h, hs⟩
  · exact ⟨_, _, rfl, .refl _, .inl rfl⟩
  · cases h with
    | refl => exact ⟨_, _, rfl, .refl _, .inl rfl⟩
    | block declarations order hbody =>
      refine ⟨_, _, rfl, .inr ⟨hbody, hs.of_subset ?_⟩, .inr ⟨⟨_, declarations, order⟩,
        hs p ds body (by simp [preorder]), fun d hd => hs.of_subset ?_⟩⟩
      · exact fun m hm => by simp [preorder, hm]
      · exact fun m hm => by simp [preorder, mem_preorderAll hd hm]

end Like

end Node

/-! ## Values and scopes -/

/-- Functions with the same name and parameters, whose bodies
correspond. -/
structure Function.Like (f f' : Function) : Prop where
  /-- The name. -/
  name : f'.name = f.name
  /-- The parameters. -/
  params : f'.params = f.params
  /-- The bodies. -/
  body : f.body.Like f'.body

mutual

/-- **Values that are the same up to the order of declarations.** -/
inductive Value.Reordered : Value → Value → Prop
  | refl (v : Value) : Value.Reordered v v
  | data {c fs fs'} (fields : Value.ReorderedAll fs fs') :
      Value.Reordered (.data c fs) (.data c fs')
  | closure {f f' s s'} (function : f.Like f') (scope : Scope.Reordered s s') :
      Value.Reordered (.closure f s) (.closure f' s')

/-- The same for several values. -/
inductive Value.ReorderedAll : List Value → List Value → Prop
  | nil : Value.ReorderedAll [] []
  | cons {v v' vs vs'} (head : Value.Reordered v v') (tail : Value.ReorderedAll vs vs') :
      Value.ReorderedAll (v :: vs) (v' :: vs')

/-- **Scopes that are the same up to the order of declarations**: under
each name both have functions that correspond, or neither has any. -/
inductive Scope.Reordered : Scope → Scope → Prop
  | refl (s : Scope) : Scope.Reordered s s
  | bind {n v v' s s'} (value : Value.Reordered v v') (outer : Scope.Reordered s s') :
      Scope.Reordered (.bind n v s) (.bind n v' s')
  | functions {fs fs' s s'} (found : ∀ x : Name, Option.Rel Function.Like
        (fs.find? (·.name.same x)) (fs'.find? (·.name.same x)))
      (outer : Scope.Reordered s s') : Scope.Reordered (.functions fs s) (.functions fs' s')

end

namespace Value

theorem reorderedAll_iff {vs vs' : List Value} :
    ReorderedAll vs vs' ↔ List.Forall₂ Reordered vs vs' := by
  constructor
  · intro h
    induction vs generalizing vs' with
    | nil =>
      cases h
      exact .nil
    | cons v vs ih =>
      cases h with
      | cons head tail => exact .cons head (ih tail)
  · intro h
    induction h with
    | nil => exact .nil
    | cons head _ ih => exact .cons head ih

mutual

/-- Values that correspond look the same. -/
theorem Reordered.face_eq {v v' : Value} (h : Reordered v v') : v'.face = v.face := by
  cases h with
  | refl => rfl
  | data fields => rw [face, face, fields.faces_eq]
  | closure function scope => rw [face, face, function.name, function.params]

theorem ReorderedAll.faces_eq {vs vs' : List Value} (h : ReorderedAll vs vs') :
    faces vs' = faces vs := by
  cases h with
  | nil => rfl
  | cons head tail => rw [faces, faces, head.face_eq, tail.faces_eq]

end

theorem Reordered.fields {c c' : Name} {fs fs' : List Value}
    (h : Reordered (.data c fs) (.data c' fs')) : List.Forall₂ Reordered fs fs' := by
  cases h with
  | refl => exact List.forall₂_same.2 fun v _ => .refl v
  | data fields => exact reorderedAll_iff.1 fields

end Value

namespace Scope

theorem Reordered.lookup? {s s' : Scope} (h : s.Reordered s') (x : Name) :
    Option.Rel Value.Reordered (s.lookup? x) (s'.lookup? x) := by
  cases h with
  | refl =>
    cases s.lookup? x with
    | none => exact .none
    | some v => exact .some (.refl v)
  | bind value outer =>
    rw [Scope.lookup?, Scope.lookup?]
    split
    · exact .some value
    · exact outer.lookup? x
  | @functions fs fs' _ _ found outer =>
    rw [Scope.lookup?, Scope.lookup?]
    have hx := found x
    revert hx
    generalize fs.find? (·.name.same x) = r
    generalize fs'.find? (·.name.same x) = r'
    rintro (hf | _)
    · exact .some (.closure hf (.functions found outer))
    · exact outer.lookup? x

theorem Reordered.isBound_eq {s s' : Scope} (h : s.Reordered s') (x : Name) :
    s'.isBound x = s.isBound x := by
  have hx := h.lookup? x
  unfold isBound
  revert hx
  generalize s.lookup? x = r
  generalize s'.lookup? x = r'
  rintro (_ | _) <;> rfl

theorem Reordered.concur_get {s s' : Scope} (h : s.Reordered s') (x : Name)
    (p : Option Position) : Concur Eq Value.Reordered (s.get x p) (s'.get x p) := by
  unfold get
  refine (Concur.refl (R := fun _ _ => True) (fun _ => rfl) (fun _ => trivial) x.check).bind
    fun _ _ _ => ?_
  have hx := h.lookup? x
  revert hx
  generalize s.lookup? x = r
  generalize s'.lookup? x = r'
  rintro (hv | _)
  · exact hv
  · exact rfl

end Scope

/-! ## The likeness -/

variable {σ : Type} {R : σ → σ → Prop}

/-- **The likeness of runs of a program in two orders.** -/
def reordering (R : σ → σ → Prop) : Likeness σ where
  place := Eq
  failure := Eq
  value := Value.Reordered
  code s n s' n' := s.Reordered s' ∧ n.Like n'
  host := R
  traced := False

theorem Scope.Reordered.bindAll {s s' : Scope} (h : s.Reordered s') {bs bs' : List (Name × Value)}
    (hbs : (reordering R).Bindings bs bs') : (s.bindAll bs).Reordered (s'.bindAll bs') := by
  induction hbs generalizing s s' with
  | nil => exact h
  | @cons b b' bs bs' hb _ ih =>
    obtain ⟨n, v⟩ := b
    obtain ⟨n', v'⟩ := b'
    obtain ⟨rfl, hvalue⟩ := hb
    exact ih (.bind hvalue h)

/-! ## The functions of a scope -/

namespace Node

theorem Sound.function? {d d' : Node} (h : d.Sound) (hd : d.Reordered d') :
    Option.Rel Function.Like d.function? d'.function? := by
  cases hd with
  | refl =>
    cases d.function? with
    | none => exact .none
    | some f => exact .some ⟨rfl, rfl, .refl _⟩
  | funDecl body =>
    refine .some ⟨rfl, rfl, .inr ⟨body, h.of_subset fun m hm => ?_⟩⟩
    simp [preorder, hm]
  | _ => exact .none

/-- The functions that reordered declarations give, in the order of the
first. -/
theorem ReorderedAll.functions {ds es : List Node} (h : ReorderedAll ds es)
    (hsound : ∀ d ∈ ds, d.Sound) :
    List.Forall₂ Function.Like (ds.filterMap function?) (es.filterMap function?) := by
  induction ds generalizing es with
  | nil =>
    cases h
    exact .nil
  | cons d ds ih =>
    obtain ⟨hd, hds⟩ := List.forall_mem_cons.1 hsound
    cases h with
    | cons head tail =>
      rw [List.filterMap_cons, List.filterMap_cons]
      have hhead := hd.function? head
      revert hhead
      generalize d.function? = r
      generalize Node.function? _ = r'
      rintro (hf | _)
      · exact .cons hf (ih tail hds)
      · exact ih tail hds

end Node

theorem Function.map_name_eq {fs fs' : List Function} (h : List.Forall₂ Function.Like fs fs') :
    fs'.map Function.name = fs.map Function.name := by
  induction h with
  | nil => rfl
  | cons hf _ ih => rw [List.map_cons, List.map_cons, hf.name, ih]

/-- What is found under a name among functions that correspond. -/
theorem Function.find?_like {fs fs' : List Function} (h : List.Forall₂ Function.Like fs fs')
    (x : Name) :
    Option.Rel Function.Like (fs.find? (·.name.same x)) (fs'.find? (·.name.same x)) := by
  induction h with
  | nil => exact .none
  | cons hf _ ih =>
    rw [List.find?_cons, List.find?_cons, hf.name]
    split
    · exact .some hf
    · exact ih

namespace Node

/-- **A sound scope in another order**: nothing is wrong with it either,
and its functions are found under their names. -/
theorem Shuffled.functions {ds ds' : List Node} (h : Shuffled ds ds') (hsound : SoundScope ds)
    (hds : ∀ d ∈ ds, d.Sound) : SoundScope ds' ∧ ∀ x : Name, Option.Rel Function.Like
      ((ds.filterMap function?).find? (·.name.same x))
      ((ds'.filterMap function?).find? (·.name.same x)) := by
  obtain ⟨es, hes, hperm⟩ := id h
  have hlike := hes.functions hds
  have hperm' := hperm.filterMap function?
  have hdistinct : Name.Distinct ((es.filterMap function?).map Function.name) :=
    Function.map_name_eq hlike ▸ hsound.distinct
  refine ⟨⟨h.hasParams hsound.params, fun f' hf' => ?_, hdistinct.perm (hperm'.map _)⟩,
    fun x => ?_⟩
  · obtain ⟨f, hf, hlike⟩ := exists_mem_of_forall₂ hlike (hperm'.mem_iff.2 hf')
    rw [hlike.params]
    exact hsound.words f hf
  · rw [← hdistinct.find?_eq Function.name hperm' x]
    exact Function.find?_like hlike x

end Node

/-- The functions of a sound scope can be announced; nothing but the trace
changes. -/
theorem Engine.announce_of_soundScope (E : Engine σ) {ds : List Node} (h : Node.SoundScope ds)
    (j : Journal σ) : ∃ t, (E.announce ds).run j
      = (.ok (ds.filterMap Node.function?), { j with trace := t }) := by
  obtain ⟨t, ht⟩ := Run.traces_of_texts E.detail
    (fun f hf => Message.text_function (h.words f hf)) j
  refine ⟨t, ?_⟩
  unfold announce
  rw [h.declaredFunctions]
  exact run_bind_of_ok _ ht

theorem inStep_announce {E E' : Engine σ} (hdetail : E'.detail = E.detail) {ds ds' : List Node}
    (h : ds' = ds ∨ (Node.Shuffled ds ds' ∧ Node.SoundScope ds ∧ ∀ d ∈ ds, d.Sound)) :
    (reordering R).Runs (fun fs fs' => ∀ x : Name, Option.Rel Function.Like
        (fs.find? (·.name.same x)) (fs'.find? (·.name.same x)))
      (E.announce ds) (E'.announce ds') := by
  rcases h with rfl | ⟨hshuffled, hscope, hds⟩
  · unfold Engine.announce
    dsimp only
    have htraces : (reordering R).Runs (fun _ _ => True)
        ((Node.declaredFunctions ds').1.forM fun f => E.trace (.function f))
        ((Node.declaredFunctions ds').1.forM fun f => E'.trace (.function f)) := by
      refine InStep.forM (R := Eq) (List.forall₂_same.2 fun _ _ => rfl) ?_
      rintro f _ rfl
      exact Likeness.inStep_trace (fun _ => rfl) hdetail _ _ rfl rfl
    refine htraces.bind fun _ _ _ => ?_
    refine (Likeness.inStep_lift (Concur.refl (R := fun _ _ => True) (fun _ => rfl)
      (fun _ => trivial) _)).bind fun _ _ _ => ?_
    exact .pure (Function.find?_like (List.forall₂_same.2 fun f _ => ⟨rfl, rfl, .refl _⟩))
  · obtain ⟨hscope', hfound⟩ := hshuffled.functions hscope hds
    intro j j' hj
    obtain ⟨t, ht⟩ := E.announce_of_soundScope hscope j
    obtain ⟨t', ht'⟩ := E'.announce_of_soundScope hscope' j'
    rw [ht, ht']
    exact ⟨⟨hj.host, hj.effects, hj.observed, False.elim⟩, hfound⟩

/-! ## The arms of a case -/

theorem getElem?_of_forall₂ {α β : Type} {Q : α → β → Prop} {l : List α} {l' : List β}
    (h : List.Forall₂ Q l l') {i : Nat} {a : α} (ha : l[i]? = some a) :
    ∃ b, l'[i]? = some b ∧ Q a b := by
  induction h generalizing i with
  | nil => cases ha
  | cons hab _ ih =>
    cases i with
    | zero =>
      obtain rfl := Option.some.inj ha
      exact ⟨_, rfl, hab⟩
    | succ i => exact ih ha

theorem arms_of_reordered {E E' : Engine σ}
    (hcases : ∀ x, E'.caseTable.get? x = E.caseTable.get? x) {s s' : Scope} (hs : s.Reordered s')
    {arms arms' : List Node} (harms : Node.ReorderedAll arms arms')
    (hlike : List.Forall₂ Node.Like arms arms') :
    (reordering R).Arms E E' s arms s' arms' := by
  have hcompile := Case.compile_reordered hcases harms
  unfold Likeness.Arms
  revert hcompile
  cases hc : Case.compile E.caseTable arms with
  | error f =>
    cases hc' : Case.compile E'.caseTable arms' with
    | error f' => exact fun _ => .inl ⟨f, f', rfl, rfl⟩
    | ok c' => exact False.elim
  | ok c =>
    cases hc' : Case.compile E'.caseTable arms' with
    | error f' => exact False.elim
    | ok c' =>
      intro hsame
      refine .inr ⟨c, c', rfl, rfl, fun v v' hv => ?_⟩
      -- Compiled, the arms answer alike; and values that look the same are
      -- answered alike.
      rw [hsame.select?_eq]
      rcases Case.select?_rel (L := reordering R) (fun _ _ h => h.face_eq)
        (fun _ _ _ _ h => h.fields) c hv with hnone | ⟨i, b, b', hr, hr', hb⟩
      · exact .inl hnone
      · obtain ⟨q, pattern, body, -, -, harm, -, -⟩ := Case.armMatches_of_select? hc hr
        obtain ⟨n', harm', hn'⟩ := getElem?_of_forall₂ hlike harm
        obtain ⟨body', rfl, hbody⟩ := hn'.eq_arm
        exact .inr ⟨i, b, b', hr, hr', q, pattern, body, q, pattern, body', harm, harm',
          hs.bindAll hb, hbody⟩

/-! ## Runs in step -/

/-- The same callees name foreign functions. -/
theorem foreignName?_eq {E E' : Engine σ}
    (hexterns : ∀ x : Name, E'.externs.find? (·.1.same x) = E.externs.find? (·.1.same x))
    {s s' : Scope} (hs : s.Reordered s') {callee callee' : Node} (h : callee.Like callee') :
    E'.foreignName? s' callee' = E.foreignName? s callee := by
  have hsame : E'.foreignName? s' callee = E.foreignName? s callee := by
    cases callee with
    | var p x =>
      rw [Engine.foreignName?, Engine.foreignName?, hs.isBound_eq, ← List.isSome_find?, hexterns,
        List.isSome_find?]
    | _ => rfl
  rcases h with rfl | ⟨h, -⟩
  · exact hsame
  · cases h with
    | refl => exact hsame
    | _ => rfl

theorem reordering_results_refl (r : HostResult) : (reordering R).Results r r := by
  cases r with
  | value v => exact .refl v
  | _ => rfl

/-- **Engines whose tables answer alike keep in step** on programs in two
orders. -/
theorem reordering_simulates {E E' : Engine σ} (hnatives : E'.natives = E.natives)
    (hrespects : ∀ n ∈ E.natives, (reordering R).Respects n)
    (hintrinsics : E'.intrinsics = E.intrinsics) (hdetail : E'.detail = E.detail)
    (hexterns : ∀ x : Name, E'.externs.find? (·.1.same x) = E.externs.find? (·.1.same x))
    (htable : ∀ x, E'.table.get? x = E.table.get? x)
    (hcases : ∀ x, E'.caseTable.get? x = E.caseTable.get? x) :
    Simulates (reordering R) E E' where
  failure_refl _ := rfl
  failure_of h c := by rw [show _ = _ from h]; rfl
  place_none := rfl
  constant l := .refl l.value
  unitValue := .refl .unit
  computed _ _ _ r _ := reordering_results_refl r
  face := Value.Reordered.face_eq
  data _ _ _ h := .data (Value.reorderedAll_iff.2 h)
  closure := by
    rintro f s f' s' h args args' - hargs
    cases h with
    | refl =>
      exact ⟨(Scope.Reordered.refl s).bindAll ((reordering R).bindings_zip f.params hargs), .refl _⟩
    | closure function scope =>
      rw [function.params]
      exact ⟨scope.bindAll ((reordering R).bindings_zip f.params hargs), function.body⟩
  natives := hnatives
  respects := hrespects
  intrinsics := hintrinsics
  detail := hdetail
  externs x := by rw [hexterns]
  literal h := ⟨_, h.2.eq_literal⟩
  unit h := ⟨_, h.2.eq_unit⟩
  var := by
    rintro s p x s' n' ⟨hs, hn⟩
    exact ⟨p, hn.eq_var, hs.concur_get x p⟩
  call := by
    rintro s p callee args s' n' ⟨hs, hn⟩
    obtain ⟨callee', args', rfl, hcallee, hargs⟩ := hn.eq_call
    exact ⟨p, callee', args', rfl, rfl, ⟨hs, hcallee⟩, hargs.imp fun _ _ h => ⟨hs, h⟩,
      foreignName?_eq hexterns hs hcallee⟩
  intrinsicCall := by
    rintro s p op args s' n' ⟨hs, hn⟩
    obtain ⟨args', rfl, hargs⟩ := hn.eq_intrinsicCall
    exact ⟨p, args', rfl, rfl, hargs.imp fun _ _ h => ⟨hs, h⟩⟩
  directiveCall := by
    rintro s p name args s' n' ⟨hs, hn⟩
    obtain ⟨args', rfl, hargs⟩ := hn.eq_directiveCall
    exact ⟨p, args', rfl, rfl, hargs.imp fun _ _ h => ⟨hs, h⟩⟩
  construct := by
    rintro s p c args s' n' ⟨hs, hn⟩
    obtain ⟨args', rfl, hargs⟩ := hn.eq_construct
    exact ⟨p, args', rfl, rfl, hargs.imp fun _ _ h => ⟨hs, h⟩, htable c⟩
  caseOf := by
    rintro s p scrutinee arms s' n' ⟨hs, hn⟩
    obtain ⟨scrutinee', arms', rfl, hscrutinee, harms, hlike⟩ := hn.eq_caseOf
    exact ⟨p, scrutinee', arms', rfl, rfl, ⟨hs, hscrutinee⟩,
      arms_of_reordered hcases hs harms hlike⟩
  letIn := by
    rintro s p name value body t s' n' ⟨hs, hn⟩
    obtain ⟨value', body', rfl, hvalue, hbody⟩ := hn.eq_letIn
    exact ⟨p, value', body', t, rfl, ⟨hs, hvalue⟩, fun v v' hv => ⟨.bind hv hs, hbody⟩⟩
  seq := by
    rintro s p first rest s' n' ⟨hs, hn⟩
    obtain ⟨first', rest', rfl, hfirst, hrest⟩ := hn.eq_seq
    exact ⟨p, first', rest', rfl, ⟨hs, hfirst⟩, ⟨hs, hrest⟩⟩
  lambda := by
    rintro s p params body s' n' ⟨hs, hn⟩
    obtain ⟨body', rfl, hbody⟩ := hn.eq_lambda
    exact ⟨p, body', rfl, .closure ⟨rfl, rfl, hbody⟩ hs⟩
  block := by
    rintro s p ds body s' n' ⟨hs, hn⟩
    obtain ⟨ds', body', rfl, hbody, hds⟩ := hn.eq_block
    refine ⟨p, ds', body', rfl, (inStep_announce hdetail hds).mono fun fs fs' hfound => ?_⟩
    exact ⟨.functions hfound hs, hbody⟩
  misplaced := by
    rintro s n s' n' ⟨-, hn⟩ hrule
    exact ⟨hn.hasRule_eq.trans hrule, hn.className_eq⟩

/-! ## Programs -/

namespace Node

theorem eq_program_of_reordered {p : Option Position} {ds : List Node} {body n : Node}
    (h : (program p ds body).Reordered n) :
    ∃ ds' body', n = program p ds' body' ∧ Shuffled ds ds' ∧ body.Reordered body' := by
  cases h with
  | refl => exact ⟨ds, body, rfl, .refl ds, .refl body⟩
  | program declarations order hbody => exact ⟨_, _, rfl, ⟨_, declarations, order⟩, hbody⟩

/-- The scopes of a checked program can be put in any order. -/
theorem soundScope_of_checkDeclarations {V : Vocabulary} {p : Option Position} {ds : List Node}
    {body : Node} {t : ConstructorTable} (hprogram : (program p ds body).isProgram V = true)
    (ht : (program p ds body).checkDeclarations = .ok t) :
    ∀ es ∈ (program p ds body).scopes ds, SoundScope es := by
  obtain ⟨-, -, hclear⟩ := checkDeclarations_eq_ok_iff.1 ht
  exact fun es hes =>
    soundScope_of_isClear (isDeclaration_of_mem_scopes hprogram hes) (hclear es hes)

theorem sound_of_checkDeclarations {V : Vocabulary} {p : Option Position} {ds : List Node}
    {body : Node} {t : ConstructorTable} (hprogram : (program p ds body).isProgram V = true)
    (ht : (program p ds body).checkDeclarations = .ok t) : (program p ds body).Sound := by
  intro q es b hblock
  refine soundScope_of_checkDeclarations hprogram ht es ?_
  rw [scopes_eq]
  exact List.mem_cons_of_mem _ (List.mem_filterMap.2 ⟨_, hblock, rfl⟩)

end Node

namespace Session

/-- **Two runs keep in step** if what they have loaded does. -/
theorem inStep_run {L : Likeness σ} {p p' : Option Position} {ds ds' : List Node}
    {body body' : Node} {I I' I₁ I₁' : Interpreter σ}
    (hload : ExceptT.run (load (.program p ds body)) I = (.ok (), I₁))
    (hload' : ExceptT.run (load (.program p' ds' body')) I' = (.ok (), I₁'))
    (G : Simulates L I₁.engine I₁'.engine) (hdepth : I₁'.runDepth = I₁.runDepth)
    (hbody : L.code I₁.globals body I₁'.globals body')
    (hjournal : L.Journals I₁.journal I₁'.journal) :
    L.Journals (ExceptT.run (run (.program p ds body)) I).2.journal
        (ExceptT.run (run (.program p' ds' body')) I').2.journal
      ∧ Concur L.failure L.value (ExceptT.run (run (.program p ds body)) I).1
        (ExceptT.run (run (.program p' ds' body')) I').1 := by
  rw [run_of_loaded hload, run_of_loaded hload', run_keepEngine, run_keepEngine, hdepth]
  exact Engine.inStep_result G I₁.runDepth hbody I₁.journal I₁'.journal hjournal

end Session

/-- **Two interpreters that have loaded a program in two orders**: all is
found under its name in both, and they differ in the trace only. -/
structure Interpreter.Reordered (I I' : Interpreter σ) : Prop where
  /-- The host is the same. -/
  natives : I'.natives = I.natives
  /-- So are the intrinsics. -/
  intrinsics : I'.intrinsics = I.intrinsics
  /-- The traces are equally detailed. -/
  detail : I'.detail = I.detail
  /-- Calls may nest as deep. -/
  maxDepth : I'.maxDepth = I.maxDepth
  /-- The same foreign functions are found. -/
  externs : ∀ x : Name, I'.externs.find? (·.1.same x) = I.externs.find? (·.1.same x)
  /-- The same constructors are found. -/
  table : ∀ x, I'.table.get? x = I.table.get? x
  /-- The same holds for cases. -/
  caseTable : ∀ x, I'.caseTable.get? x = I.caseTable.get? x
  /-- The functions are found. -/
  globals : I.globals.Reordered I'.globals
  /-- The journals differ in the trace. -/
  journal : ∃ t, I'.journal = { I.journal with trace := t }

theorem Interpreter.Reordered.simulates {I I' : Interpreter σ} (h : I.Reordered I')
    (hnatives : ∀ n ∈ I.natives, (reordering R).Respects n) :
    Simulates (reordering R) I.engine I'.engine :=
  reordering_simulates h.natives hnatives h.intrinsics h.detail h.externs h.table h.caseTable

namespace Session

/-- **A program that loads also loads in another order.** -/
theorem load_reordered {V : Node.Vocabulary} {p : Option Position} {ds ds' : List Node}
    {body body' : Node} {I I₁ : Interpreter σ}
    (hprogram : (Node.program p ds body).isProgram V = true)
    (hload : ExceptT.run (load (.program p ds body)) I = (.ok (), I₁))
    (hds : Node.Shuffled ds ds') (hbody : body.Reordered body') :
    ∃ t I₂, (Node.program p ds' body').checkDeclarations = .ok t
      ∧ ExceptT.run (load (.program p ds' body')) I = (.ok (), I₂) ∧ I₁.Reordered I₂ := by
  obtain ⟨_, _, _, externs, T, cases, fs, trace, ⟨⟩, hexterns, hT, hknown, hcases, hfs, rfl⟩ :=
    load_ok hload
  -- What the checks have found in one order.
  obtain ⟨-, -, hclear⟩ := Node.checkDeclarations_eq_ok_iff.1 hT
  have hscope := hclear ds (by rw [Node.scopes_eq]; exact List.mem_cons_self)
  have hsound := Node.sound_of_checkDeclarations hprogram hT
  have hfunctions := hds.functions
    (Node.soundScope_of_checkDeclarations hprogram hT ds (by
      rw [Node.scopes_eq]
      exact List.mem_cons_self))
    fun d hd => hsound.of_subset fun m hm => by simp [Node.preorder, Node.mem_preorderAll hd hm]
  obtain ⟨hscope', hfound⟩ := hfunctions
  obtain rfl : externs = ds.filterMap Node.extern? :=
    Except.ok.inj (hexterns.symm.trans (Node.externsOf_of_isClear hscope))
  obtain ⟨-, rfl⟩ := Node.declaredFunctions_eq_ok_iff.1 hfs
  -- The same is found in the other, and this is all that loading asks for.
  obtain ⟨T', hT', htable⟩ := hds.checkDeclarations hbody hT
  have hclear' := (Node.checkDeclarations_eq_ok_iff.1 hT').2.2 ds' (by
    rw [Node.scopes_eq]
    exact List.mem_cons_self)
  rw [Node.walk_eq_preorder rfl] at hknown
  have hknown' := (hds.reordered_program hbody).preorder.checkIntrinsics hknown
  rw [← Node.walk_eq_preorder rfl] at hknown'
  have hnode : body.isNode = true := by
    rw [Node.isProgram, Bool.and_eq_true] at hprogram
    exact Node.isNode_of_isExpression hprogram.2
  obtain ⟨cases', hcases'⟩ := hds.compileCases htable hbody hnode hcases
  obtain ⟨trace', hload'⟩ := load_of_checks (I := I) (Node.externsOf_of_isClear hclear') hT' hknown'
    hcases' hscope'.declaredFunctions hscope'.words
  exact ⟨T', _, hT', hload', rfl, rfl, rfl, rfl, hds.find?_externs hscope, htable, htable,
    .functions hfound (.refl _), trace', rfl⟩

end Session

/-! ## Hosts that treat closures opaquely -/

theorem faces_eq_of_reordered {vs vs' : List Value} (h : List.Forall₂ Value.Reordered vs vs') :
    Value.faces vs' = Value.faces vs := (Value.reorderedAll_iff.2 h).faces_eq

theorem Native.Onlooker.respects {n : Native σ} (h : n.Onlooker) :
    (reordering Eq).Respects n := by
  rintro s _ args args' rfl hargs
  rw [← h.faces s args', faces_eq_of_reordered hargs, h.faces]
  rcases h.ends s args with ⟨t, r, hrun⟩ | ⟨t, f, hrun⟩
  · rw [hrun]
    exact ⟨rfl, reordering_results_refl r⟩
  · rw [hrun]
    exact ⟨rfl, rfl⟩

/-- The function that calls its first argument does not look into it. -/
theorem Stock.respects_apply (name : String) (arity? : Option Nat) :
    (reordering Eq).Respects (Stock.apply.native name arity?) := by
  rintro d _ args args' rfl hargs
  cases hargs with
  | nil => exact ⟨rfl, rfl⟩
  | cons hf hrest =>
    refine ⟨rfl, hf, hrest, ?_⟩
    rintro t _ o o' rfl ho
    cases o with
    | ok v =>
      cases o' with
      | ok v' => exact ⟨rfl, ho⟩
      | error f => exact ho.elim
    | error f =>
      cases o' with
      | ok v' => exact ho.elim
      | error f' => exact ⟨rfl, ho⟩

namespace Session

open Node (program funDecl externDecl typeSpec param block literal var absent)

/-- **The order of declarations does not matter.** A program that was read
from a text and loads still passes its checks and loads when its
declarations, and those of its blocks, are put in any other order. With a
host that treats closures opaquely it runs as before: with the same
failure at the same position or a result that looks the same, the same
foreign calls on arguments that look the same, and a host left in a
corresponding state. -/
theorem run_reordered (text : String) (frames : Int) (root root' : Node) (I : Interpreter σ)
    (R : σ → σ → Prop) (hsource : Node.ofSource text frames = .ok root)
    (horder : root.Reordered root') (hload : (I.perform (load root)).1 = .ok ())
    (hnatives : ∀ n ∈ I.natives, (reordering R).Respects n)
    (hhost : R I.journal.host I.journal.host) :
    (∃ t, root'.checkDeclarations = .ok t) ∧ (I.perform (load root')).1 = .ok ()
      ∧ (I.perform (run root')).1.map Value.face = (I.perform (run root)).1.map Value.face
      ∧ (I.perform (run root')).2.journal.effects.map Effect.face
        = (I.perform (run root)).2.journal.effects.map Effect.face
      ∧ (I.perform (run root')).2.journal.observed.map Effect.face
        = (I.perform (run root)).2.journal.observed.map Effect.face
      ∧ R (I.perform (run root)).2.journal.host (I.perform (run root')).2.journal.host := by
  have hload₁ : I.perform (load root) = (.ok (), (I.perform (load root)).2) := Prod.ext hload rfl
  obtain ⟨p, ds, body, fs, rfl, L⟩ := loaded_of_load hload₁
  obtain ⟨V, ht, hprogram⟩ := Node.isProgram_of_ofSource hsource
  obtain ⟨ds', body', rfl, hds, hbody⟩ := Node.eq_program_of_reordered horder
  obtain ⟨t, I₂, hcheck, hload₂, hreordered⟩ := load_reordered hprogram hload₁ hds hbody
  have hsound := Node.sound_of_checkDeclarations hprogram ht
  have hlike : body.Like body' := .inr ⟨hbody, hsound.of_subset fun m hm => by
    simp [Node.preorder, hm]⟩
  obtain ⟨trace, hjournal⟩ := hreordered.journal
  have hnew : (reordering R).Journals (I.perform (load (.program p ds body))).2.journal
      I₂.journal := by
    rw [hjournal]
    refine ⟨L.host ▸ hhost, ?_, ?_, False.elim⟩
    · rw [L.effects]
      exact .nil
    · obtain ⟨_, _, _, _, _, _, _, _, -, -, -, -, -, -, hI⟩ := load_ok hload₁
      rw [hI]
      exact .nil
  have G := hreordered.simulates (R := R) (L.natives ▸ hnatives)
  obtain ⟨hjournals, houtcome⟩ := inStep_run hload₁ hload₂ G
    (by rw [Interpreter.runDepth, hreordered.maxDepth]; rfl) ⟨hreordered.globals, hlike⟩ hnew
  exact ⟨⟨t, hcheck⟩, congrArg Prod.fst hload₂, houtcome.map_eq fun _ _ hv => hv.face_eq,
    G.map_face_effects hjournals.effects, G.map_face_effects hjournals.observed, hjournals.host⟩

/-- A program with a function that has two local ones; its call is left to
the host, and what it gives is printed. -/
def echoText : String :=
  "begin fun f(x)=begin fun g()=h()fun h()=x in g()end extern print:fun(t)->();"
    ++ "extern a:fun(t,t)->t;in print(a(f,true));f end"

/-- Its local functions. -/
def echoLocals : List Node :=
  [funDecl (some ⟨1, 22⟩) "g" [] [] (.call (some ⟨1, 30⟩) (var (some ⟨1, 30⟩) "h") []) absent,
    funDecl (some ⟨1, 33⟩) "h" [] [] (var (some ⟨1, 41⟩) "x") absent]

/-- Its function, with local ones. -/
def echoFunction (locals : List Node) : Node :=
  funDecl (some ⟨1, 7⟩) "f" [] [param (some ⟨1, 13⟩) "x" absent]
    (block (some ⟨1, 16⟩) locals (.call (some ⟨1, 46⟩) (var (some ⟨1, 46⟩) "g") [])) absent

/-- Its foreign functions. -/
def echoExterns : List Node :=
  [externDecl (some ⟨1, 53⟩) "print" [] [typeSpec (.mk "t" [])] (typeSpec (.mk "()" [])),
    externDecl (some ⟨1, 77⟩) "a" [] [typeSpec (.mk "t" []), typeSpec (.mk "t" [])]
      (typeSpec (.mk "t" []))]

/-- The program, by its declarations. -/
def echoProgram (declarations : List Node) : Node :=
  program (some ⟨1, 1⟩) declarations
    (.seq (some ⟨1, 117⟩)
      (.call (some ⟨1, 101⟩) (var (some ⟨1, 101⟩) "print")
        [.call (some ⟨1, 107⟩) (var (some ⟨1, 107⟩) "a")
          [var (some ⟨1, 109⟩) "f", literal (some ⟨1, 111⟩) (.bool true)]])
      (var (some ⟨1, 118⟩) "f"))

/-- An interpreter with a console and a function that calls its
argument. -/
def echoHost : Interpreter Desk where
  natives := Stock.apply.native "a" (some 2) :: Desk.consoleNatives
  journal := { host := { console := { input := [] } } }

theorem ofSource_echoText :
    Node.ofSource echoText 1000 = .ok (echoProgram (echoFunction echoLocals :: echoExterns)) := by
  refine @Node.ofSource_of_tokens _ _ ?tokens
    (echoProgram (echoFunction echoLocals :: echoExterns)) _ ?scanned ?read ?resolved
  case scanned =>
    cbv
    rfl
  case read => rfl
  case resolved =>
    unfold Node.resolveProgram Node.checkDeclarations Node.scopes
    rw [Node.walk_eq_preorder rfl]
    rfl

/-- All its declarations are put in the opposite order. -/
theorem run_echoProgram_reordered :
    Node.ofSource echoText 1000 = .ok (echoProgram (echoFunction echoLocals :: echoExterns))
      ∧ ∃ ds, ds = echoExterns.reverse ++ [echoFunction echoLocals.reverse]
        ∧ (echoHost.perform (load (echoProgram ds))).1 = .ok ()
        ∧ (echoHost.perform (run (echoProgram ds))).1.map Value.face
          = (echoHost.perform (run
            (echoProgram (echoFunction echoLocals :: echoExterns)))).1.map Value.face
        ∧ (echoHost.perform (run (echoProgram ds))).2.journal.host.console.output = "true\n" := by
  have hload : (echoHost.perform (load
      (echoProgram (echoFunction echoLocals :: echoExterns)))).1 = .ok () := by decide +kernel
  have houtput : (echoHost.perform (run
      (echoProgram (echoFunction echoLocals :: echoExterns)))).2.journal.host.console.output
        = "true\n" := by decide +kernel
  have horder : (echoProgram (echoFunction echoLocals :: echoExterns)).Reordered
      (echoProgram (echoExterns.reverse ++ [echoFunction echoLocals.reverse])) :=
    .program (.cons (.funDecl (.block (.refl _) (List.reverse_perm _).symm (.refl _))) (.refl _))
      (List.reverse_perm (echoFunction echoLocals.reverse :: echoExterns)).symm (.refl _)
  have hnatives : ∀ n ∈ echoHost.natives, (reordering Eq).Respects n := by
    intro n hn
    rcases List.mem_cons.1 hn with rfl | hn
    · exact Stock.respects_apply "a" (some 2)
    · obtain ⟨native, hnative, rfl⟩ := List.mem_map.1 hn
      exact (Console.onlooker_natives native hnative).embed.respects
  obtain ⟨-, hload', hvalue, -, -, hhost⟩ := run_reordered echoText 1000 _ _ echoHost Eq
    ofSource_echoText horder hload hnatives rfl
  exact ⟨ofSource_echoText, _, rfl, hload', hvalue, hhost ▸ houtput⟩

end Session

end EmberLang
