import EmberLang.Proofs.Loading
import EmberLang.Proofs.StandardIntrinsics
import Mathlib

/-!
# Names that are bound where they stand

Whether a variable has a value when it is evaluated can be read off the
text: it has one if it stands below something that binds it – a function
of the program or of a block around it, a parameter, a local definition,
or a variable of the pattern of its arm. A foreign function may be named
where it is called, and nowhere else. `Node.isScoped` computes whether all
variables of a tree are bound like this.

The text binds names in one place and evaluation looks them up in another,
after closures have travelled through data and through the host. What ties
the two together is the discipline `lexical`: an expression may run
wherever all names are bound that its text relies on, and a data value has
as many fields as its constructor takes. The second half is needed for the
first: patterns and fields are paired as far as both go, so only with the
right number of fields does a match bind all variables of its pattern. The
main result is that such a program never wants the value of a variable,
whatever the host does with the values it gets.
-/

namespace EmberLang

/-! ## Bound names -/

namespace Node

/-- The names of the functions among some declarations. -/
def functionNames (declarations : List Node) : List Name :=
  declarations.filterMap fun
    | funDecl _ name _ _ _ _ => some name
    | _ => none

/-- The names of the foreign functions among some declarations. -/
def externNames (declarations : List Node) : List Name :=
  declarations.filterMap fun
    | externDecl _ name _ _ _ => some name
    | _ => none

/-- Whether a node is a variable with one of the given names. -/
def isNameIn (names : List Name) : Node → Bool
  | var _ name => names.any (·.same name)
  | _ => false

mutual

/-- **Whether all variables are bound where they stand**, where `bound`
are the names bound around the node and `externs` those of the foreign
functions, which may only be called. -/
def isScoped (t : ConstructorTable) (externs bound : List Name) : Node → Bool
  | program _ ds body =>
    isScopedAll t externs (functionNames ds ++ bound) ds
      && isScoped t externs (functionNames ds ++ bound) body
  | funDecl _ _ _ params body _ => isScoped t externs (params.filterMap name? ++ bound) body
  | var p name => isNameIn bound (var p name)
  | call _ callee args =>
    (isNameIn externs callee || isScoped t externs bound callee) && isScopedAll t externs bound args
  | intrinsicCall _ _ args => isScopedAll t externs bound args
  | directiveCall _ _ args => isScopedAll t externs bound args
  | construct _ _ args => isScopedAll t externs bound args
  | arm _ pattern body => isScoped t externs (patternVars t pattern ++ bound) body
  | caseOf _ scrutinee arms =>
    isScoped t externs bound scrutinee && isScopedAll t externs bound arms
  | letIn _ name value body _ =>
    isScoped t externs bound value && isScoped t externs (name :: bound) body
  | seq _ first rest => isScoped t externs bound first && isScoped t externs bound rest
  | lambda _ params body => isScoped t externs (params ++ bound) body
  | block _ ds body =>
    isScopedAll t externs (functionNames ds ++ bound) ds
      && isScoped t externs (functionNames ds ++ bound) body
  | _ => true

/-- Whether all variables of several trees are bound. -/
def isScopedAll (t : ConstructorTable) (externs bound : List Name) : List Node → Bool
  | [] => true
  | n :: ns => isScoped t externs bound n && isScopedAll t externs bound ns

end

theorem isScopedAll_iff {t : ConstructorTable} {externs bound : List Name} {ns : List Node} :
    isScopedAll t externs bound ns = true ↔ ∀ n ∈ ns, n.isScoped t externs bound = true := by
  induction ns with
  | nil => simp [isScopedAll]
  | cons n ns ih => simp [isScopedAll, ih]

/-- The names of the foreign functions that a program declares. -/
def declaredExterns (root : Node) : List Name :=
  match root.scope? with
  | some (declarations, _) => externNames declarations
  | none => []

/-- **Whether all variables of a program are bound where they stand.** -/
def isLexicallyScoped (t : ConstructorTable) (root : Node) : Bool :=
  root.isScoped t root.declaredExterns []

end Node

/-! ## The discipline -/

/-- **The discipline of lexical scope.** -/
def lexical (t : ConstructorTable) (externs : List Name) : Discipline where
  Code Γ n := ∃ bound : List Name,
    (∀ x, bound.any (·.same x) = true → Γ x) ∧ n.isScoped t externs bound = true
  Data c k := ∃ d, t.get? c = some d ∧ d.arity = k

/-- **A discipline allows only data as declared** in a table: of known
constructors, with as many fields as they take. -/
def Discipline.AsDeclared (D : Discipline) (t : ConstructorTable) : Prop :=
  ∀ c k, D.Data c k → ∃ d, t.get? c = some d ∧ d.arity = k

namespace Node

variable {t : ConstructorTable} {D : Discipline}

/-- Data that is as declared has as many fields as its constructor takes,
by whichever of its names this is found. -/
theorem length_fields_of_kept (hdata : D.AsDeclared t) {c d : Name} {fields : List Value}
    (hv : (Value.data d fields).Kept D) (hsame : c.same d = true) {known : Constructor}
    (hget : t.get? c = some known) : fields.length = known.arity := by
  obtain ⟨known', hknown', harity⟩ := hdata _ _ hv.1
  rw [t.get?_congr hsame, hknown'] at hget
  rw [← harity, Option.some.inj hget]

mutual

/-- **Data that is as declared has the fields that a pattern asks for**, if
it matches. -/
theorem countsFields_of_kept (hdata : D.AsDeclared t) (n : Node)
    (hagree : n.agreesWith t = true) {v : Value} (hv : v.Kept D)
    {start bindings : List (Name × Value)}
    (hm : (n.resolvedPattern t).matchPattern start v = some bindings) :
    (n.resolvedPattern t).countsFields v = true := by
  cases n with
  | patternVar p name =>
    rw [agreesWith, Bool.and_eq_true] at hagree
    rw [resolvedPattern, ConstructorTable.contains] at hm ⊢
    cases hget : t.get? name with
    | none => rfl
    | some known =>
      rw [hget] at hm hagree
      obtain ⟨d, fields, rfl, hsame, -⟩ := exists_data_of_matchPattern hm
      have hlength := length_fields_of_kept hdata hv hsame hget
      rw [eq_of_beq hagree.2, List.length_eq_zero_iff] at hlength
      rw [hlength]
      rfl
  | patternCtor p c args =>
    simp only [agreesWith, Bool.and_eq_true, Option.any_eq_true, beq_iff_eq] at hagree
    obtain ⟨⟨-, known, hget, harity⟩, hargs⟩ := hagree
    obtain ⟨d, fields, rfl, hsame, hfields⟩ := exists_data_of_matchPattern hm
    have hlength := length_fields_of_kept hdata hv hsame hget
    exact countsAllFields_of_kept hdata args hargs hv.2 (harity.symm.trans hlength.symm) hfields
  | _ => simp [resolvedPattern, countsFields]

theorem countsAllFields_of_kept (hdata : D.AsDeclared t) (ns : List Node)
    (hagree : allAgreeWith t ns = true) {vs : List Value} (hvs : Value.KeptAll D vs)
    (hlength : ns.length = vs.length) {start bindings : List (Name × Value)}
    (hm : matchPatterns start (resolvedPatterns t ns) vs = some bindings) :
    countsAllFields (resolvedPatterns t ns) vs = true := by
  cases ns with
  | nil =>
    obtain rfl := List.length_eq_zero_iff.1 hlength.symm
    rfl
  | cons n ns =>
    cases vs with
    | nil => cases hlength
    | cons v vs =>
      rw [allAgreeWith, Bool.and_eq_true] at hagree
      rw [resolvedPatterns, matchPatterns] at hm
      rw [resolvedPatterns, countsAllFields, Bool.and_eq_true]
      split at hm
      · next middle hmiddle =>
        exact ⟨countsFields_of_kept hdata n hagree.1 hvs.1 hmiddle,
          countsAllFields_of_kept hdata ns hagree.2 hvs.2 (Nat.succ.inj hlength) hm⟩
      · cases hm

end

/-- **What matches and is as declared is an instance.** -/
theorem isInstanceOf_of_kept (hdata : D.AsDeclared t) {pattern : Node} {names : List Name}
    {resolved : Node}
    (hr : pattern.resolvePattern t [] = .ok (resolved, names)) {v : Value} (hv : v.Kept D)
    {bindings : List (Name × Value)} (hm : resolved.matchPattern [] v = some bindings) :
    v.IsInstanceOf resolved := by
  obtain ⟨hagree, -, rfl, -⟩ := (resolvePattern_eq_ok_iff pattern .nil).1 hr
  exact (Value.isInstanceOf_iff [] _ v).2
    ⟨Option.isSome_iff_exists.2 ⟨bindings, hm⟩, countsFields_of_kept hdata pattern hagree hv hm⟩

/-- **A match binds the variables of its pattern** in data that is as
declared. -/
theorem matchPattern_binds (hdata : D.AsDeclared t) {pattern : Node} {names : List Name}
    {resolved : Node}
    (hr : pattern.resolvePattern t [] = .ok (resolved, names)) {v : Value} (hv : v.Kept D)
    {bindings : List (Name × Value)} (hm : resolved.matchPattern [] v = some bindings) :
    bindings.map (·.1) = pattern.patternVars t := by
  have hinstance := isInstanceOf_of_kept hdata hr hv hm
  obtain ⟨-, -, rfl, -⟩ := (resolvePattern_eq_ok_iff pattern .nil).1 hr
  rw [hinstance.names_bindings hm, names_places_resolvedPattern]

/-! ## Declared functions -/

/-- The parameters of a function are the names of its parameters. -/
theorem paramNames_eq_filterMap {params : List Node} {names : List Name}
    (h : paramNames params = .ok names) : params.filterMap name? = names := by
  induction params generalizing names with
  | nil => exact Except.ok.inj h
  | cons n ns ih =>
    unfold paramNames at h
    split at h
    · next name hname =>
      obtain ⟨rest, hrest, h⟩ := bind_eq_ok h
      obtain rfl := Except.ok.inj h
      rw [List.filterMap_cons_some hname, ih hrest]
    · cases h

theorem functionNames_of_declaredFunctions {ds : List Node} {fs : List Function}
    (h : declaredFunctions ds = (fs, .ok ())) : functionNames ds = fs.map (·.name) := by
  fun_induction declaredFunctions ds generalizing fs with
  | case1 =>
    obtain rfl := (Prod.mk.inj h).1
    rfl
  | case2 p name tps params body r rest names hnames fs' outcome hrest ih =>
    obtain ⟨rfl, rfl⟩ := Prod.mk.inj h
    show name :: functionNames rest = _
    rw [ih hrest, List.map_cons]
  | case3 p name tps params body r rest f hf => cases h
  | case4 n rest hn ih =>
    rw [← ih h]
    unfold functionNames
    rw [List.filterMap_cons_none]
    split
    · next p name tps params body r => exact absurd rfl (hn p name tps params body r)
    · rfl

theorem mem_of_declaredFunctions {ds : List Node} {fs : List Function}
    (h : declaredFunctions ds = (fs, .ok ())) {f : Function} (hf : f ∈ fs) :
    ∃ p tps params r, funDecl p f.name tps params f.body r ∈ ds
      ∧ params.filterMap name? = f.params := by
  fun_induction declaredFunctions ds generalizing fs with
  | case1 =>
    obtain rfl := (Prod.mk.inj h).1
    cases hf
  | case2 p name tps params body r rest names hnames fs' outcome hrest ih =>
    obtain ⟨rfl, rfl⟩ := Prod.mk.inj h
    rcases List.mem_cons.1 hf with rfl | hf
    · exact ⟨p, tps, params, r, List.mem_cons_self, paramNames_eq_filterMap hnames⟩
    · obtain ⟨p', tps', params', r', hmem, hparams⟩ := ih hrest hf
      exact ⟨p', tps', params', r', List.mem_cons_of_mem _ hmem, hparams⟩
  | case3 p name tps params body r rest f hf => cases h
  | case4 n rest hn ih =>
    obtain ⟨p', tps', params', r', hmem, hparams⟩ := ih h hf
    exact ⟨p', tps', params', r', List.mem_cons_of_mem _ hmem, hparams⟩

theorem any_put {name x : Name} {arity : Nat} {found : List (Name × Nat)}
    (h : found.any (·.1.same x) = true ∨ name.same x = true) :
    (externsOf.put name arity found).any (·.1.same x) = true := by
  induction found with
  | nil => simpa [externsOf.put] using h
  | cons e rest ih =>
    unfold externsOf.put
    split
    · next hsame =>
      rw [List.any_cons, Bool.or_eq_true] at h ⊢
      rcases h with (h | h) | h
      · exact .inl h
      · exact .inr h
      · exact .inl (Name.same_trans hsame h)
    · rw [List.any_cons, Bool.or_eq_true] at h ⊢
      rcases h with (h | h) | h
      · exact .inl h
      · exact .inr (ih (.inl h))
      · exact .inr (ih (.inr h))

/-- **A declared foreign function is among those of the program.** -/
theorem any_externsOf {ds : List Node} {externs : List (Name × Nat)}
    (h : externsOf ds = .ok externs) {x : Name}
    (hx : (externNames ds).any (·.same x) = true) : externs.any (·.1.same x) = true := by
  -- The invariant of the fold: what has been found stays found.
  suffices hfold : ∀ found, ds.foldlM _ found = Except.ok externs →
      found.any (·.1.same x) = true ∨ (externNames ds).any (·.same x) = true →
      externs.any (·.1.same x) = true from hfold [] h (.inr hx)
  clear h hx
  induction ds with
  | nil =>
    rintro found h (hx | hx)
    · obtain rfl := Except.ok.inj h
      exact hx
    · cases hx
  | cons n ds ih =>
    intro found h hx
    obtain ⟨found', hfound, h⟩ := bind_eq_ok h
    refine ih found' h ?_
    dsimp only at hfound
    split at hfound
    · next p name tps pts r =>
      obtain ⟨_, _, hfound⟩ := bind_eq_ok hfound
      obtain rfl := Except.ok.inj hfound
      have hnames : externNames (externDecl p name tps pts r :: ds) = name :: externNames ds := rfl
      rw [hnames, List.any_cons, Bool.or_eq_true] at hx
      rcases hx with hx | hx | hx
      · exact .inl (any_put (.inl hx))
      · exact .inl (any_put (.inr hx))
      · exact .inr hx
    · next hn =>
      obtain rfl := Except.ok.inj hfound
      have hnames : externNames (n :: ds) = externNames ds := by
        unfold externNames
        rw [List.filterMap_cons_none]
        split
        · next p name tps pts r => exact absurd rfl (hn p name tps pts r)
        · rfl
      rw [hnames] at hx
      exact hx

end Node

/-! ## Scope soundness -/

theorem any_same_append (names : List Name) {bound : List Name} {Γ : Name → Prop}
    (h : ∀ x, bound.any (·.same x) = true → Γ x) :
    ∀ x, (names ++ bound).any (·.same x) = true → withNames Γ names x := by
  intro x hx
  rw [List.any_append, Bool.or_eq_true] at hx
  rcases hx with hx | hx
  · exact .inl (by simpa using hx)
  · exact .inr (h x hx)

namespace Node

variable {σ : Type} {E : Engine σ} {state : σ → Prop} {externs : List Name}

/-- Functions that are declared together may run where all of them are
bound. -/
theorem code_declaredFunctions {t : ConstructorTable} {bound : List Name} {Γ : Name → Prop}
    (hbound : ∀ x, bound.any (·.same x) = true → Γ x) {ds : List Node} {fs : List Function}
    (hfs : declaredFunctions ds = (fs, .ok ()))
    (hds : isScopedAll t externs (functionNames ds ++ bound) ds = true) :
    ∀ f ∈ fs, (lexical t externs).Runs (withNames Γ (fs.map (·.name))) f := by
  intro f hf
  obtain ⟨p, tps, params, r, hmem, hparams⟩ := mem_of_declaredFunctions hfs hf
  have hbody := isScopedAll_iff.1 hds _ hmem
  rw [isScoped, hparams, functionNames_of_declaredFunctions hfs] at hbody
  exact ⟨trivial, _, any_same_append _ (any_same_append _ hbound), hbody⟩

/-- **Lexical scope is a discipline** for whatever host keeps it. -/
theorem lexical_governs {t : ConstructorTable} (htable : E.table = t) (hcases : E.caseTable = t)
    (hexterns : ∀ x, externs.any (·.same x) = true → E.externs.any (·.1.same x) = true)
    (hnatives : ∀ n ∈ E.natives, n.Keeps (lexical t externs) (·.isUnbound = false) state)
    (hintrinsics : ∀ i ∈ E.intrinsics.entries, i.Keeps (lexical t externs)) :
    Governs (lexical t externs) (·.isUnbound = false) state E where
  fails f h := by
    cases hf : f.isUnbound with
    | false => rfl
    | true =>
      unfold Failure.isUnbound at hf
      split at hf <;> cases hf
      cases h
  checked := .inr fun _ h => h
  var := by
    rintro Γ p name ⟨bound, hbound, hname⟩
    exact .inl (hbound name hname)
  callee := by
    rintro Γ p callee args ⟨bound, hbound, h⟩
    rw [isScoped, Bool.and_eq_true, Bool.or_eq_true] at h
    rcases h.1 with h | h
    · cases callee with
      | var q name => exact .inr ⟨q, name, rfl, hexterns name h⟩
      | _ => cases h
    · exact .inl ⟨bound, hbound, h⟩
  callArgs := by
    rintro Γ p callee args ⟨bound, hbound, h⟩ a ha
    rw [isScoped, Bool.and_eq_true] at h
    exact ⟨bound, hbound, isScopedAll_iff.1 h.2 a ha⟩
  intrinsicArgs := by
    rintro Γ p op args ⟨bound, hbound, h⟩ a ha
    exact ⟨bound, hbound, isScopedAll_iff.1 h a ha⟩
  directiveArgs := by
    rintro Γ p name args ⟨bound, hbound, h⟩ a ha
    exact ⟨bound, hbound, isScopedAll_iff.1 h a ha⟩
  constructArgs := by
    rintro Γ p c args ⟨bound, hbound, h⟩ a ha
    exact ⟨bound, hbound, isScopedAll_iff.1 h a ha⟩
  scrutinee := by
    rintro Γ p scrutinee arms ⟨bound, hbound, h⟩
    rw [isScoped, Bool.and_eq_true] at h
    exact ⟨bound, hbound, h.1⟩
  arm := by
    rintro Γ p scrutinee arms ⟨bound, hbound, h⟩ v hv i bindings
      ⟨q', pattern', body', resolved, names, hi', hr, hm⟩ q pattern body hi
    obtain ⟨rfl, rfl, rfl⟩ := arm.inj (Option.some.inj (hi'.symm.trans hi))
    rw [isScoped, Bool.and_eq_true] at h
    have hbody := isScopedAll_iff.1 h.2 _ (List.mem_of_getElem? hi)
    rw [isScoped] at hbody
    refine ⟨_, fun x hx => ?_, hbody⟩
    -- A name of the pattern is among those that the match has bound; any other
    -- was bound before.
    rcases any_same_append _ hbound x hx with ⟨n, hn, hsame⟩ | hx
    · rw [hcases] at hr
      rw [← matchPattern_binds (D := lexical t externs) (fun _ _ h => h) hr hv hm] at hn
      exact .inl ⟨n, hn, hsame⟩
    · exact .inr hx
  letIn := by
    rintro Γ p name value body t ⟨bound, hbound, h⟩
    rw [isScoped, Bool.and_eq_true] at h
    exact ⟨⟨bound, hbound, h.1⟩, ⟨_, any_same_append [name] hbound, h.2⟩⟩
  seq := by
    rintro Γ p first rest ⟨bound, hbound, h⟩
    rw [isScoped, Bool.and_eq_true] at h
    exact ⟨⟨bound, hbound, h.1⟩, ⟨bound, hbound, h.2⟩⟩
  lambda := by
    rintro Γ p params body ⟨bound, hbound, h⟩
    rw [isScoped] at h
    exact ⟨trivial, _, any_same_append _ hbound, h⟩
  block := by
    rintro Γ p ds body fs ⟨bound, hbound, h⟩ hfs
    rw [isScoped, Bool.and_eq_true] at h
    refine ⟨code_declaredFunctions hbound hfs h.1, _, any_same_append _ hbound, ?_⟩
    rw [← functionNames_of_declaredFunctions hfs]
    exact h.2
  data := by
    rintro Γ p c args - d hd
    rw [htable] at hd
    exact ⟨⟨d, hd, rfl⟩, ⟨d, t.get?_name hd, rfl⟩⟩
  native := hnatives
  intrinsic := hintrinsics

end Node

namespace Session

variable {σ : Type}

/-- **A program whose variables are bound where they stand never wants the
value of one**, over every host whose functions and intrinsics give back
only data as its constructors take and closures whose variables are
bound. -/
theorem run_ne_unboundVariable (root : Node) (I : Interpreter σ) (state : σ → Prop)
    (hscoped : ∀ T, root.checkDeclarations = .ok T → root.isLexicallyScoped T = true)
    (hnatives : ∀ T, root.checkDeclarations = .ok T → ∀ n ∈ I.natives,
      n.Keeps (lexical T root.declaredExterns) (·.isUnbound = false) state)
    (hintrinsics : ∀ T, root.checkDeclarations = .ok T → ∀ i ∈ I.intrinsics.entries,
      i.Keeps (lexical T root.declaredExterns))
    (hhost : state I.journal.host) (name : String) (p : Option Position) :
    (I.perform (run root)).1 ≠ .error (.of (.unboundVariable name) p) := by
  obtain ⟨T, hT⟩ : ∃ T, ∀ T', root.checkDeclarations = .ok T' → T' = T := by
    cases root.checkDeclarations with
    | ok T => exact ⟨T, by rintro T' ⟨⟩; rfl⟩
    | error f => exact ⟨.empty, by rintro T' ⟨⟩⟩
  have houtcome : ∀ f, (I.perform (run root)).1 = .error f → f.isUnbound = false := by
    refine (run_outcome (lexical T root.declaredExterns) state (fun _ h => h) ?_).2
    intro I' hload
    obtain ⟨q, ds, body, externs, T', cases, fs, trace, rfl, hexterns, hdecls, -, -, hfs, rfl⟩ :=
      load_ok hload
    obtain rfl := hT T' hdecls
    have hroot := hscoped T' hdecls
    unfold Node.isLexicallyScoped at hroot
    rw [Node.isScoped, Bool.and_eq_true] at hroot
    have hempty : ∀ x, ([] : List Name).any (·.same x) = true → Scope.empty.Binds x := by simp
    refine ⟨?_, ?_, ?_, ?_⟩
    · exact Node.lexical_governs rfl rfl (fun x => Node.any_externsOf hexterns)
        (hnatives T' hdecls) (hintrinsics T' hdecls)
    · refine ⟨?_, trivial⟩
      rw [Scope.binds_functions]
      exact Node.code_declaredFunctions hempty hfs hroot.1
    · exact ⟨hhost, by simp⟩
    · rintro ds' body' ⟨⟩
      refine ⟨_, ?_, hroot.2⟩
      rw [Scope.binds_functions, ← Node.functionNames_of_declaredFunctions hfs]
      exact any_same_append _ hempty
  intro hunbound
  exact absurd (houtcome _ hunbound) (by simp [Failure.isUnbound, Failure.of])

/-- A program that takes data apart and hands a closure over what it finds
to the host. -/
def callbackProgram : Node :=
  .program none
    [.dataDecl none "Pair" [] [.constructorDecl none "Pair" [.absent, .absent]],
      .externDecl none "apply" [] [.absent, .absent] .absent]
    (.caseOf none (.construct none "Pair" [.literal none (.int 1), .unit none])
      [.arm none (.patternCtor none "Pair" [.patternVar none "x", .patternWild none])
        (.call none (.var none "apply")
          [.lambda none ["y"]
            (.intrinsicCall none "iadd" [.var none "x", .var none "y"]),
            .literal none (.int 2)])])

/-- A function of the host that calls its first argument with its
second. -/
def applyNative : Native Unit where
  name := "apply"
  arity? := some 2
  run
    | s, [f, v] => .call s f [v] fun s' outcome =>
      match outcome with
      | .ok w => .done s' (.value w)
      | .error e => .fail s' e
    | s, _ => .done s .nothing

theorem keeps_applyNative {D : Discipline} {F : Failure → Prop} :
    applyNative.Keeps D F fun _ => True := by
  intro s args _ hargs
  unfold applyNative
  dsimp only
  split
  · refine ⟨trivial, hargs.1, ⟨hargs.2.1, trivial⟩, fun s' outcome _ hok herror => ?_⟩
    cases outcome with
    | ok w => exact ⟨trivial, hok w rfl⟩
    | error e => exact ⟨trivial, herror e rfl⟩
  · exact ⟨trivial, trivial⟩

theorem run_callbackProgram_ne_unboundVariable :
    callbackProgram.isLexicallyScoped ⟨[("Pair", [⟨"Pair", "Pair", 2⟩])]⟩ = true
    ∧ (Interpreter.perform { natives := [applyNative], journal := { host := () } }
        (run callbackProgram)).1 ≠ .error (.of (.unboundVariable "x") none) := by
  have hdecls : callbackProgram.checkDeclarations
      = .ok ⟨[("Pair", [⟨"Pair", "Pair", 2⟩])]⟩ := by cbv
  have hscoped : callbackProgram.isLexicallyScoped ⟨[("Pair", [⟨"Pair", "Pair", 2⟩])]⟩ = true := by
    decide
  refine ⟨hscoped, run_ne_unboundVariable callbackProgram _ (fun _ => True) ?_ ?_ ?_ trivial "x"
    none⟩
  · intro T hT
    obtain rfl := Except.ok.inj (hdecls.symm.trans hT)
    exact hscoped
  · intro T _ n hn
    obtain rfl := List.mem_singleton.1 hn
    exact keeps_applyNative
  · exact fun T _ => IntrinsicTable.keeps_standard

end Session

end EmberLang
