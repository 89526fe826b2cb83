import EmberLang.Proofs.CheckedCode
import EmberLang.Proofs.Dispatch
import EmberLang.Proofs.Independence

/-!
# Which programs can be loaded

Loading goes through a program twice, once for its intrinsics and once for
its cases, and the two ways differ: intrinsics are looked for below the
whole program, cases below its functions and its body. What is checked is
nevertheless the same everywhere. A program that was read from a text can
be loaded if and only if it is valid (`Node.IsValid`): wherever an intrinsic
is called it is known, and wherever a case stands the patterns of its arms
agree with the constructors of the program and name no variable twice.

If a program is refused, then before anything of it runs: no foreign
function has been called, and the list of effects is empty.
-/

namespace EmberLang

/-! ## Valid programs -/

namespace Node

/-- **What a table of constructors asks of one node of a pattern**: a
constructor is known and has as many sub-patterns as it takes fields, and
takes none if it stands as a bare name. -/
def Agrees (t : ConstructorTable) : Node → Prop
  | patternCtor _ c args => ∃ known, t.get? c = some known ∧ known.arity = args.length
  | patternVar _ name => ∀ known, t.get? name = some known → known.arity = 0
  | _ => True

/-- **A pattern is valid** for a table of constructors. -/
structure IsValidPattern (t : ConstructorTable) (pattern : Node) : Prop where
  /-- All its parts agree with the table. -/
  agrees : ∀ n ∈ pattern.preorder, n.Agrees t
  /-- No variable occurs twice. -/
  distinct : Name.Distinct (pattern.patternVars t)

/-- **A program is valid** for a table of constructors and one of
intrinsics. -/
structure IsValid (t : ConstructorTable) (intrinsics : IntrinsicTable) (root : Node) : Prop where
  /-- Every intrinsic that is called is known. -/
  known : ∀ p op args, intrinsicCall p op args ∈ root.preorder → intrinsics.knows op = true
  /-- Every pattern of every case is valid. -/
  patterns : ∀ p scrutinee arms, caseOf p scrutinee arms ∈ root.preorder →
    ∀ q pattern body, arm q pattern body ∈ arms → pattern.IsValidPattern t

/-! ## Patterns -/

variable {t : ConstructorTable} {V : Vocabulary}

theorem isSome_key?_of_isIdent {name : Name} (h : name.isIdent = true) :
    name.key?.isSome = true := by
  obtain ⟨s, rfl⟩ := Name.isWord_of_isIdent h
  rfl

mutual

/-- A pattern agrees with the table if all its parts do. -/
theorem agreesWith_iff (n : Node) (h : n.isPattern V = true) :
    n.agreesWith t = true ↔ ∀ m ∈ n.preorder, m.Agrees t := by
  cases n with
  | patternVar p name =>
    rw [isPattern, Bool.and_eq_true] at h
    rw [agreesWith, isSome_key?_of_isIdent h.1, Bool.true_and, preorder,
      List.forall_mem_singleton, Agrees]
    cases t.get? name <;> simp
  | patternCtor p c args =>
    rw [isPattern, Bool.and_eq_true, Bool.and_eq_true] at h
    rw [agreesWith, isSome_key?_of_isIdent h.1.1, Bool.true_and, Bool.and_eq_true,
      allAgreeWith_iff args h.2, preorder, List.forall_mem_cons, Agrees]
    simp only [Option.any_eq_true, beq_iff_eq]
  | _ => simp [agreesWith, preorder, Agrees, isPattern] at h ⊢

theorem allAgreeWith_iff (ns : List Node) (h : arePatterns V ns = true) :
    allAgreeWith t ns = true ↔ ∀ m ∈ preorderAll ns, m.Agrees t := by
  cases ns with
  | nil => simp [allAgreeWith, preorderAll]
  | cons n ns =>
    rw [arePatterns, Bool.and_eq_true] at h
    rw [allAgreeWith, preorderAll, Bool.and_eq_true, List.forall_mem_append,
      agreesWith_iff n h.1, allAgreeWith_iff ns h.2]

end

/-- **A pattern can be resolved if and only if it is valid.** -/
theorem exists_resolvePattern_iff {n : Node} (h : n.isPattern V = true) :
    (∃ r, n.resolvePattern t [] = .ok r) ↔ n.IsValidPattern t := by
  constructor
  · rintro ⟨⟨r, names⟩, hr⟩
    obtain ⟨hagree, hdistinct, -, -⟩ := (resolvePattern_eq_ok_iff n .nil).1 hr
    exact ⟨(agreesWith_iff n h).1 hagree, hdistinct⟩
  · rintro ⟨hagree, hdistinct⟩
    exact ⟨_, (resolvePattern_eq_ok_iff n .nil).2
      ⟨(agreesWith_iff n h).2 hagree, hdistinct, rfl, rfl⟩⟩

end Node

/-! ## Cases -/

namespace Case

variable {t : ConstructorTable} {V : Node.Vocabulary}

theorem exists_compileFrom_iff {arms : List Node} (h : ∀ n ∈ arms, n.isArm V = true)
    (done : Case) :
    (∃ c, compileFrom t done arms = .ok c) ↔
      ∀ q pattern body, .arm q pattern body ∈ arms → pattern.IsValidPattern t := by
  induction arms generalizing done with
  | nil => simp [compileFrom]
  | cons n arms ih =>
    obtain ⟨hn, harms⟩ := List.forall_mem_cons.1 h
    cases n with
    | arm q pattern body =>
      rw [Node.isArm, Bool.and_eq_true] at hn
      have hvalid := Node.exists_resolvePattern_iff (t := t) hn.1
      rw [compileFrom]
      cases hr : pattern.resolvePattern t [] with
      | error f =>
        have hinvalid : ¬ pattern.IsValidPattern t := by
          rw [← hvalid, hr]
          rintro ⟨_, ⟨⟩⟩
        constructor
        · rintro ⟨_, ⟨⟩⟩
        · exact fun hall => absurd (hall q pattern body List.mem_cons_self) hinvalid
      | ok r =>
        obtain ⟨resolved, names⟩ := r
        rw [ok_bind]
        dsimp only
        rw [ih harms]
        constructor
        · intro hall q' pattern' body' hmem
          rcases List.mem_cons.1 hmem with heq | hmem
          · obtain ⟨-, rfl, -⟩ := Node.arm.inj heq
            exact hvalid.1 ⟨_, hr⟩
          · exact hall q' pattern' body' hmem
        · exact fun hall q' pattern' body' hmem =>
            hall q' pattern' body' (List.mem_cons_of_mem _ hmem)
    | _ => cases hn

/-- **A case compiles if and only if its patterns are valid.** -/
theorem exists_compile_iff {arms : List Node} (h : ∀ n ∈ arms, n.isArm V = true) :
    (∃ c, compile t arms = .ok c) ↔
      ∀ q pattern body, .arm q pattern body ∈ arms → pattern.IsValidPattern t :=
  exists_compileFrom_iff h .empty

theorem exists_compileNodes {ns : List Node}
    (h : ∀ p scrutinee arms, .caseOf p scrutinee arms ∈ ns → ∃ c, compile t arms = .ok c) :
    ∃ compiled, compileNodes t ns = .ok compiled := by
  induction ns with
  | nil => exact ⟨[], rfl⟩
  | cons n ns ih =>
    obtain ⟨rest, hrest⟩ := ih fun p scrutinee arms hn =>
      h p scrutinee arms (List.mem_cons_of_mem n hn)
    cases n with
    | caseOf p scrutinee arms =>
      obtain ⟨c, hc⟩ := h p scrutinee arms List.mem_cons_self
      rw [compileNodes, hc, ok_bind, hrest, ok_bind]
      exact ⟨_, rfl⟩
    | _ => exact ⟨rest, hrest⟩

end Case

namespace Node

variable {t : ConstructorTable} {V : Vocabulary} {p : Option Position} {ds : List Node}
  {body : Node}

/-- **The cases of a program are compiled if and only if each of them
compiles**, of those in its functions and its body. -/
theorem exists_compileCases_iff (hds : ∀ d ∈ ds, d.isNode = true) (hbody : body.isNode = true) :
    (∃ cases, (program p ds body).compileCases t = .ok cases) ↔
      ∀ q scrutinee arms, caseOf q scrutinee arms ∈ codeNodes ds body →
        ∃ c, Case.compile t arms = .ok c := by
  constructor
  · rintro ⟨cases, h⟩ q scrutinee arms hn
    obtain ⟨c, -, hc⟩ := mem_of_compileCases h hds hn
    exact ⟨c, hc⟩
  · intro h
    obtain ⟨first, hfirst⟩ : ∃ first,
        Case.compileNodes t ((functionsOf ds).flatMap walk) = .ok first := by
      refine Case.exists_compileNodes fun q scrutinee arms hn => h q scrutinee arms ?_
      obtain ⟨f, hf, hn⟩ := List.mem_flatMap.1 hn
      rw [walk_eq_preorder (hds f (List.mem_filter.1 hf).1)] at hn
      exact List.mem_append_left _ (List.mem_flatMap.2 ⟨f, hf, hn⟩)
    obtain ⟨second, hsecond⟩ : ∃ second, Case.compileNodes t body.walk = .ok second := by
      refine Case.exists_compileNodes fun q scrutinee arms hn => h q scrutinee arms ?_
      rw [walk_eq_preorder hbody] at hn
      exact List.mem_append_right _ hn
    have hwalk : body.walk? = .ok body.walk := by
      unfold walk?
      split
      · cases hbody
      · rfl
    rw [compileCases]
    show ∃ cases, (do
      let inFunctions ← Case.compileNodes t ((functionsOf ds).flatMap walk)
      return inFunctions ++ (← Case.compileNodes t (← body.walk?))) = .ok cases
    rw [hfirst, ok_bind, hwalk, ok_bind, hsecond]
    exact ⟨_, rfl⟩

/-- A type has no nodes. -/
theorem preorder_of_isType {n : Node} (h : n.isType = true) : n.preorder = [] :=
  preorder_of_not_isNode (isNode_of_isOptionalType (isOptionalType_of_isType h))

theorem preorderAll_of_isType {ns : List Node} (h : ns.all isType = true) :
    preorderAll ns = [] := by
  induction ns with
  | nil => rfl
  | cons n ns ih =>
    rw [List.all_cons, Bool.and_eq_true] at h
    rw [preorderAll, preorder_of_isType h.1, ih h.2]
    rfl

/-- **Among the declarations only functions have cases.** -/
theorem mem_functionsOf_of_caseOf_mem {d : Node} (hd : d ∈ ds) (h : d.isDeclaration V = true)
    {q : Option Position} {scrutinee : Node} {arms : List Node}
    (hn : caseOf q scrutinee arms ∈ d.preorder) : d ∈ functionsOf ds := by
  cases d with
  | funDecl r name tps params b returnType => exact List.mem_filter.2 ⟨hd, rfl⟩
  | externDecl r name tps paramTypes returnType =>
    rw [isDeclaration, Bool.and_eq_true, Bool.and_eq_true] at h
    simp [preorder, preorderAll_of_isType h.1.2, preorder_of_isType h.2] at hn
  | dataDecl r name tps constructors =>
    rw [isDeclaration, Bool.and_eq_true] at h
    rw [preorder] at hn
    rcases List.mem_cons.1 hn with heq | hn
    · cases heq
    obtain ⟨c, hc, hn⟩ := exists_of_mem_preorderAll hn
    have hdecl := List.all_eq_true.1 h.2 c hc
    cases c with
    | constructorDecl r' name' fieldTypes =>
      rw [isConstructorDecl, Bool.and_eq_true] at hdecl
      simp [preorder, preorderAll_of_isType hdecl.2] at hn
    | _ => cases hdecl
  | typeDecl r name tps type =>
    rw [isDeclaration, Bool.and_eq_true] at h
    simp [preorder, preorder_of_isType h.2] at hn
  | _ => cases h

/-- **The cases of a program stand in its functions and its body.** -/
theorem caseOf_mem_preorder_iff (h : (program p ds body).isProgram V = true)
    {q : Option Position} {scrutinee : Node} {arms : List Node} :
    caseOf q scrutinee arms ∈ (program p ds body).preorder ↔
      caseOf q scrutinee arms ∈ codeNodes ds body := by
  constructor
  · intro hn
    rw [isProgram, Bool.and_eq_true] at h
    rw [preorder] at hn
    rcases List.mem_cons.1 hn with heq | hn
    · cases heq
    rcases List.mem_append.1 hn with hn | hn
    · obtain ⟨d, hd, hn⟩ := exists_of_mem_preorderAll hn
      have hf := mem_functionsOf_of_caseOf_mem hd (areDeclarations_iff.1 h.1 d hd) hn
      exact List.mem_append_left _ (List.mem_flatMap.2 ⟨d, hf, hn⟩)
    · exact List.mem_append_right _ hn
  · intro hn
    rw [← walk_eq_preorder rfl]
    exact mem_walk_of_mem_codeNodes hn

/-- The arms of a case of a program are arms. -/
theorem isArm_of_caseOf_mem (h : (program p ds body).isProgram V = true) {q : Option Position}
    {scrutinee : Node} {arms : List Node}
    (hn : caseOf q scrutinee arms ∈ (program p ds body).preorder) :
    ∀ n ∈ arms, n.isArm V = true := by
  rcases isPlaced_of_mem_preorder h hn with heq | hplaced
  · cases heq
  simp only [isPlaced, isExpression, isDeclaration, isArm, isPattern, isParam, isConstructorDecl,
    Bool.or_false, Bool.and_eq_true] at hplaced
  exact areArms_iff.1 hplaced.2

/-- **The check of the cases passes if and only if all patterns are valid**,
wherever in the program they stand. -/
theorem exists_compileCases_iff_patterns (h : (program p ds body).isProgram V = true) :
    (∃ cases, (program p ds body).compileCases t = .ok cases) ↔
      ∀ q scrutinee arms, caseOf q scrutinee arms ∈ (program p ds body).preorder →
        ∀ r pattern body, arm r pattern body ∈ arms → pattern.IsValidPattern t := by
  have hparts := h
  rw [isProgram, Bool.and_eq_true] at hparts
  rw [exists_compileCases_iff
    (fun d hd => isNode_of_isDeclaration (areDeclarations_iff.1 hparts.1 d hd))
    (isNode_of_isExpression hparts.2)]
  refine forall_congr' fun q => forall_congr' fun scrutinee => forall_congr' fun arms => ?_
  rw [← caseOf_mem_preorder_iff h]
  exact forall_congr' fun hn => Case.exists_compile_iff (isArm_of_caseOf_mem h hn)

/-- **A program passes the checks if and only if it is valid.** -/
theorem isValid_iff_checks {intrinsics : IntrinsicTable}
    (h : (program p ds body).isProgram V = true) :
    (program p ds body).IsValid t intrinsics ↔
      checkIntrinsics intrinsics (program p ds body).walk = .ok ()
        ∧ ∃ cases, (program p ds body).compileCases t = .ok cases := by
  rw [checkIntrinsics_eq_ok_iff, exists_compileCases_iff_patterns h, walk_eq_preorder rfl]
  exact ⟨fun hvalid => ⟨hvalid.known, hvalid.patterns⟩, fun hchecks => ⟨hchecks.1, hchecks.2⟩⟩

theorem isWord_of_mem_externNames (h : ∀ d ∈ ds, d.isDeclaration V = true) :
    ∀ name ∈ externNames ds, name.IsWord := by
  intro name hname
  obtain ⟨d, hd, hname⟩ := List.mem_filterMap.1 hname
  cases d with
  | externDecl q n tps paramTypes returnType =>
    obtain rfl := Option.some.inj hname
    have hdecl := h _ hd
    rw [isDeclaration, Bool.and_eq_true, Bool.and_eq_true, Bool.and_eq_true] at hdecl
    exact Name.isWord_of_isIdent hdecl.1.1.1
  | _ => cases hname

end Node

/-! ## Loading -/

namespace Session

variable {σ : Type}

/-- **A program with a fault is refused before anything of it runs.** The
interpreter then knows its foreign functions and its constructors, and the
list of effects has been emptied. -/
theorem load_of_fault {p : Option Position} {ds : List Node} {body : Node}
    {externs : List (Name × Nat)} {t : ConstructorTable} {I : Interpreter σ} {f : Failure}
    (hexterns : Node.externsOf ds = .ok externs)
    (ht : (Node.program p ds body).checkDeclarations = .ok t)
    (hfault : Node.checkIntrinsics I.intrinsics (Node.program p ds body).walk = .error f
      ∨ Node.checkIntrinsics I.intrinsics (Node.program p ds body).walk = .ok ()
        ∧ (Node.program p ds body).compileCases t = .error f) :
    ExceptT.run (load (.program p ds body)) I = (.error f, { I with
      externs := externs, table := t, journal := { I.journal with effects := #[] } }) := by
  unfold load
  dsimp only
  rw [run_lift_bind hexterns, run_modify_bind, run_lift_bind ht, run_modify_bind, run_get_bind]
  rcases hfault with hunknown | ⟨hknown, hcases⟩
  · rw [hunknown]
    rfl
  · rw [run_lift_bind hknown, hcases]
    rfl

/-- **What loading comes to** for a program whose declarations pass the
check: it is loaded if it is valid, and refused if it is not. -/
theorem load_of_isProgram {V : Node.Vocabulary} {p : Option Position} {ds : List Node}
    {body : Node} {t : ConstructorTable} (h : (Node.program p ds body).isProgram V = true)
    (ht : (Node.program p ds body).checkDeclarations = .ok t) (I : Interpreter σ) :
    (Node.program p ds body).IsValid t I.intrinsics
        ∧ (∃ I', ExceptT.run (load (.program p ds body)) I = (.ok (), I'))
      ∨ ¬ (Node.program p ds body).IsValid t I.intrinsics
        ∧ ∃ f externs, ExceptT.run (load (.program p ds body)) I = (.error f, { I with
            externs := externs, table := t, journal := { I.journal with effects := #[] } }) := by
  have hparts := h
  rw [Node.isProgram, Bool.and_eq_true] at hparts
  have hds := Node.areDeclarations_iff.1 hparts.1
  -- All names are words, so that only the two checks are left to fail.
  obtain ⟨externs, hexterns⟩ := Node.externsOf_of_words (Node.isWord_of_mem_externNames hds)
  obtain ⟨hfunctions, hwords⟩ := Node.declaredFunctions_of_areDeclarations hds
  rw [Node.isValid_iff_checks h]
  cases hknown : Node.checkIntrinsics I.intrinsics (Node.program p ds body).walk with
  | error f =>
    refine .inr ⟨?_, f, externs, load_of_fault hexterns ht (.inl hknown)⟩
    rintro ⟨⟨⟩, -⟩
  | ok =>
    cases hcases : (Node.program p ds body).compileCases t with
    | error f =>
      refine .inr ⟨?_, f, externs, load_of_fault hexterns ht (.inr ⟨hknown, hcases⟩)⟩
      rintro ⟨-, _, ⟨⟩⟩
    | ok cases =>
      obtain ⟨trace, hload⟩ :=
        load_of_checks hexterns ht hknown hcases (Prod.ext rfl hfunctions) hwords
      exact .inl ⟨⟨rfl, cases, rfl⟩, _, hload⟩

/-- **A program that was read from a text can be loaded if and only if it is
valid**: for every table of intrinsics, and whatever the interpreter did
before. If it is refused, then no foreign function has been called: there
are no effects, the observer has been told nothing, and the host is as
before. -/
theorem load_ok_iff_isValid {text : String} {frames : Int} {root : Node}
    (h : Node.ofSource text frames = .ok root) (I : Interpreter σ) :
    ∃ t, root.checkDeclarations = .ok t
      ∧ ((I.perform (load root)).1 = .ok () ↔ root.IsValid t I.intrinsics)
      ∧ ∀ f, (I.perform (load root)).1 = .error f →
          (I.perform (load root)).2.journal.effects = #[]
          ∧ (I.perform (load root)).2.journal.observed = #[]
          ∧ (I.perform (load root)).2.journal.host = I.journal.host := by
  obtain ⟨t, ht, hprogram⟩ := Node.isProgram_of_ofSource h
  refine ⟨t, ht, ?_⟩
  cases root with
  | program p ds body =>
    unfold Interpreter.perform
    rcases load_of_isProgram hprogram ht
        { I with journal := { I.journal with observed := #[], trace := #[] } } with
      ⟨hvalid, I', hload⟩ | ⟨hinvalid, f, externs, hload⟩
    · rw [hload]
      refine ⟨iff_of_true rfl hvalid, ?_⟩
      rintro f ⟨⟩
    · rw [hload]
      refine ⟨iff_of_false ?_ hinvalid, fun _ _ => ⟨rfl, rfl, rfl⟩⟩
      rintro ⟨⟩
  | _ => cases hprogram

/-- An interpreter with a table of intrinsics that has called the host
before. -/
def usedInterpreter (intrinsics : IntrinsicTable) : Interpreter Unit :=
  { natives := [applyNative], intrinsics := intrinsics, journal :=
    { host := (), effects := #[⟨"apply", [], false⟩] } }

/-- A program that calls an intrinsic in a closure in an arm is valid if the
intrinsic is known. -/
theorem load_failingProgram_iff_isValid :
    Node.ofSource failingText 1000 = .ok failingProgram
      ∧ ∃ t, failingProgram.checkDeclarations = .ok t
        ∧ failingProgram.IsValid t .standard ∧ ¬ failingProgram.IsValid t .empty
        ∧ ((usedInterpreter .empty).perform (load failingProgram)).2.journal.effects = #[] := by
  have hknown : ((usedInterpreter .standard).perform (load failingProgram)).1 = .ok () := by
    decide +kernel
  have hunknown : ((usedInterpreter .empty).perform (load failingProgram)).1
      = .error (.of (.unknownIntrinsic "idiv" []) (some ⟨1, 63⟩)) := by decide +kernel
  obtain ⟨t, ht, hvalid, -⟩ := load_ok_iff_isValid ofSource_failingText (usedInterpreter .standard)
  obtain ⟨t', ht', hinvalid, hrefused⟩ :=
    load_ok_iff_isValid ofSource_failingText (usedInterpreter .empty)
  obtain rfl := Except.ok.inj (ht.symm.trans ht')
  refine ⟨ofSource_failingText, t, ht, hvalid.1 hknown, fun h => ?_, (hrefused _ hunknown).1⟩
  cases hunknown.symm.trans (hinvalid.2 h)

end Session

end EmberLang
