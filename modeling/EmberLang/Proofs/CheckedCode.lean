import EmberLang.Proofs.Accepted
import EmberLang.Proofs.LexicalScope
import EmberLang.Proofs.Moments

/-!
# Code that was checked before it ran

Reading a program text, checking its declarations and loading it look at
the whole program: names are words, constructors are declared, intrinsics
are in the table, and every case compiles. Evaluation relies on all of
this and looks again as it goes, because a tree need not come from a
text. For one that does, none of these later looks can fail.

The reason is that all code that ever runs is code of the program. The
discipline `codeOf` says so: an expression may run if it is one of the
expressions of the program, wherever the closure with it has been. What is
left are the ordinary failures and variables without a value; any other
failure of a run was raised by the host (`Session.run_fails_ordinarily`).
-/

namespace EmberLang

/-! ## The nodes below a node -/

namespace Node

theorem mem_preorder_self {n : Node} (h : n.isNode = true) : n ∈ n.preorder := by
  rw [preorder_eq h]
  exact List.mem_cons_self

theorem mem_preorderAll {n m : Node} {ns : List Node} (hn : n ∈ ns) (hm : m ∈ n.preorder) :
    m ∈ preorderAll ns := by
  induction ns with
  | nil => cases hn
  | cons k ns ih =>
    rw [preorderAll, List.mem_append]
    rcases List.mem_cons.1 hn with rfl | hn
    · exact .inl hm
    · exact .inr (ih hn)

theorem exists_of_mem_preorderAll {m : Node} {ns : List Node} (h : m ∈ preorderAll ns) :
    ∃ n ∈ ns, m ∈ n.preorder := by
  induction ns with
  | nil => cases h
  | cons k ns ih =>
    rw [preorderAll, List.mem_append] at h
    rcases h with h | h
    · exact ⟨k, List.mem_cons_self, h⟩
    · obtain ⟨n, hn, hm⟩ := ih h
      exact ⟨n, List.mem_cons_of_mem k hn, hm⟩

theorem weight_le_of_mem {n : Node} {ns : List Node} (h : n ∈ ns) : n.weight ≤ weightAll ns := by
  induction ns with
  | nil => cases h
  | cons k ns ih =>
    rw [weightAll]
    rcases List.mem_cons.1 h with rfl | h
    · exact Nat.le_add_right _ _
    · exact Nat.le_trans (ih h) (Nat.le_add_left _ _)

/-- **The nodes of a tree are closed under going down.** -/
theorem mem_preorder_of_mem_children {n m c : Node} (hm : m ∈ n.preorder) (hc : c ∈ m.children) :
    c ∈ n.preorder := by
  by_cases hn : n.isNode = true
  · rw [preorder_eq hn] at hm ⊢
    rcases List.mem_cons.1 hm with rfl | hm
    · exact List.mem_cons_of_mem _
        (mem_preorderAll hc (mem_preorder_self (isNode_of_mem_children hc)))
    · obtain ⟨k, hk, hm⟩ := exists_of_mem_preorderAll hm
      exact List.mem_cons_of_mem _ (mem_preorderAll hk (mem_preorder_of_mem_children hm hc))
  · rw [preorder_of_not_isNode (by simpa using hn)] at hm
    cases hm
termination_by n.weight
decreasing_by exact Nat.lt_of_le_of_lt (weight_le_of_mem hk) (weightAll_children_lt n)

/-- **What goes down from node to node holds of all nodes of a tree.** -/
theorem of_mem_preorder {P : Node → Prop} (hdown : ∀ n, P n → ∀ c ∈ n.children, P c) {n m : Node}
    (hn : P n) (hm : m ∈ n.preorder) : P m := by
  by_cases hnode : n.isNode = true
  · rw [preorder_eq hnode] at hm
    rcases List.mem_cons.1 hm with rfl | hm
    · exact hn
    · obtain ⟨k, hk, hm⟩ := exists_of_mem_preorderAll hm
      exact of_mem_preorder hdown (hdown n hn k hk) hm
  · rw [preorder_of_not_isNode (by simpa using hnode)] at hm
    cases hm
termination_by n.weight
decreasing_by exact Nat.lt_of_le_of_lt (weight_le_of_mem hk) (weightAll_children_lt n)

/-! ## The expressions of a program -/

/-- The nodes of the functions and of the body of a program. -/
def codeNodes (ds : List Node) (body : Node) : List Node :=
  (functionsOf ds).flatMap preorder ++ body.preorder

variable {ds : List Node} {body n m : Node}

theorem mem_codeNodes_of_mem_children (hm : m ∈ codeNodes ds body) (hn : n ∈ m.children) :
    n ∈ codeNodes ds body := by
  rcases List.mem_append.1 hm with hm | hm
  · obtain ⟨f, hf, hm⟩ := List.mem_flatMap.1 hm
    exact List.mem_append_left _
      (List.mem_flatMap.2 ⟨f, hf, mem_preorder_of_mem_children hm hn⟩)
  · exact List.mem_append_right _ (mem_preorder_of_mem_children hm hn)

/-- The nodes of a program include those of its code. -/
theorem mem_walk_of_mem_codeNodes {p : Option Position} (hn : n ∈ codeNodes ds body) :
    n ∈ (program p ds body).walk := by
  rw [walk_eq_preorder rfl, preorder]
  refine List.mem_cons_of_mem _ (List.mem_append.2 ?_)
  rcases List.mem_append.1 hn with hn | hn
  · obtain ⟨f, hf, hn⟩ := List.mem_flatMap.1 hn
    exact .inl (mem_preorderAll (List.mem_filter.1 hf).1 hn)
  · exact .inr hn

theorem isNode_of_isExpression {V : Vocabulary} (h : n.isExpression V = true) :
    n.isNode = true := by
  cases n with
  | atom a => cases h
  | typeSpec t => cases h
  | _ => rfl

theorem isNode_of_isDeclaration {V : Vocabulary} (h : n.isDeclaration V = true) :
    n.isNode = true := by
  cases n with
  | atom a => cases h
  | typeSpec t => cases h
  | _ => rfl

end Node

theorem Name.isWord_of_isIdent {n : Name} (h : n.isIdent = true) : n.IsWord := by
  cases n with
  | word s => exact ⟨s, rfl⟩
  | other j => cases h

theorem Name.isWord_of_isSigilName {n : Name} (h : n.isSigilName = true) : n.IsWord := by
  cases n with
  | word s => exact ⟨s, rfl⟩
  | other j => cases h

/-! ## Declared constructors -/

namespace Node

variable {V : Vocabulary}

/-- Whether a node is something that stands somewhere in a program. -/
def isPlaced (V : Vocabulary) (n : Node) : Bool :=
  n.isExpression V || n.isDeclaration V || n.isArm V || n.isPattern V || n.isParam
    || n.isConstructorDecl

theorem isNode_of_isOptionalType {n : Node} (h : n.isOptionalType = true) : n.isNode = false := by
  cases n with
  | atom a => rfl
  | typeSpec t => rfl
  | _ => cases h

theorem isOptionalType_of_isType {n : Node} (h : n.isType = true) : n.isOptionalType = true := by
  cases n with
  | typeSpec t => exact h
  | _ => cases h

/-- Below what stands somewhere in a program there is only such. -/
theorem isPlaced_of_mem_children (n : Node) (h : n.isPlaced V = true) :
    ∀ c ∈ n.children, c.isPlaced V = true := by
  have htypes {ns : List Node} (hns : ns.all isType = true) : nodesOf ns = [] := by
    refine List.filter_eq_nil_iff.2 fun n hn => ?_
    have htype := isOptionalType_of_isType (List.all_eq_true.1 hns n hn)
    simp [isNode_of_isOptionalType htype]
  unfold isPlaced at h
  simp only [Bool.or_eq_true] at h
  -- A case for each way to stand in a program. Types are no nodes, so that the
  -- children are expressions, arms, patterns, parameters and declarations.
  rcases h with ((((h | h) | h) | h) | h) | h
  · cases n <;> simp only [isExpression, Bool.and_eq_true, areExpressions_iff, areArms_iff,
      areDeclarations_iff, Bool.false_eq_true] at h
    all_goals
      simp only [children, nodesOf, List.mem_append, List.mem_filter, List.mem_cons,
        List.not_mem_nil]
      grind -ring -linarith [isPlaced, isNode_of_isOptionalType]
  · cases n <;> simp only [isDeclaration, Bool.and_eq_true, List.all_eq_true,
      Bool.false_eq_true] at h
    all_goals
      simp only [children, nodesOf, List.mem_append, List.mem_filter, List.mem_cons,
        List.not_mem_nil]
      grind -ring -linarith [isPlaced, isNode_of_isOptionalType, isOptionalType_of_isType]
  · cases n <;> simp only [isArm, Bool.and_eq_true, Bool.false_eq_true] at h
    simp only [children, nodesOf, List.mem_filter, List.mem_cons, List.not_mem_nil]
    grind -ring -linarith [isPlaced]
  · cases n <;> simp only [isPattern, Bool.and_eq_true, arePatterns_iff, Bool.false_eq_true] at h
    all_goals
      simp only [children, nodesOf, List.mem_filter, List.not_mem_nil]
      grind -ring -linarith [isPlaced]
  · cases n <;> simp only [isParam, Bool.and_eq_true, Bool.false_eq_true] at h
    simp only [children, nodesOf, List.mem_filter, List.mem_cons, List.not_mem_nil]
    grind -ring -linarith [isPlaced, isNode_of_isOptionalType]
  · cases n <;> simp only [isConstructorDecl, Bool.and_eq_true, Bool.false_eq_true] at h
    rw [children, htypes h.2]
    exact List.forall_mem_nil _

/-- **Below a program there is only what stands somewhere in it.** -/
theorem isPlaced_of_mem_preorder {p : Option Position} {ds : List Node} {body n : Node}
    (h : (program p ds body).isProgram V = true) (hn : n ∈ (program p ds body).preorder) :
    n = program p ds body ∨ n.isPlaced V = true := by
  rw [isProgram, Bool.and_eq_true] at h
  rw [preorder] at hn
  rcases List.mem_cons.1 hn with heq | hn
  · exact .inl heq
  rcases List.mem_append.1 hn with hn | hn
  · obtain ⟨d, hd, hn⟩ := exists_of_mem_preorderAll hn
    refine .inr (of_mem_preorder isPlaced_of_mem_children ?_ hn)
    simp [isPlaced, areDeclarations_iff.1 h.1 d hd]
  · refine .inr (of_mem_preorder isPlaced_of_mem_children ?_ hn)
    simp [isPlaced, h.2]

/-- **The declarations of all scopes of a program are declarations.** -/
theorem isDeclaration_of_mem_scopes {p : Option Position} {ds : List Node} {body : Node}
    (h : (program p ds body).isProgram V = true) {es : List Node}
    (hes : es ∈ (program p ds body).scopes ds) : ∀ e ∈ es, e.isDeclaration V = true := by
  rcases List.mem_cons.1 hes with rfl | hes
  · rw [isProgram, Bool.and_eq_true] at h
    exact areDeclarations_iff.1 h.1
  · obtain ⟨n, hn, hblock⟩ := List.mem_filterMap.1 hes
    rw [walk_eq_preorder rfl] at hn
    cases n with
    | block q es' b =>
      obtain rfl := Option.some.inj hblock
      rcases isPlaced_of_mem_preorder h hn with heq | hplaced
      · cases heq
      simp only [isPlaced, isExpression, isDeclaration, isArm, isPattern, isParam,
        isConstructorDecl, Bool.or_false, Bool.and_eq_true] at hplaced
      exact areDeclarations_iff.1 hplaced.1.2
    | _ => cases hblock

end Node

namespace ConstructorTable

theorem isWord_of_newConstructors {t : ConstructorTable} {typeName : Name}
    {done cs : List Constructor} {ns : List Node} (hns : ns.all Node.isConstructorDecl = true)
    (h : t.newConstructors typeName done ns = .ok cs) (hdone : ∀ c ∈ done, c.name.IsWord) :
    ∀ c ∈ cs, c.name.IsWord := by
  induction ns generalizing done with
  | nil =>
    obtain rfl := Except.ok.inj h
    exact hdone
  | cons n ns ih =>
    rw [List.all_cons, Bool.and_eq_true] at hns
    cases n with
    | constructorDecl p name fieldTypes =>
      obtain ⟨_, _, h⟩ := bind_eq_ok h
      split at h
      · cases h
      · refine ih hns.2 h (List.forall_mem_append.2 ⟨hdone, List.forall_mem_singleton.2 ?_⟩)
        have hname := hns.1
        rw [Node.isConstructorDecl, Bool.and_eq_true] at hname
        exact Name.isWord_of_isIdent hname.1
    | _ => cases hns.1

/-- **The names of declared constructors are words.** -/
theorem isWord_of_declareAll {V : Node.Vocabulary} {t t' : ConstructorTable} {ns : List Node}
    (hns : ∀ n ∈ ns, n.isDeclaration V = true) (h : t.declareAll ns = .ok t')
    (ht : ∀ c ∈ t.all, c.name.IsWord) : ∀ c ∈ t'.all, c.name.IsWord := by
  induction ns generalizing t with
  | nil =>
    obtain rfl := Except.ok.inj h
    exact ht
  | cons n ns ih =>
    obtain ⟨hn, hrest⟩ := List.forall_mem_cons.1 hns
    cases n with
    | dataDecl p name tps constructors =>
      obtain ⟨t₁, ht₁, h⟩ := bind_eq_ok h
      refine ih hrest h ?_
      obtain ⟨_, _, ht₁⟩ := bind_eq_ok ht₁
      split at ht₁
      · cases ht₁
      · obtain ⟨cs, hcs, ht₁⟩ := bind_eq_ok ht₁
        obtain rfl := Except.ok.inj ht₁
        rw [Node.isDeclaration, Bool.and_eq_true] at hn
        have hwords := isWord_of_newConstructors hn.2 hcs (List.forall_mem_nil _)
        unfold all at ht ⊢
        rw [List.flatMap_append, List.flatMap_singleton]
        exact List.forall_mem_append.2 ⟨ht, hwords⟩
    | _ => exact ih hrest h ht

end ConstructorTable

theorem Node.isWord_of_checkDeclarations {V : Node.Vocabulary} {root : Node}
    (h : root.isProgram V = true) {t : ConstructorTable} (ht : root.checkDeclarations = .ok t) :
    ∀ c ∈ t.all, c.name.IsWord := by
  cases root with
  | program p ds body =>
    obtain ⟨t', ht', hrest⟩ := bind_eq_ok ht
    obtain ⟨_, _, hrest⟩ := bind_eq_ok hrest
    obtain rfl := Except.ok.inj hrest
    refine ConstructorTable.isWord_of_declareAll (V := V) (fun n hn => ?_) ht'
      (List.forall_mem_nil _)
    obtain ⟨es, hes, hn⟩ := List.mem_flatten.1 hn
    exact isDeclaration_of_mem_scopes h hes n hn
  | _ => cases h

/-! ## What the checks have found -/

namespace Case

/-- **Every case that was compiled has its place among the compiled
ones.** -/
theorem mem_of_compileNodes {t : ConstructorTable} {ns : List Node} {compiled : List Case}
    (h : compileNodes t ns = .ok compiled) {p : Option Position} {scrutinee : Node}
    {arms : List Node} (hn : .caseOf p scrutinee arms ∈ ns) :
    ∃ c ∈ compiled, compile t arms = .ok c := by
  induction ns generalizing compiled with
  | nil => cases hn
  | cons n ns ih =>
    have hrest : ∀ {rest}, compileNodes t ns = .ok rest → .caseOf p scrutinee arms ∈ ns →
        (∀ c ∈ rest, c ∈ compiled) → ∃ c ∈ compiled, compile t arms = .ok c := by
      intro rest hrest hmem hsub
      obtain ⟨c, hc, hcompile⟩ := ih hrest hmem
      exact ⟨c, hsub c hc, hcompile⟩
    cases n with
    | caseOf q scrutinee' arms' =>
      obtain ⟨c, hc, h⟩ := bind_eq_ok h
      obtain ⟨rest, hrest', h⟩ := bind_eq_ok h
      obtain rfl := Except.ok.inj h
      rcases List.mem_cons.1 hn with heq | hn
      · obtain ⟨-, -, rfl⟩ := Node.caseOf.inj heq
        exact ⟨c, List.mem_cons_self, hc⟩
      · exact hrest hrest' hn fun d hd => List.mem_cons_of_mem c hd
    | _ =>
      rcases List.mem_cons.1 hn with heq | hn
      · cases heq
      · exact hrest h hn fun d hd => hd

end Case

namespace Node

variable {p : Option Position} {ds : List Node} {body : Node}

theorem mem_of_compileCases {t : ConstructorTable} {compiled : List Case}
    (h : (program p ds body).compileCases t = .ok compiled) (hds : ∀ d ∈ ds, d.isNode = true)
    {q : Option Position} {scrutinee : Node} {arms : List Node}
    (hn : caseOf q scrutinee arms ∈ codeNodes ds body) :
    ∃ c ∈ compiled, Case.compile t arms = .ok c := by
  obtain ⟨first, hfirst, h⟩ := bind_eq_ok h
  obtain ⟨nodes, hnodes, h⟩ := bind_eq_ok h
  obtain ⟨second, hsecond, h⟩ := bind_eq_ok h
  obtain rfl := Except.ok.inj h
  rcases List.mem_append.1 hn with hn | hn
  · obtain ⟨f, hf, hn⟩ := List.mem_flatMap.1 hn
    rw [← walk_eq_preorder (hds f (List.mem_filter.1 hf).1)] at hn
    obtain ⟨c, hc, hcompile⟩ := Case.mem_of_compileNodes hfirst (List.mem_flatMap.2 ⟨f, hf, hn⟩)
    exact ⟨c, List.mem_append_left _ hc, hcompile⟩
  · have hbody : nodes = body.walk := by
      unfold walk? at hnodes
      split at hnodes
      · cases hnodes
      · exact (Except.ok.inj hnodes).symm
    have hnode : body.isNode = true := by
      cases hb : body.isNode with
      | true => rfl
      | false =>
        rw [preorder_of_not_isNode hb] at hn
        cases hn
    rw [← walk_eq_preorder hnode, ← hbody] at hn
    obtain ⟨c, hc, hcompile⟩ := Case.mem_of_compileNodes hsecond hn
    exact ⟨c, List.mem_append_right _ hc, hcompile⟩

theorem knows_of_checkIntrinsics {t : IntrinsicTable} {ns : List Node}
    (h : checkIntrinsics t ns = .ok ()) {q : Option Position} {op : Name} {args : List Node}
    (hn : intrinsicCall q op args ∈ ns) : t.knows op = true := by
  induction ns with
  | nil => cases hn
  | cons n ns ih =>
    cases n with
    | intrinsicCall q' op' args' =>
      obtain ⟨_, _, h⟩ := bind_eq_ok h
      split at h
      · next hknows =>
        rcases List.mem_cons.1 hn with heq | hn
        · obtain ⟨-, rfl, -⟩ := intrinsicCall.inj heq
          exact hknows
        · exact ih h hn
      · cases h
    | _ =>
      rcases List.mem_cons.1 hn with heq | hn
      · cases heq
      · exact ih h hn

/-- **The check of the intrinsics passes if and only if all are known.** -/
theorem checkIntrinsics_eq_ok_iff {t : IntrinsicTable} {ns : List Node} :
    checkIntrinsics t ns = .ok () ↔
      ∀ q op args, intrinsicCall q op args ∈ ns → t.knows op = true := by
  constructor
  · exact fun h q op args hn => knows_of_checkIntrinsics h hn
  · intro h
    induction ns with
    | nil => rfl
    | cons n ns ih =>
      have hrest := ih fun q op args hn => h q op args (List.mem_cons_of_mem n hn)
      cases n with
      | intrinsicCall q op args =>
        have hknows := h q op args List.mem_cons_self
        cases op with
        | word s =>
          rw [checkIntrinsics, Name.check_word, ok_bind, if_pos hknows]
          exact hrest
        | other j => cases hknows
      | _ => exact hrest

variable {V : Vocabulary}

theorem paramNames_of_isParam {params : List Node} (h : params.all isParam = true) :
    ∃ names, paramNames params = .ok names ∧ ∀ n ∈ names, n.IsWord := by
  induction params with
  | nil => exact ⟨[], rfl, List.forall_mem_nil _⟩
  | cons param params ih =>
    rw [List.all_cons, Bool.and_eq_true] at h
    obtain ⟨names, hnames, hwords⟩ := ih h.2
    cases param with
    | param q name t =>
      have hname := h.1
      rw [isParam, Bool.and_eq_true] at hname
      refine ⟨name :: names, ?_, List.forall_mem_cons.2 ⟨Name.isWord_of_isIdent hname.1, hwords⟩⟩
      show (do return name :: (← paramNames params)) = _
      rw [hnames]
      rfl
    | _ => cases h.1

/-- **Declarations as written give their functions**, and the parameters of
these are words. -/
theorem declaredFunctions_of_areDeclarations (h : ∀ d ∈ ds, d.isDeclaration V = true) :
    (declaredFunctions ds).2 = .ok ()
      ∧ ∀ f ∈ (declaredFunctions ds).1, ∀ n ∈ f.params, n.IsWord := by
  induction ds with
  | nil => exact ⟨rfl, List.forall_mem_nil _⟩
  | cons d ds ih =>
    obtain ⟨hd, hds⟩ := List.forall_mem_cons.1 h
    obtain ⟨hok, hwords⟩ := ih hds
    cases d with
    | funDecl q name tps params body returnType =>
      rw [isDeclaration, Bool.and_eq_true, Bool.and_eq_true, Bool.and_eq_true] at hd
      obtain ⟨names, hnames, hparams⟩ := paramNames_of_isParam hd.1.1.2
      rw [declaredFunctions, hnames]
      exact ⟨hok, List.forall_mem_cons.2 ⟨hparams, hwords⟩⟩
    | _ => exact ⟨hok, hwords⟩

end Node

/-! ## Disciplines of expressions -/

/-- **Expressions among some nodes**, over functions with words for
parameters and data with words for constructors. -/
def expressions (M : Node → Prop) (V : Node.Vocabulary) : Discipline where
  Code _ n := M n ∧ n.isExpression V = true
  Data c _ := c.IsWord
  Params names := ∀ n ∈ names, n.IsWord
  Lists := HostResult.WordedAll

variable {V : Node.Vocabulary}

section

variable {M : Node → Prop} (hM : ∀ n, M n → ∀ c ∈ n.children, M c)

include hM

/-- What stands below code is code if it is an expression. -/
theorem expressions_child {Γ Γ' : Name → Prop} {n m : Node} (hn : (expressions M V).Code Γ n)
    (hm : m.isNode = true → m ∈ n.children) (hexpression : m.isExpression V = true) :
    (expressions M V).Code Γ' m :=
  ⟨hM n hn.1 m (hm (Node.isNode_of_isExpression hexpression)), hexpression⟩

theorem expressions_args {Γ : Name → Prop} {n : Node} {args : List Node}
    (hn : (expressions M V).Code Γ n) (hargs : ∀ a ∈ args, a.isNode = true → a ∈ n.children)
    (h : Node.areExpressions V args = true) : ∀ a ∈ args, (expressions M V).Code Γ a :=
  fun a ha => expressions_child hM hn (hargs a ha) (Node.areExpressions_iff.1 h a ha)

theorem expressions_callee {Γ : Name → Prop} {p : Option Position} {callee : Node}
    {args : List Node} (h : (expressions M V).Code Γ (.call p callee args)) :
    (expressions M V).Code Γ callee := by
  have hparts := h.2
  rw [Node.isExpression, Bool.and_eq_true, Bool.and_eq_true] at hparts
  exact expressions_child hM h (fun hn => by simp [Node.children, Node.nodesOf, hn]) hparts.1.2

/-- The functions of some declarations may run if the declarations are
among the nodes. -/
theorem expressions_functions {es : List Node} (hes : ∀ e ∈ es, e.isDeclaration V = true)
    (hcode : ∀ q name tps params b r, .funDecl q name tps params b r ∈ es →
      M (.funDecl q name tps params b r))
    {fs : List Function} (hfs : Node.declaredFunctions es = (fs, .ok ())) (Γ : Name → Prop) :
    ∀ f ∈ fs, (expressions M V).Runs Γ f := by
  intro f hf
  obtain ⟨q, tps, params, r, hmem, -⟩ := Node.mem_of_declaredFunctions hfs hf
  have hwords := (Node.declaredFunctions_of_areDeclarations hes).2
  rw [hfs] at hwords
  have hbody := hes _ hmem
  rw [Node.isDeclaration, Bool.and_eq_true] at hbody
  refine ⟨hwords f hf, hM _ (hcode _ _ _ _ _ _ hmem) _ ?_, hbody.2⟩
  simp [Node.children, Node.nodesOf, Node.isNode_of_isExpression hbody.2]

/-- **Expressions are a discipline**, for whatever host keeps it, if the
nodes are closed under going down. Ordinary failures and variables without
a value are allowed. -/
theorem expressions_governs {σ : Type} {F : Failure → Prop} {state : σ → Prop} {E : Engine σ}
    (hfails : ∀ f, f.isOrdinary = true → F f)
    (hunbound : ∀ name q, F (.of (.unboundVariable name) q))
    (hchecked : (expressions M V).Checked E ∨ ∀ f, f.isUnbound = false → F f)
    (hconstructors : ∀ c ∈ E.table.all, c.name.IsWord)
    (hnatives : ∀ n ∈ E.natives, n.Keeps (expressions M V) F state)
    (hintrinsics : ∀ i ∈ E.intrinsics.entries, i.Keeps (expressions M V)) :
    Governs (expressions M V) F state E where
  fails := hfails
  checked := hchecked
  var _ := .inr fun _ => hunbound _ _
  callee h := .inl (expressions_callee hM h)
  callArgs {Γ p callee args} h := by
    have hparts := h.2
    rw [Node.isExpression, Bool.and_eq_true] at hparts
    exact expressions_args hM h (fun a ha hn => by simp [Node.children, Node.nodesOf, ha, hn])
      hparts.2
  intrinsicArgs {Γ p op args} h := by
    have hparts := h.2
    rw [Node.isExpression, Bool.and_eq_true] at hparts
    exact expressions_args hM h (fun a ha hn => by simp [Node.children, Node.nodesOf, ha, hn])
      hparts.2
  directiveArgs {Γ p name args} h := by
    have hparts := h.2
    rw [Node.isExpression, Bool.and_eq_true] at hparts
    exact expressions_args hM h (fun a ha hn => by simp [Node.children, Node.nodesOf, ha, hn])
      hparts.2
  constructArgs {Γ p c args} h := by
    have hparts := h.2
    rw [Node.isExpression, Bool.and_eq_true] at hparts
    exact expressions_args hM h (fun a ha hn => by simp [Node.children, Node.nodesOf, ha, hn])
      hparts.2
  scrutinee {Γ p scrutinee arms} h := by
    have hparts := h.2
    rw [Node.isExpression, Bool.and_eq_true, Bool.and_eq_true] at hparts
    exact expressions_child hM h (fun hn => by simp [Node.children, Node.nodesOf, hn]) hparts.1.1
  arm {Γ p scrutinee arms} h v hv i bindings harm q pattern b hi := by
    have hparts := h.2
    rw [Node.isExpression, Bool.and_eq_true] at hparts
    have hmem := List.mem_of_getElem? hi
    have hbody := Node.areArms_iff.1 hparts.2 _ hmem
    rw [Node.isArm, Bool.and_eq_true] at hbody
    -- The body stands below the arm, and the arm below the case.
    have harm : M (.arm q pattern b) :=
      hM _ h.1 _ (by simp [Node.children, Node.nodesOf, hmem, Node.isNode])
    refine ⟨hM _ harm _ ?_, hbody.2⟩
    simp [Node.children, Node.nodesOf, Node.isNode_of_isExpression hbody.2]
  letIn {Γ p name value b t} h := by
    have hparts := h.2
    rw [Node.isExpression, Bool.and_eq_true, Bool.and_eq_true] at hparts
    exact ⟨expressions_child hM h (fun hn => by simp [Node.children, Node.nodesOf, hn]) hparts.1.2,
      expressions_child hM h (fun hn => by simp [Node.children, Node.nodesOf, hn]) hparts.2⟩
  seq {Γ p first rest} h := by
    have hparts := h.2
    rw [Node.isExpression, Bool.and_eq_true] at hparts
    exact ⟨expressions_child hM h (fun hn => by simp [Node.children, Node.nodesOf, hn]) hparts.1,
      expressions_child hM h (fun hn => by simp [Node.children, Node.nodesOf, hn]) hparts.2⟩
  lambda {Γ p params b} h := by
    have hparts := h.2
    rw [Node.isExpression, Bool.and_eq_true] at hparts
    refine ⟨fun n hn => Name.isWord_of_isIdent (List.all_eq_true.1 hparts.1 n hn), ?_⟩
    exact expressions_child hM h (fun hn => by simp [Node.children, Node.nodesOf, hn]) hparts.2
  block {Γ p es b fs} h hfs := by
    have hparts := h.2
    rw [Node.isExpression, Bool.and_eq_true, Bool.and_eq_true] at hparts
    refine ⟨expressions_functions hM (Node.areDeclarations_iff.1 hparts.1.2) ?_ hfs _,
      expressions_child hM h (fun hn => by simp [Node.children, Node.nodesOf, hn]) hparts.2⟩
    intro q name tps params c r hmem
    exact hM _ h.1 _ (by simp [Node.children, Node.nodesOf, hmem, Node.isNode])
  data {Γ p c args} h d hd := by
    have hparts := h.2
    rw [Node.isExpression, Bool.and_eq_true, Bool.and_eq_true] at hparts
    exact ⟨Name.isWord_of_isIdent hparts.1.1, hconstructors d (List.mem_of_find?_eq_some hd)⟩
  native := hnatives
  intrinsic := hintrinsics

end

/-! ## The code of a program -/

open Node (codeNodes)

/-- **The code of a program**: its expressions, over functions with words
for parameters and data with words for constructors. -/
def codeOf (V : Node.Vocabulary) (ds : List Node) (body : Node) : Discipline where
  Code _ n := n ∈ codeNodes ds body ∧ n.isExpression V = true
  Data c _ := c.IsWord
  Params names := ∀ n ∈ names, n.IsWord
  Lists := HostResult.WordedAll

variable {ds : List Node} {body : Node}

theorem codeOf_eq_expressions :
    codeOf V ds body = expressions (· ∈ codeNodes ds body) V := rfl

theorem codeOf_callee {Γ : Name → Prop} {p : Option Position} {callee : Node} {args : List Node}
    (h : (codeOf V ds body).Code Γ (.call p callee args)) : (codeOf V ds body).Code Γ callee :=
  expressions_callee (fun _ hn _ => Node.mem_codeNodes_of_mem_children hn) h

/-- The functions of some declarations may run if the declarations stand
in the code of the program. -/
theorem codeOf_functions {es : List Node} (hes : ∀ e ∈ es, e.isDeclaration V = true)
    (hcode : ∀ q name tps params b r, .funDecl q name tps params b r ∈ es →
      .funDecl q name tps params b r ∈ codeNodes ds body)
    {fs : List Function} (hfs : Node.declaredFunctions es = (fs, .ok ())) (Γ : Name → Prop) :
    ∀ f ∈ fs, (codeOf V ds body).Runs Γ f :=
  expressions_functions (fun _ hn _ => Node.mem_codeNodes_of_mem_children hn) hes hcode hfs Γ

variable {σ : Type} {state : σ → Prop} {E : Engine σ}

/-- **All code of a program that was read and loaded has been checked.** -/
theorem codeOf_checked {L : Literal → Bool} {b : Bool} {p : Option Position}
    {compiled : List Case} (hds : ∀ d ∈ ds, d.isNode = true)
    (hknown : Node.checkIntrinsics E.intrinsics (Node.program p ds body).walk = .ok ())
    (hcases : (Node.program p ds body).compileCases E.caseTable = .ok compiled)
    (htotal : ∀ i ∈ E.intrinsics.entries, i.IsTotal) :
    (codeOf (.resolved E.table L b) ds body).Checked E where
  code := by
    rintro Γ n ⟨hmem, h⟩
    cases n with
    | literal q v => trivial
    | unit q => trivial
    | var q name =>
      rw [Node.isExpression, Bool.and_eq_true] at h
      exact Name.isWord_of_isIdent h.1
    | call q callee args =>
      rintro q' name rfl
      rw [Node.isExpression, Bool.and_eq_true, Bool.and_eq_true, Node.isExpression,
        Bool.and_eq_true] at h
      exact Name.isWord_of_isIdent h.1.2.1
    | intrinsicCall q op args =>
      exact Node.knows_of_checkIntrinsics hknown (Node.mem_walk_of_mem_codeNodes hmem)
    | directiveCall q name args =>
      rw [Node.isExpression, Bool.and_eq_true] at h
      exact Name.isWord_of_isSigilName h.1
    | construct q c args =>
      rw [Node.isExpression, Bool.and_eq_true, Bool.and_eq_true] at h
      exact ⟨Name.isWord_of_isIdent h.1.1, h.1.2⟩
    | caseOf q scrutinee arms =>
      obtain ⟨c, -, hc⟩ := Node.mem_of_compileCases hcases hds hmem
      exact ⟨c, hc⟩
    | letIn q name value b t =>
      rw [Node.isExpression, Bool.and_eq_true, Bool.and_eq_true, Bool.and_eq_true] at h
      exact Name.isWord_of_isIdent h.1.1.1
    | seq q first rest => trivial
    | lambda q params b => trivial
    | block q es b =>
      rw [Node.isExpression, Bool.and_eq_true, Bool.and_eq_true] at h
      exact (Node.declaredFunctions_of_areDeclarations (Node.areDeclarations_iff.1 h.1.2)).1
    | _ => cases h
  data h := h
  params h := h
  lists h := h
  intrinsics := htotal

/-- **The code of a program is a discipline**, for whatever host keeps it.
Ordinary failures and variables without a value are allowed, and what the
host raises. -/
theorem codeOf_governs (C : (codeOf V ds body).Checked E) {H : Failure → Prop}
    (hconstructors : ∀ c ∈ E.table.all, c.name.IsWord)
    (hnatives : ∀ n ∈ E.natives, n.Keeps (codeOf V ds body)
      (fun f => f.isOrdinary = true ∨ f.isUnbound = true ∨ H f) state)
    (hintrinsics : ∀ i ∈ E.intrinsics.entries, i.Keeps (codeOf V ds body)) :
    Governs (codeOf V ds body) (fun f => f.isOrdinary = true ∨ f.isUnbound = true ∨ H f)
      state E := by
  rw [codeOf_eq_expressions] at C hnatives hintrinsics ⊢
  exact expressions_governs (fun _ hn _ => Node.mem_codeNodes_of_mem_children hn)
    (fun _ h => .inl h) (fun _ _ => .inr (.inl rfl)) (.inl C) hconstructors hnatives hintrinsics

namespace Session

open Node (program externDecl typeSpec literal var lambda intrinsicCall caseOf arm patternVar)

/-- **Checks before a run leave only ordinary failures.** A program that
was read from a text and loaded fails in an ordinary way, for want of the
value of a variable, or as the host fails on its own – where the host
gives back data with words for constructors, closures of the program, and
no other values. All that is evaluated has been checked: there is a rule
for it, and if it is a case it is one of those that were compiled. -/
theorem run_fails_ordinarily (text : String) (frames : Int) (root : Node) (I I' : Interpreter σ)
    (p : Option Position) (ds : List Node) (body : Node) (H : Failure → Prop) (state : σ → Prop)
    (hsource : Node.ofSource text frames = .ok root) (hroot : root = .program p ds body)
    (hload : I.perform (load root) = (.ok (), I')) (hstandard : I.intrinsics = .standard)
    (hnatives : ∀ n ∈ I.natives, n.Keeps
      (codeOf (.resolved I'.table Literal.isWritable true) ds body)
      (fun f => f.isOrdinary = true ∨ f.isUnbound = true ∨ H f) state)
    (hhost : state I.journal.host) :
    (∀ f, (I.perform (run root)).1 = .error f →
      f.isOrdinary = true ∨ f.isUnbound = true ∨ H f)
      ∧ ∀ m, Visits root I m → m.node.IsChecked I'.engine ∧ ∀ q scrutinee arms,
        m.node = .caseOf q scrutinee arms → ∃ c ∈ I'.cases, Case.compile I'.table arms = .ok c := by
  subst hroot
  obtain ⟨q, ds', body', fs, heq, L⟩ := loaded_of_load hload
  obtain ⟨rfl, rfl, rfl⟩ := Node.program.inj heq
  obtain ⟨t, ht, hprogram⟩ := Node.isProgram_of_ofSource hsource
  obtain rfl : I'.table = t := Except.ok.inj (L.table.symm.trans ht)
  have hwords := Node.isWord_of_checkDeclarations hprogram ht
  rw [Node.isProgram, Bool.and_eq_true] at hprogram
  have hds := Node.areDeclarations_iff.1 hprogram.1
  have hnodes : ∀ d ∈ ds, d.isNode = true := fun d hd => Node.isNode_of_isDeclaration (hds d hd)
  have hcases : (Node.program p ds body).compileCases I'.engine.caseTable = .ok I'.cases := by
    show (Node.program p ds body).compileCases I'.caseTable = _
    rw [L.caseTable]
    exact L.cases
  have hintrinsics : I'.engine.intrinsics = .standard := L.intrinsics.trans hstandard
  have C : (codeOf (.resolved I'.table Literal.isWritable true) ds body).Checked I'.engine := by
    refine codeOf_checked hnodes ?_ hcases (hintrinsics ▸ IntrinsicTable.total_standard)
    show Node.checkIntrinsics I'.intrinsics _ = _
    rw [L.intrinsics]
    exact L.known
  have G := codeOf_governs C hwords (fun n hn => hnatives n (L.natives ▸ hn))
    (hintrinsics ▸ IntrinsicTable.keeps_standard)
  have hglobals :
      I'.globals.Kept (codeOf (.resolved I'.table Literal.isWritable true) ds body) := by
    rw [L.globals]
    refine ⟨codeOf_functions hds (fun q name tps params b r hmem => ?_) L.functions _, trivial⟩
    refine List.mem_append_left _ (List.mem_flatMap.2 ⟨_, ?_, Node.mem_preorder_self rfl⟩)
    exact List.mem_filter.2 ⟨hmem, rfl⟩
  have hjournal : I'.journal.Kept (codeOf (.resolved I'.table Literal.isWritable true) ds body)
      state := by
    refine ⟨?_, ?_⟩
    · rw [L.host]
      exact hhost
    · rw [L.effects]
      simp
  have hbody : (codeOf (.resolved I'.table Literal.isWritable true) ds body).Code
      I'.globals.Binds body :=
    ⟨List.mem_append_right _ (Node.mem_preorder_self (Node.isNode_of_isExpression hprogram.2)),
      hprogram.2⟩
  refine ⟨(run_of_load hload G hglobals hjournal ?_).2.2, ?_⟩
  · rintro _ _ ⟨⟩
    exact hbody
  · rintro m ⟨I'', q, ds', body', hload', heq, hreach⟩
    obtain ⟨rfl, rfl, rfl⟩ := Node.program.inj heq
    obtain rfl := (Prod.mk.inj (hload.symm.trans hload')).2
    have hm := Moment.kept_of_reaches G codeOf_callee hreach ⟨hglobals, hbody, hjournal⟩
    refine ⟨C.code hm.code, fun q scrutinee arms hcase => ?_⟩
    have hmem := hm.code.1
    rw [hcase] at hmem
    exact Node.mem_of_compileCases L.cases hnodes hmem

/-- A program that has the host call a closure, which fails. -/
def failingText : String :=
  "begin extern apply:fun(t,t)->t; in case 0 of|n=>apply(fn(y)=>{@idiv(y,n)},1) end end"

/-- The program that the text says. -/
def failingProgram : Node :=
  program (some ⟨1, 1⟩)
    [externDecl (some ⟨1, 7⟩) "apply" [] [typeSpec (.mk "t" []), typeSpec (.mk "t" [])]
      (typeSpec (.mk "t" []))]
    (caseOf (some ⟨1, 36⟩) (literal (some ⟨1, 41⟩) (.int 0))
      [arm (some ⟨1, 45⟩) (patternVar (some ⟨1, 46⟩) "n")
        (.call (some ⟨1, 49⟩) (var (some ⟨1, 49⟩) "apply")
          [lambda (some ⟨1, 55⟩) ["y"]
            (intrinsicCall (some ⟨1, 63⟩) "idiv"
              [var (some ⟨1, 69⟩) "y", var (some ⟨1, 71⟩) "n"]),
            literal (some ⟨1, 75⟩) (.int 1)])])

theorem ofSource_failingText : Node.ofSource failingText 1000 = .ok failingProgram := by
  refine @Node.ofSource_of_tokens _ _ ?tokens failingProgram _ ?scanned ?read ?resolved
  case scanned =>
    cbv
    rfl
  case read => rfl
  case resolved =>
    unfold Node.resolveProgram Node.checkDeclarations Node.scopes
    rw [Node.walk_eq_preorder rfl]
    rfl

/-- The case and the closure have been checked, and what fails is the
division. -/
theorem run_failingProgram_fails_ordinarily :
    Node.ofSource failingText 1000 = .ok failingProgram
      ∧ ∃ I' f, Interpreter.perform { natives := [applyNative], journal := { host := () } }
          (load failingProgram) = (.ok (), I')
        ∧ (Interpreter.perform { natives := [applyNative], journal := { host := () } }
          (run failingProgram)).1 = .error f
        ∧ (f.isOrdinary = true ∨ f.isUnbound = true ∨ False)
        ∧ ∀ m, Visits failingProgram { natives := [applyNative], journal := { host := () } } m →
          m.node.IsChecked I'.engine := by
  let I : Interpreter Unit := { natives := [applyNative], journal := { host := () } }
  have hload : (I.perform (load failingProgram)).1 = .ok () := by decide +kernel
  have hrun : (I.perform (run failingProgram)).1
      = .error (.of (.divisionByZero "idiv") (some ⟨1, 63⟩)) := by decide +kernel
  have hnatives {D : Discipline} {F : Failure → Prop} :
      ∀ n ∈ I.natives, n.Keeps D F fun _ => True := by
    intro n hn
    obtain rfl := List.mem_singleton.1 hn
    exact keeps_applyNative
  obtain ⟨hfails, hvisits⟩ := run_fails_ordinarily failingText 1000 failingProgram I _ _ _ _
    (fun _ => False) (fun _ => True) ofSource_failingText rfl (Prod.ext hload rfl) rfl hnatives
    trivial
  exact ⟨ofSource_failingText, _, _, Prod.ext hload rfl, hrun, hfails _ hrun,
    fun m hm => (hvisits m hm).1⟩

end Session

end EmberLang
