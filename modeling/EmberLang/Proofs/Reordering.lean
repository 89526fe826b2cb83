import EmberLang.Proofs.CheckedCode
import EmberLang.Proofs.Clashes
import EmberLang.Proofs.Simulation

/-!
# Programs with their declarations in another order

`Node.Reordered` relates a tree to the trees that differ from it in the
order of declarations only: those of the program, and those of each block
wherever it stands.

Every check before a run goes over declarations or nodes in some order.
The order of the nodes of a reordered tree is another one, but up to it
they are the nodes of the tree, reordered themselves
(`Node.Reordered.preorder`). So a check that asks something of every node,
or of every two declarations, passes for both or for neither: the
declarations have no clashes (`Node.Shuffled.checkDeclarations`), the
intrinsics are known (`Node.Shuffled.checkIntrinsics`) and the cases
compile (`Node.Shuffled.compileCases`). Constructors, foreign functions and
functions are found under their names as before.
-/

namespace EmberLang

namespace Node

mutual

/-- **A tree with its declarations in another order**: those of the
program, and independently those of each block. -/
inductive Reordered : Node → Node → Prop
  | refl (n : Node) : Reordered n n
  | program {p ds es ds' b b'} (declarations : ReorderedAll ds es) (order : es.Perm ds')
      (body : Reordered b b') : Reordered (.program p ds b) (.program p ds' b')
  | block {p ds es ds' b b'} (declarations : ReorderedAll ds es) (order : es.Perm ds')
      (body : Reordered b b') : Reordered (.block p ds b) (.block p ds' b')
  | funDecl {p name tps params b b' r} (body : Reordered b b') :
      Reordered (.funDecl p name tps params b r) (.funDecl p name tps params b' r)
  | call {p c c' as as'} (callee : Reordered c c') (args : ReorderedAll as as') :
      Reordered (.call p c as) (.call p c' as')
  | intrinsicCall {p op as as'} (args : ReorderedAll as as') :
      Reordered (.intrinsicCall p op as) (.intrinsicCall p op as')
  | directiveCall {p name as as'} (args : ReorderedAll as as') :
      Reordered (.directiveCall p name as) (.directiveCall p name as')
  | construct {p c as as'} (args : ReorderedAll as as') :
      Reordered (.construct p c as) (.construct p c as')
  | arm {p pattern b b'} (body : Reordered b b') : Reordered (.arm p pattern b) (.arm p pattern b')
  | caseOf {p s s' as as'} (scrutinee : Reordered s s') (arms : ReorderedAll as as') :
      Reordered (.caseOf p s as) (.caseOf p s' as')
  | letIn {p name v v' b b' t} (value : Reordered v v') (body : Reordered b b') :
      Reordered (.letIn p name v b t) (.letIn p name v' b' t)
  | seq {p f f' r r'} (first : Reordered f f') (rest : Reordered r r') :
      Reordered (.seq p f r) (.seq p f' r')
  | lambda {p params b b'} (body : Reordered b b') :
      Reordered (.lambda p params b) (.lambda p params b')

/-- Several trees, each reordered in its place. -/
inductive ReorderedAll : List Node → List Node → Prop
  | nil : ReorderedAll [] []
  | cons {n n' ns ns'} (head : Reordered n n') (tail : ReorderedAll ns ns') :
      ReorderedAll (n :: ns) (n' :: ns')

end

theorem reorderedAll_iff {ns ns' : List Node} :
    ReorderedAll ns ns' ↔ List.Forall₂ Reordered ns ns' := by
  constructor
  · intro h
    induction ns generalizing ns' with
    | nil =>
      cases h
      exact .nil
    | cons n ns ih =>
      cases h with
      | cons head tail => exact .cons head (ih tail)
  · intro h
    induction h with
    | nil => exact .nil
    | cons head _ ih => exact .cons head ih

theorem ReorderedAll.refl (ns : List Node) : ReorderedAll ns ns :=
  reorderedAll_iff.2 (List.forall₂_same.2 fun n _ => .refl n)

/-- **Several trees, reordered and in any order.** -/
def Shuffled (ns ns' : List Node) : Prop := ∃ ms, ReorderedAll ns ms ∧ ms.Perm ns'

namespace Shuffled

variable {ns ns' ms ms' : List Node}

theorem refl (ns : List Node) : Shuffled ns ns := ⟨ns, .refl ns, .refl ns⟩

theorem cons {n n' : Node} (hn : Reordered n n') (h : Shuffled ns ns') :
    Shuffled (n :: ns) (n' :: ns') := by
  obtain ⟨ks, hks, hperm⟩ := h
  exact ⟨n' :: ks, .cons hn hks, hperm.cons n'⟩

theorem append (h : Shuffled ns ns') (h' : Shuffled ms ms') : Shuffled (ns ++ ms) (ns' ++ ms') := by
  obtain ⟨ks, hks, hperm⟩ := h
  obtain ⟨ks', hks', hperm'⟩ := h'
  refine ⟨ks ++ ks', reorderedAll_iff.2 ?_, hperm.append hperm'⟩
  exact List.rel_append (reorderedAll_iff.1 hks) (reorderedAll_iff.1 hks')

theorem trans_perm (h : Shuffled ns ns') (hperm : ns'.Perm ms) : Shuffled ns ms := by
  obtain ⟨ks, hks, hperm'⟩ := h
  exact ⟨ks, hks, hperm'.trans hperm⟩

theorem reordered_program {p : Option Position} {b b' : Node} (h : Shuffled ns ns')
    (hb : Reordered b b') :
    Reordered (.program p ns b) (.program p ns' b') := by
  obtain ⟨ks, hks, hperm⟩ := h
  exact .program hks hperm hb

/-- Every tree on the right comes from one on the left. -/
theorem exists_mem (h : Shuffled ns ns') {n' : Node} (hn' : n' ∈ ns') :
    ∃ n ∈ ns, n.Reordered n' := by
  obtain ⟨ks, hks, hperm⟩ := h
  exact exists_mem_of_forall₂ (reorderedAll_iff.1 hks) (hperm.mem_iff.2 hn')

/-- What is picked from trees that are reordered is picked from them in
any order. -/
theorem filterMap {α : Type} {R : α → α → Prop} {f : Node → Option α}
    (hf : ∀ n n', Reordered n n' → Option.Rel R (f n) (f n')) (h : Shuffled ns ns') :
    ∃ l, List.Forall₂ R (ns.filterMap f) l ∧ l.Perm (ns'.filterMap f) := by
  obtain ⟨ks, hks, hperm⟩ := h
  exact ⟨ks.filterMap f, List.rel_filterMap (fun n n' h => hf n n' h) (reorderedAll_iff.1 hks),
    hperm.filterMap f⟩

/-- The same for what does not change at all. -/
theorem filterMap_perm {α : Type} {f : Node → Option α}
    (hf : ∀ n n', Reordered n n' → f n' = f n) (h : Shuffled ns ns') :
    (ns.filterMap f).Perm (ns'.filterMap f) := by
  obtain ⟨l, hl, hperm⟩ := h.filterMap (R := Eq) (f := f) fun n n' hn => by
    rw [hf n n' hn]
    cases f n with
    | none => exact .none
    | some a => exact .some rfl
  rw [List.forall₂_eq_eq_eq] at hl
  exact hl ▸ hperm

end Shuffled

/-! ## What stays when a tree is reordered -/

theorem Reordered.isNode_eq {n n' : Node} (h : Reordered n n') : n'.isNode = n.isNode := by
  cases h <;> rfl

theorem Reordered.sketch_eq {n n' : Node} (h : Reordered n n') : n'.sketch = n.sketch := by
  cases h <;> rfl

theorem Shuffled.map_sketch_perm {ds ds' : List Node} (h : Shuffled ds ds') :
    (ds.map sketch).Perm (ds'.map sketch) := by
  have hsome := h.filterMap_perm (f := fun d => some d.sketch) fun n n' hn => by
    rw [hn.sketch_eq]
  rwa [List.filterMap_eq_map'] at hsome

/-- A node if it declares a data type. -/
def data? (n : Node) : Option Node := if n.isDataDecl then some n else none

theorem Reordered.data?_eq {n n' : Node} (h : Reordered n n') : n'.data? = n.data? := by
  cases h <;> rfl

theorem filterMap_data? (ds : List Node) : ds.filterMap data? = ds.filter isDataDecl := by
  rw [← List.filterMap_eq_filter]
  refine congrArg (List.filterMap · ds) (funext fun d => ?_)
  unfold data? Option.guard
  rfl

theorem preorderAll_perm {ns ms : List Node} (h : ns.Perm ms) :
    (preorderAll ns).Perm (preorderAll ms) := by
  rw [preorderAll_eq_flatMap, preorderAll_eq_flatMap]
  exact h.flatMap_right _

mutual

/-- **The nodes of a reordered tree** are those of the tree, reordered and
in another order. -/
theorem Reordered.preorder {n n' : Node} (h : Reordered n n') :
    Shuffled n.preorder n'.preorder := by
  cases h with
  | refl => exact .refl _
  | program declarations order body =>
    have hds := declarations.preorderAll.trans_perm (preorderAll_perm order)
    exact .cons (.program declarations order body) (hds.append body.preorder)
  | block declarations order body =>
    have hds := declarations.preorderAll.trans_perm (preorderAll_perm order)
    exact .cons (.block declarations order body) (hds.append body.preorder)
  | funDecl body =>
    exact .cons (.funDecl body) ((Shuffled.refl _).append (body.preorder.append (.refl _)))
  | call callee args => exact .cons (.call callee args) (callee.preorder.append args.preorderAll)
  | intrinsicCall args => exact .cons (.intrinsicCall args) args.preorderAll
  | directiveCall args => exact .cons (.directiveCall args) args.preorderAll
  | construct args => exact .cons (.construct args) args.preorderAll
  | arm body => exact .cons (.arm body) ((Shuffled.refl _).append body.preorder)
  | caseOf scrutinee arms =>
    exact .cons (.caseOf scrutinee arms) (scrutinee.preorder.append arms.preorderAll)
  | letIn value body =>
    exact .cons (.letIn value body) (value.preorder.append (body.preorder.append (.refl _)))
  | seq first rest => exact .cons (.seq first rest) (first.preorder.append rest.preorder)
  | lambda body => exact .cons (.lambda body) body.preorder

theorem ReorderedAll.preorderAll {ns ns' : List Node} (h : ReorderedAll ns ns') :
    Shuffled (preorderAll ns) (preorderAll ns') := by
  cases h with
  | nil => exact .refl _
  | cons head tail => exact head.preorder.append tail.preorderAll

end

/-! ## Declarations -/

/-- The declarations of a block. -/
def block? : Node → Option (List Node)
  | block _ ds _ => some ds
  | _ => none

theorem scopes_eq {p : Option Position} {ds : List Node} {body : Node} :
    (program p ds body).scopes ds = ds :: (program p ds body).preorder.filterMap block? := by
  rw [← walk_eq_preorder rfl]
  unfold scopes
  congr 1

/-- The scopes of a program that is reordered are scopes of the program
that are. -/
theorem Shuffled.exists_mem_scopes {p : Option Position} {ds ds' : List Node} {body body' : Node}
    (hds : Shuffled ds ds') (hbody : Reordered body body') {es' : List Node}
    (hes' : es' ∈ (program p ds' body').scopes ds') :
    ∃ es ∈ (program p ds body).scopes ds, Shuffled es es' := by
  rw [scopes_eq] at hes' ⊢
  rcases List.mem_cons.1 hes' with rfl | hes'
  · exact ⟨ds, List.mem_cons_self, hds⟩
  · obtain ⟨n', hn', hblock⟩ := List.mem_filterMap.1 hes'
    obtain ⟨n, hn, hnn'⟩ := (hds.reordered_program (p := p) hbody).preorder.exists_mem hn'
    suffices ∃ es, block? n = some es ∧ Shuffled es es' by
      obtain ⟨es, hes, hshuffled⟩ := this
      exact ⟨es, List.mem_cons_of_mem _ (List.mem_filterMap.2 ⟨n, hn, hes⟩), hshuffled⟩
    cases hnn' with
    | refl => exact ⟨es', hblock, .refl _⟩
    | @block _ _ es _ _ _ declarations order body =>
      obtain rfl := Option.some.inj hblock
      exact ⟨_, rfl, es, declarations, order⟩
    | _ => cases hblock

/-- The data types that blocks declare. -/
def blockData (n : Node) : List Node := ((block? n).getD []).filterMap data?

theorem flatten_filterMap_block? (l : List Node) :
    ((l.filterMap block?).flatten).filterMap data?
      = l.flatMap blockData := by
  induction l with
  | nil => rfl
  | cons n l ih =>
    rw [List.filterMap_cons, List.flatMap_cons, ← ih, blockData]
    cases block? n with
    | none => rfl
    | some ds => rw [List.flatten_cons, List.filterMap_append, Option.getD_some]

theorem Reordered.blockData_perm {n n' : Node} (h : Reordered n n') :
    n.blockData.Perm n'.blockData := by
  cases h with
  | block declarations order body =>
    have hshuffled : Shuffled _ _ := ⟨_, declarations, order⟩
    exact hshuffled.filterMap_perm fun _ _ h => h.data?_eq
  | _ => exact .refl _

theorem Shuffled.flatMap_blockData_perm {ns ns' : List Node} (h : Shuffled ns ns') :
    (ns.flatMap blockData).Perm (ns'.flatMap blockData) := by
  obtain ⟨ms, hms, hperm⟩ := h
  refine List.Perm.trans ?_ (hperm.flatMap_right _)
  rw [reorderedAll_iff] at hms
  clear hperm
  induction hms with
  | nil => exact .refl _
  | cons head _ ih => exact head.blockData_perm.append ih

/-- The data types of a program are the same, in another order. -/
theorem Shuffled.filter_isDataDecl_perm {p : Option Position} {ds ds' : List Node}
    {body body' : Node} (hds : Shuffled ds ds') (hbody : Reordered body body') :
    (((program p ds body).scopes ds).flatten.filter isDataDecl).Perm
      (((program p ds' body').scopes ds').flatten.filter isDataDecl) := by
  rw [scopes_eq, scopes_eq, ← filterMap_data?, ← filterMap_data?, List.flatten_cons,
    List.flatten_cons, List.filterMap_append, List.filterMap_append, flatten_filterMap_block?,
    flatten_filterMap_block?]
  refine (hds.filterMap_perm fun _ _ h => h.data?_eq).append ?_
  exact (hds.reordered_program hbody).preorder.flatMap_blockData_perm

/-- **The check of the declarations does not depend on their order**, and
neither does what is found in the table. -/
theorem Shuffled.checkDeclarations {p : Option Position} {ds ds' : List Node} {body body' : Node}
    (hds : Shuffled ds ds') (hbody : Reordered body body') {t : ConstructorTable}
    (ht : (program p ds body).checkDeclarations = .ok t) :
    ∃ t', (program p ds' body').checkDeclarations = .ok t' ∧ ∀ x, t'.get? x = t.get? x := by
  obtain ⟨htypes, hdistinct, hclear⟩ := checkDeclarations_eq_ok_iff.1 ht
  obtain ⟨types, htypes', hperm⟩ :=
    List.perm_comp_forall₂ (hds.filter_isDataDecl_perm hbody).symm htypes
  have hget (x : Name) : ConstructorTable.get? ⟨types⟩ x = t.get? x :=
    hdistinct.get?_eq hperm.symm x
  refine ⟨⟨types⟩, checkDeclarations_eq_ok_iff.2 ⟨htypes', hdistinct.perm hperm.symm, ?_⟩, hget⟩
  intro es' hes'
  obtain ⟨es, hes, hshuffled⟩ := hds.exists_mem_scopes hbody hes'
  exact (hclear es hes).perm hget hshuffled.map_sketch_perm

/-! ## Intrinsics -/

theorem Shuffled.checkIntrinsics {t : IntrinsicTable} {ns ns' : List Node} (h : Shuffled ns ns')
    (hns : checkIntrinsics t ns = .ok ()) : Node.checkIntrinsics t ns' = .ok () := by
  refine checkIntrinsics_eq_ok_iff.2 fun q op args hn' => ?_
  obtain ⟨n, hn, hnn'⟩ := h.exists_mem hn'
  cases hnn' with
  | refl => exact knows_of_checkIntrinsics hns hn
  | intrinsicCall => exact knows_of_checkIntrinsics hns hn

/-! ## Cases -/

mutual

/-- A pattern is resolved by what is found in the table. -/
theorem resolvePattern_congr {t t' : ConstructorTable} (ht : ∀ x, t'.get? x = t.get? x)
    (names : List Name) (n : Node) : n.resolvePattern t' names = n.resolvePattern t names := by
  cases n with
  | patternVar p name => rw [resolvePattern, resolvePattern, ht]
  | patternCtor p c args =>
    have hargs : ∀ names, resolvePatterns t' names args = resolvePatterns t names args :=
      fun names => resolvePatterns_congr ht names args
    unfold resolvePattern ConstructorTable.lookup
    rw [ht, hargs]
  | _ => rfl

theorem resolvePatterns_congr {t t' : ConstructorTable} (ht : ∀ x, t'.get? x = t.get? x)
    (names : List Name) (ns : List Node) :
    resolvePatterns t' names ns = resolvePatterns t names ns := by
  cases ns with
  | nil => rfl
  | cons n ns =>
    have hns : ∀ names, resolvePatterns t' names ns = resolvePatterns t names ns :=
      fun names => resolvePatterns_congr ht names ns
    rw [resolvePatterns, resolvePatterns, resolvePattern_congr ht names n]
    simp only [hns]

end

end Node

namespace Case

/-- **Two cases with the same patterns**, whatever their arms lead to. -/
structure SamePatterns (c c' : Case) : Prop where
  /-- The patterns of the arms. -/
  patterns : c'.arms.map (·.pattern) = c.arms.map (·.pattern)
  /-- Which arms to try. -/
  dispatch : c'.dispatch = c.dispatch

theorem SamePatterns.refl (c : Case) : SamePatterns c c := ⟨rfl, rfl⟩

theorem SamePatterns.add {c c' : Case} (h : SamePatterns c c') (pattern body body' : Node)
    (bindings : List Name) : SamePatterns (c.add pattern body bindings)
      (c'.add pattern body' bindings) := by
  have hlength := congrArg List.length h.patterns
  rw [List.length_map, List.length_map] at hlength
  refine ⟨?_, ?_⟩
  · unfold Case.add
    rw [List.map_append, List.map_append, h.patterns]
    rfl
  · unfold Case.add
    rw [h.dispatch, hlength]

/-- They choose the same arms. -/
theorem SamePatterns.select?_eq {c c' : Case} (h : SamePatterns c c') (v : Value) :
    c'.select? v = c.select? v := by
  have hattempt : c'.attempt? v = c.attempt? v := by
    funext i
    have hi := congrArg (·[i]?) h.patterns
    rw [List.getElem?_map, List.getElem?_map] at hi
    unfold attempt?
    cases hc : c.arms[i]? with
    | none =>
      rw [hc] at hi
      rw [Option.map_eq_none_iff.1 hi]
    | some arm =>
      rw [hc] at hi
      obtain ⟨arm', harm', hpattern⟩ := Option.map_eq_some_iff.1 hi
      rw [harm']
      dsimp only [Option.bind_eq_bind, Option.bind_some]
      rw [hpattern]
  unfold select? candidates
  rw [h.dispatch, hattempt]

theorem compileFrom_reordered {t t' : ConstructorTable} (ht : ∀ x, t'.get? x = t.get? x)
    {arms arms' : List Node} (harms : Node.ReorderedAll arms arms') {done done' : Case}
    (hdone : SamePatterns done done') :
    Concur Eq SamePatterns (compileFrom t done arms) (compileFrom t' done' arms') := by
  rw [Node.reorderedAll_iff] at harms
  induction harms generalizing done done' with
  | nil => exact hdone
  | @cons n n' arms arms' head _ ih =>
    have harm : ∀ p pattern body body', Concur Eq SamePatterns
        (compileFrom t done (.arm p pattern body :: arms))
        (compileFrom t' done' (.arm p pattern body' :: arms')) := by
      intro p pattern body body'
      rw [compileFrom, compileFrom, Node.resolvePattern_congr ht]
      cases pattern.resolvePattern t [] with
      | error f => exact rfl
      | ok r => exact ih (hdone.add r.1 body body' r.2)
    cases head with
    | refl =>
      cases n with
      | arm p pattern body => exact harm p pattern body body
      | _ => exact rfl
    | arm body => exact harm _ _ _ _
    | _ => exact rfl

/-- **Arms that are reordered compile to the same dispatch.** -/
theorem compile_reordered {t t' : ConstructorTable} (ht : ∀ x, t'.get? x = t.get? x)
    {arms arms' : List Node} (harms : Node.ReorderedAll arms arms') :
    Concur Eq SamePatterns (compile t arms) (compile t' arms') :=
  compileFrom_reordered ht harms (.refl _)

theorem compileNodes_of_compile {t : ConstructorTable} {ns : List Node}
    (h : ∀ q scrutinee arms, Node.caseOf q scrutinee arms ∈ ns → ∃ c, compile t arms = .ok c) :
    ∃ cs, compileNodes t ns = .ok cs := by
  induction ns with
  | nil => exact ⟨[], rfl⟩
  | cons n ns ih =>
    obtain ⟨cs, hcs⟩ := ih fun q s arms hn => h q s arms (List.mem_cons_of_mem n hn)
    cases n with
    | caseOf q scrutinee arms =>
      obtain ⟨c, hc⟩ := h q scrutinee arms List.mem_cons_self
      rw [compileNodes, hc, hcs]
      exact ⟨c :: cs, rfl⟩
    | _ => exact ⟨cs, hcs⟩

theorem compileNodes_shuffled {t t' : ConstructorTable} (ht : ∀ x, t'.get? x = t.get? x)
    {ns ns' : List Node} (h : Node.Shuffled ns ns') {cs : List Case}
    (hcs : compileNodes t ns = .ok cs) : ∃ cs', compileNodes t' ns' = .ok cs' := by
  refine compileNodes_of_compile fun q scrutinee arms hn' => ?_
  obtain ⟨n, hn, hnn'⟩ := h.exists_mem hn'
  have hcompile : ∀ {arms₀}, Node.ReorderedAll arms₀ arms → (∃ c, compile t arms₀ = .ok c) →
      ∃ c, compile t' arms = .ok c := by
    rintro arms₀ harms ⟨c, hc⟩
    have hconcur := compile_reordered ht harms
    rw [hc] at hconcur
    cases hc' : compile t' arms with
    | ok c' => exact ⟨c', rfl⟩
    | error f =>
      rw [hc'] at hconcur
      exact hconcur.elim
  cases hnn' with
  | refl =>
    obtain ⟨c, -, hc⟩ := mem_of_compileNodes hcs hn
    exact hcompile (.refl _) ⟨c, hc⟩
  | caseOf _ harms =>
    obtain ⟨c, -, hc⟩ := mem_of_compileNodes hcs hn
    exact hcompile harms ⟨c, hc⟩

end Case

namespace Node

theorem Shuffled.filter {p : Node → Bool} (hp : ∀ n n', Reordered n n' → p n' = p n)
    {ns ns' : List Node} (h : Shuffled ns ns') : Shuffled (ns.filter p) (ns'.filter p) := by
  obtain ⟨ms, hms, hperm⟩ := h
  refine ⟨ms.filter p, reorderedAll_iff.2 ?_, hperm.filter p⟩
  refine List.rel_filter (fun n n' hn => ?_) (reorderedAll_iff.1 hms)
  dsimp only
  rw [hp n n' hn]

theorem Shuffled.functionsOf {ds ds' : List Node} (h : Shuffled ds ds') :
    Shuffled (functionsOf ds) (Node.functionsOf ds') :=
  h.filter fun n n' hn => by cases hn <;> rfl

theorem Shuffled.preorderAll {ns ns' : List Node} (h : Shuffled ns ns') :
    Shuffled (preorderAll ns) (Node.preorderAll ns') := by
  obtain ⟨ms, hms, hperm⟩ := h
  exact hms.preorderAll.trans_perm (preorderAll_perm hperm)

theorem flatMap_walk_functionsOf (ds : List Node) :
    (functionsOf ds).flatMap walk = preorderAll (functionsOf ds) := by
  rw [preorderAll_eq_flatMap]
  refine List.flatMap_congr fun d hd => walk_eq_preorder ?_
  have hfunction := (List.mem_filter.1 hd).2
  cases d with
  | funDecl => rfl
  | _ => cases hfunction

theorem walk?_eq {n : Node} (h : n.isNode = true) : n.walk? = .ok n.preorder := by
  rw [← walk_eq_preorder h]
  cases n with
  | atom a => cases h
  | _ => rfl

/-- **All cases of a program compile in whatever order it is.** -/
theorem Shuffled.compileCases {t t' : ConstructorTable} (ht : ∀ x, t'.get? x = t.get? x)
    {p : Option Position} {ds ds' : List Node} {body body' : Node} (hds : Shuffled ds ds')
    (hbody : Reordered body body') (hnode : body.isNode = true) {cs : List Case}
    (h : (program p ds body).compileCases t = .ok cs) :
    ∃ cs', (program p ds' body').compileCases t' = .ok cs' := by
  obtain ⟨first, hfirst, h⟩ := bind_eq_ok h
  rw [walk?_eq hnode] at h
  obtain ⟨_, ⟨⟩, h⟩ := bind_eq_ok h
  obtain ⟨second, hsecond, -⟩ := bind_eq_ok h
  rw [flatMap_walk_functionsOf] at hfirst
  obtain ⟨first', hfirst'⟩ := Case.compileNodes_shuffled ht hds.functionsOf.preorderAll hfirst
  obtain ⟨second', hsecond'⟩ := Case.compileNodes_shuffled ht hbody.preorder hsecond
  refine ⟨first' ++ second', ?_⟩
  show (Case.compileNodes t' ((Node.functionsOf ds').flatMap walk) >>= _) = _
  rw [flatMap_walk_functionsOf, hfirst']
  show (body'.walk? >>= _) = _
  rw [walk?_eq (hbody.isNode_eq.trans hnode)]
  show (Case.compileNodes t' body'.preorder >>= _) = _
  rw [hsecond']
  rfl

/-! ## Foreign functions -/

/-- The name of a foreign function with the number of its parameters. -/
def extern? : Node → Option (Name × Nat)
  | externDecl _ name _ paramTypes _ => some (name, paramTypes.length)
  | _ => none

theorem Reordered.extern?_eq {n n' : Node} (h : Reordered n n') : n'.extern? = n.extern? := by
  cases h <;> rfl

theorem name?_of_extern? {n : Node} {e : Name × Nat} (h : n.extern? = some e) :
    n.name? = some e.1 := by
  cases n with
  | externDecl p name tps pts r =>
    obtain rfl := Option.some.inj h
    rfl
  | _ => cases h

theorem put_of_new {name : Name} {arity : Nat} {found : List (Name × Nat)}
    (h : ∀ e ∈ found, e.1.same name = false) :
    externsOf.put name arity found = found ++ [(name, arity)] := by
  induction found with
  | nil => rfl
  | cons e found ih =>
    obtain ⟨he, hrest⟩ := List.forall_mem_cons.1 h
    rw [externsOf.put, he, ih hrest]
    rfl

/-- What is declared in a scope without clashes has distinct names. -/
theorem IsClear.distinct_filterMap {α : Type} {f : Node → Option α} {name : α → Name}
    (hf : ∀ d a, f d = some a → d.name? = some (name a)) {t : ConstructorTable} {ds : List Node}
    (h : IsClear t ds) : Name.Distinct ((ds.filterMap f).map name) := by
  unfold Name.Distinct
  rw [List.pairwise_map, List.pairwise_filterMap]
  refine (List.pairwise_map.1 h.apart).imp fun {d e} hde a ha b hb => ?_
  exact hde _ _ (hf d a ha) (hf e b hb)

/-- **The foreign functions of a scope without clashes** are those that it
declares. -/
theorem externsOf_of_isClear {t : ConstructorTable} {ds : List Node} (h : IsClear t ds) :
    externsOf ds = .ok (ds.filterMap extern?) := by
  have hdistinct : Name.Distinct (([] ++ ds.filterMap extern?).map Prod.fst) :=
    h.distinct_filterMap fun _ _ => name?_of_extern?
  have hnamed := h.named
  unfold externsOf
  rw [← List.nil_append (ds.filterMap extern?)]
  clear h
  generalize ([] : List (Name × Nat)) = found at hdistinct ⊢
  -- The induction is over what is still to come; `found` holds the rest.
  induction ds generalizing found with
  | nil => exact congrArg Except.ok (List.append_nil _).symm
  | cons d ds ih =>
    rw [List.map_cons, List.forall_mem_cons] at hnamed
    rw [List.foldlM_cons]
    cases d with
    | externDecl p name tps pts r =>
      obtain ⟨⟨_, ⟨⟩, hcheck, -⟩, hnamed⟩ := hnamed
      have hcons : (externDecl p name tps pts r :: ds).filterMap extern?
          = (name, pts.length) :: ds.filterMap extern? := rfl
      rw [hcons] at hdistinct ⊢
      have hnew : ∀ e ∈ found, e.1.same name = false := by
        rw [List.map_append, Name.Distinct.append_iff] at hdistinct
        exact fun e he => hdistinct.2.2 e.1 (List.mem_map_of_mem he) name (by simp)
      dsimp only
      rw [hcheck]
      show ds.foldlM _ (externsOf.put name pts.length found) = _
      rw [put_of_new hnew]
      have happend : found ++ (name, pts.length) :: ds.filterMap extern?
          = (found ++ [(name, pts.length)]) ++ ds.filterMap extern? := by simp
      rw [happend] at hdistinct ⊢
      exact ih hnamed _ hdistinct
    | _ => exact ih hnamed.2 found hdistinct

/-- **Foreign functions are found whatever the order.** -/
theorem Shuffled.find?_externs {t : ConstructorTable} {ds ds' : List Node} (h : Shuffled ds ds')
    (hclear : IsClear t ds) (x : Name) :
    (ds'.filterMap extern?).find? (·.1.same x) = (ds.filterMap extern?).find? (·.1.same x) := by
  have hdistinct : Name.Distinct ((ds.filterMap extern?).map Prod.fst) :=
    hclear.distinct_filterMap fun _ _ => name?_of_extern?
  exact (hdistinct.find?_eq Prod.fst (h.filterMap_perm fun _ _ hn => hn.extern?_eq) x).symm

/-! ## Functions -/

/-- The function that a node declares, with the parameters it names. -/
def function? : Node → Option Function
  | funDecl _ name _ params body _ => some ⟨name, params.filterMap name?, body⟩
  | _ => none

theorem name?_of_function? {n : Node} {f : Function} (h : n.function? = some f) :
    n.name? = some f.name := by
  cases n with
  | funDecl p name tps params body r =>
    obtain rfl := Option.some.inj h
    rfl
  | _ => cases h

/-- The parameters of a declaration, if they all have names. -/
def hasParams : Node → Prop
  | funDecl _ _ _ params _ _ => ∃ names, paramNames params = .ok names
  | _ => True

/-- **Declarations give their functions** exactly if all parameters have
names. -/
theorem declaredFunctions_eq_ok_iff {ds : List Node} {fs : List Function} :
    declaredFunctions ds = (fs, .ok ()) ↔
      (∀ d ∈ ds, d.hasParams) ∧ fs = ds.filterMap function? := by
  induction ds generalizing fs with
  | nil =>
    constructor
    · intro h
      exact ⟨List.forall_mem_nil _, (Prod.mk.inj h).1.symm⟩
    · rintro ⟨-, rfl⟩
      rfl
  | cons d ds ih =>
    rw [List.forall_mem_cons]
    cases d with
    | funDecl p name tps params body r =>
      have hcons : (funDecl p name tps params body r :: ds).filterMap function?
          = ⟨name, params.filterMap name?, body⟩ :: ds.filterMap function? := rfl
      rw [declaredFunctions, hcons]
      constructor
      · intro h
        cases hnames : paramNames params with
        | error f =>
          rw [hnames] at h
          cases h
        | ok names =>
          rw [hnames] at h
          obtain ⟨rfl, hok⟩ := Prod.mk.inj h
          obtain ⟨hds, hfs⟩ := ih.1 (Prod.ext rfl hok)
          refine ⟨⟨⟨names, hnames⟩, hds⟩, ?_⟩
          rw [paramNames_eq_filterMap hnames]
          exact congrArg _ hfs
      · rintro ⟨⟨⟨names, hnames⟩, hds⟩, rfl⟩
        rw [hnames, ih.2 ⟨hds, rfl⟩, paramNames_eq_filterMap hnames]
    | _ => exact ih.trans ⟨fun h => ⟨⟨trivial, h.1⟩, h.2⟩, fun h => ⟨h.1.2, h.2⟩⟩

theorem Shuffled.hasParams {ds ds' : List Node} (h : Shuffled ds ds')
    (hds : ∀ d ∈ ds, d.hasParams) : ∀ d ∈ ds', Node.hasParams d := by
  intro d' hd'
  obtain ⟨d, hd, hdd'⟩ := h.exists_mem hd'
  have hparams := hds d hd
  cases hdd' with
  | refl => exact hparams
  | funDecl => exact hparams
  | _ => trivial

end Node

end EmberLang
