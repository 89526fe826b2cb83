import EmberLang.Proofs.Resolution

/-!
# What the check of declarations looks at

Whether the declarations of a program clash, and which constructors it
has, shows in the names of its declarations and in the constructors of
its data types. The bodies of functions do not matter beyond the blocks
in them, and positions matter only to the messages. `Node.outline` keeps
just this of a declaration, and `Node.outlines` of a program.

Two programs with equal outlines pass or fail the check together and have
the same constructors (`Node.checkDeclarations_of_outlines`). Forgetting
positions, forgetting which names are constructors and finding that out
again all keep the outlines, so the programs made in these ways from one
that passes the check pass it too.
-/

namespace EmberLang

namespace Node

/-! ## The walk is the preorder -/

theorem preorder_of_not_isNode {n : Node} (h : n.isNode = false) : n.preorder = [] := by
  cases n with
  | atom a => rfl
  | typeSpec t => rfl
  | _ => cases h

theorem preorderAll_append (ns ms : List Node) :
    preorderAll (ns ++ ms) = preorderAll ns ++ preorderAll ms := by
  induction ns with
  | nil => rfl
  | cons n ns ih => rw [List.cons_append, preorderAll, preorderAll, ih, List.append_assoc]

theorem preorderAll_eq_flatMap (ns : List Node) : preorderAll ns = ns.flatMap preorder := by
  induction ns with
  | nil => rfl
  | cons n ns ih => rw [preorderAll, ih, List.flatMap_cons]

theorem preorderAll_nodesOf (ns : List Node) : preorderAll (nodesOf ns) = preorderAll ns := by
  unfold nodesOf
  induction ns with
  | nil => rfl
  | cons n ns ih =>
    rw [List.filter_cons]
    split
    · rw [preorderAll, preorderAll, ih]
    · next hn =>
      rw [preorderAll, preorder_of_not_isNode (by simpa using hn), ih]
      rfl

theorem preorder_eq {n : Node} (h : n.isNode = true) :
    n.preorder = n :: preorderAll n.children := by
  cases n with
  | atom a => cases h
  | typeSpec t => cases h
  | _ => simp [preorder, children, preorderAll_append, preorderAll_nodesOf, preorderAll]

theorem isNode_of_mem_children {n m : Node} (h : m ∈ n.children) : m.isNode = true := by
  have hnodes : ∀ ns : List Node, m ∈ nodesOf ns → m.isNode = true :=
    fun ns hm => (List.mem_filter.1 hm).2
  cases n <;> simp only [children, List.mem_append, List.not_mem_nil] at h <;> grind

theorem walkLoop_eq (seen stack : List Node) (h : ∀ n ∈ stack, n.isNode = true) :
    walkLoop seen stack = seen.reverse ++ preorderAll stack := by
  induction seen, stack using walkLoop.induct with
  | case1 seen => rw [walkLoop, preorderAll, List.append_nil]
  | case2 seen n rest ih =>
    obtain ⟨hn, hrest⟩ := List.forall_mem_cons.1 h
    rw [walkLoop, ih, preorderAll, preorder_eq hn, preorderAll_append, List.reverse_cons]
    · simp
    · exact List.forall_mem_append.2 ⟨fun m hm => isNode_of_mem_children hm, hrest⟩

/-- **The walk of a tree visits its nodes in preorder.** -/
theorem walk_eq_preorder {n : Node} (h : n.isNode = true) : n.walk = n.preorder := by
  unfold walk
  rw [walkLoop_eq [] [n] (by simpa using h), preorderAll, preorderAll, List.append_nil]
  rfl

/-! ## Outlines -/

/-- **What the check looks at in a declaration**: its kind, its name and,
for a data type, its constructors. -/
def outline : Node → Node
  | funDecl _ name .. => funDecl none name [] [] absent absent
  | d => d.erase

/-- The outlines of the declarations of a block. -/
def blockOutline? : Node → Option (List Node)
  | block _ ds _ => some (ds.map outline)
  | _ => none

/-- The outlines of the blocks among some nodes. -/
abbrev blockOutlines (ns : List Node) : List (List Node) := ns.filterMap blockOutline?

/-- **What the check looks at in a program.** -/
def outlines (root : Node) (ds : List Node) : List (List Node) :=
  ds.map outline :: blockOutlines root.preorder

theorem map_outline_scopes {root : Node} (h : root.isNode = true) (ds : List Node) :
    (root.scopes ds).map (List.map outline) = root.outlines ds := by
  unfold scopes outlines blockOutlines
  rw [List.map_cons, List.map_filterMap, walk_eq_preorder h]
  congr 1
  refine congrArg (fun f => List.filterMap f _) (funext fun n => ?_)
  cases n <;> rfl

theorem name?_outline (d : Node) : d.outline.name? = d.name? := by cases d <;> rfl

theorem isDataDecl_outline (d : Node) : d.outline.isDataDecl = d.isDataDecl := by cases d <;> rfl

theorem outline_erase (d : Node) : d.erase.outline = d.outline := by
  cases d with
  | funDecl p name tps ps b r => rfl
  | _ => exact erase_erase _

end Node

/-! ## The check -/

theorem toOption_bind {α β ε : Type} (x : Except ε α) (f : α → Except ε β) :
    (x >>= f).toOption = x.toOption.bind fun a => (f a).toOption := by
  cases x <;> rfl

namespace ConstructorTable

open Node (outline)

theorem newConstructors_erase (t : ConstructorTable) (typeName : Name) (done : List Constructor)
    (cs : List Node) :
    (t.newConstructors typeName done (cs.map Node.erase)).toOption
      = (t.newConstructors typeName done cs).toOption := by
  induction cs generalizing done with
  | nil => rfl
  | cons c cs ih =>
    rw [List.map_cons, newConstructors, newConstructors, Node.name?_erase, Node.arity?_erase]
    cases c.name? with
    | none => rfl
    | some name =>
      dsimp only
      rw [toOption_bind, toOption_bind]
      congr 1
      funext _
      split
      · rfl
      · cases c.arity? with
        | none => rfl
        | some arity => exact ih _

theorem declareAll_outline (t : ConstructorTable) (ds : List Node) :
    (t.declareAll (ds.map outline)).toOption = (t.declareAll ds).toOption := by
  induction ds generalizing t with
  | nil => rfl
  | cons d ds ih =>
    rw [List.map_cons]
    cases d with
    | dataDecl p name tps cs =>
      show (t.declareAll
        (Node.dataDecl none name tps (Node.eraseAll cs) :: ds.map outline)).toOption
        = _
      have hdeclare : (t.declare none name (Node.eraseAll cs)).toOption
          = (t.declare p name cs).toOption := by
        unfold declare
        rw [toOption_bind, toOption_bind]
        congr 1
        funext _
        split
        · rfl
        · rw [toOption_bind, toOption_bind, Node.eraseAll_eq_map, newConstructors_erase]
      rw [declareAll, declareAll, toOption_bind, toOption_bind, hdeclare]
      congr 1
      funext t'
      exact ih t'
    | _ => exact ih t

end ConstructorTable

namespace Node

theorem checkScope_outline (t : ConstructorTable) (seen : List Name) (ds : List Node) :
    (checkScope t seen (ds.map outline)).toOption = (checkScope t seen ds).toOption := by
  induction ds generalizing seen with
  | nil => rfl
  | cons d ds ih =>
    rw [List.map_cons, checkScope, checkScope, name?_outline, isDataDecl_outline]
    cases d.name? with
    | none => rfl
    | some name =>
      dsimp only
      rw [toOption_bind, toOption_bind]
      congr 1
      funext _
      split
      · rfl
      · exact ih _

/-- The check of a list of scopes. -/
def checkScopes (scopes : List (List Node)) : Except Failure ConstructorTable := do
  let table ← ConstructorTable.empty.declareAll scopes.flatten
  scopes.forM (checkScope table [])
  return table

theorem checkScopes_outline (scopes : List (List Node)) :
    (checkScopes (scopes.map (List.map outline))).toOption = (checkScopes scopes).toOption := by
  unfold checkScopes
  rw [toOption_bind, toOption_bind, ← List.map_flatten, ConstructorTable.declareAll_outline]
  congr 1
  funext table
  rw [toOption_bind, toOption_bind]
  congr 1
  induction scopes with
  | nil => rfl
  | cons ds scopes ih =>
    show (do checkScope table [] (ds.map outline)
             (scopes.map (List.map outline)).forM (checkScope table []) : Except _ _).toOption
      = (do checkScope table [] ds; scopes.forM (checkScope table []) : Except _ _).toOption
    rw [toOption_bind, toOption_bind, checkScope_outline, ih]

/-- **Programs with equal outlines pass the check together**, with the
same constructors. -/
theorem checkDeclarations_of_outlines {p q : Option Position} {ds es : List Node} {b c : Node}
    {t : ConstructorTable}
    (h : (program p ds b).outlines ds = (program q es c).outlines es)
    (ht : (program p ds b).checkDeclarations = .ok t) :
    (program q es c).checkDeclarations = .ok t := by
  have hcheck : ((program q es c).checkDeclarations).toOption
      = ((program p ds b).checkDeclarations).toOption := by
    show (checkScopes ((program q es c).scopes es)).toOption
      = (checkScopes ((program p ds b).scopes ds)).toOption
    rw [← checkScopes_outline, ← checkScopes_outline ((program p ds b).scopes ds),
      map_outline_scopes rfl, map_outline_scopes rfl, h]
  rw [ht] at hcheck
  cases hq : (program q es c).checkDeclarations with
  | error e =>
    rw [hq] at hcheck
    cases hcheck
  | ok t' =>
    rw [hq] at hcheck
    exact congrArg Except.ok (Option.some.inj hcheck)

/-! ## What keeps the outlines -/

theorem map_outline_eraseAll (ds : List Node) : (eraseAll ds).map outline = ds.map outline := by
  rw [eraseAll_eq_map, List.map_map]
  exact List.map_congr_left fun d _ => outline_erase d

mutual

theorem blockOutlines_erase (n : Node) :
    blockOutlines n.erase.preorder = blockOutlines n.preorder := by
  cases n <;> simp only [erase, preorder, List.filterMap_cons, List.filterMap_append,
    List.filterMap_nil, blockOutline?, map_outline_eraseAll, blockOutlines_erase,
    blockOutlines_eraseAll]

theorem blockOutlines_eraseAll (ns : List Node) :
    blockOutlines (preorderAll (eraseAll ns)) = blockOutlines (preorderAll ns) := by
  cases ns <;> simp only [eraseAll, preorderAll, List.filterMap_append, blockOutlines_erase,
    blockOutlines_eraseAll]

end

mutual

theorem blockOutlines_unresolvedPattern (n : Node) :
    blockOutlines n.unresolvedPattern.preorder = blockOutlines n.preorder := by
  cases n with
  | patternLit p v =>
    rw [unresolvedPattern]
    split <;> rfl
  | patternCtor p c args =>
    simp only [unresolvedPattern, preorder, List.filterMap_cons, blockOutline?,
      blockOutlines_unresolvedPatterns args]
  | _ => rfl

theorem blockOutlines_unresolvedPatterns (ns : List Node) :
    blockOutlines (preorderAll (unresolvedPatterns ns)) = blockOutlines (preorderAll ns) := by
  cases ns with
  | nil => rfl
  | cons n ns =>
    simp only [unresolvedPatterns, preorderAll, List.filterMap_append,
      blockOutlines_unresolvedPattern n, blockOutlines_unresolvedPatterns ns]

end

theorem outline_unresolvedDeclaration (d : Node) : d.unresolvedDeclaration.outline = d.outline := by
  cases d <;> rfl

theorem map_outline_unresolvedDeclarations (ds : List Node) :
    (unresolvedDeclarations ds).map outline = ds.map outline := by
  rw [unresolvedDeclarations_eq_map, List.map_map]
  exact List.map_congr_left fun d _ => outline_unresolvedDeclaration d

mutual

theorem blockOutlines_unresolved (n : Node) :
    blockOutlines n.unresolved.preorder = blockOutlines n.preorder := by
  cases n with
  | literal p v =>
    rw [unresolved]
    split <;> rfl
  | construct p c args =>
    rw [unresolved]
    cases args with
    | nil => rfl
    | cons n ns =>
      rw [if_neg (by simp)]
      simp only [preorder, List.filterMap_cons, List.filterMap_append, List.filterMap_nil,
        blockOutline?, List.nil_append, blockOutlines_unresolvedAll (n :: ns)]
  | call p callee args =>
    simp only [unresolved, preorder, List.filterMap_cons, List.filterMap_append, blockOutline?,
      blockOutlines_unresolved callee, blockOutlines_unresolvedAll args]
  | intrinsicCall p op args =>
    simp only [unresolved, preorder, List.filterMap_cons, blockOutline?,
      blockOutlines_unresolvedAll args]
  | directiveCall p name args =>
    simp only [unresolved, preorder, List.filterMap_cons, blockOutline?,
      blockOutlines_unresolvedAll args]
  | caseOf p scrutinee arms =>
    simp only [unresolved, preorder, List.filterMap_cons, List.filterMap_append, blockOutline?,
      blockOutlines_unresolved scrutinee, blockOutlines_unresolvedArms arms]
  | letIn p name value body t =>
    simp only [unresolved, preorder, List.filterMap_cons, List.filterMap_append, blockOutline?,
      blockOutlines_unresolved value, blockOutlines_unresolved body]
  | seq p first rest =>
    simp only [unresolved, preorder, List.filterMap_cons, List.filterMap_append, blockOutline?,
      blockOutlines_unresolved first, blockOutlines_unresolved rest]
  | lambda p params body =>
    simp only [unresolved, preorder, List.filterMap_cons, blockOutline?,
      blockOutlines_unresolved body]
  | block p ds body =>
    simp only [unresolved, preorder, List.filterMap_cons, List.filterMap_append, blockOutline?,
      map_outline_unresolvedDeclarations, blockOutlines_unresolvedDeclarations ds,
      blockOutlines_unresolved body]
  | _ => rfl

theorem blockOutlines_unresolvedAll (ns : List Node) :
    blockOutlines (preorderAll (unresolvedAll ns)) = blockOutlines (preorderAll ns) := by
  cases ns with
  | nil => rfl
  | cons n ns =>
    simp only [unresolvedAll, preorderAll, List.filterMap_append, blockOutlines_unresolved n,
      blockOutlines_unresolvedAll ns]

theorem blockOutlines_unresolvedArms (ns : List Node) :
    blockOutlines (preorderAll (unresolvedArms ns)) = blockOutlines (preorderAll ns) := by
  cases ns with
  | nil => rfl
  | cons n ns =>
    simp only [unresolvedArms, preorderAll, List.filterMap_append, blockOutlines_unresolvedArms ns]
    cases n with
    | arm p pattern body =>
      simp only [unresolvedArm, preorder, List.filterMap_cons, List.filterMap_append, blockOutline?,
        blockOutlines_unresolvedPattern pattern, blockOutlines_unresolved body]
    | _ => rfl

theorem blockOutlines_unresolvedDeclarations (ns : List Node) :
    blockOutlines (preorderAll (unresolvedDeclarations ns)) = blockOutlines (preorderAll ns) := by
  cases ns with
  | nil => rfl
  | cons n ns =>
    simp only [unresolvedDeclarations, preorderAll, List.filterMap_append,
      blockOutlines_unresolvedDeclarations ns]
    cases n with
    | funDecl p name tps params body returnType =>
      simp only [unresolvedDeclaration, preorder, List.filterMap_cons, List.filterMap_append,
        blockOutline?, blockOutlines_unresolved body]
    | _ => rfl

end

theorem map_outline_resolvedDeclarations (t : ConstructorTable) (ds : List Node) :
    (resolvedDeclarations t ds).map outline = ds.map outline := by
  induction ds with
  | nil => rfl
  | cons d ds ih =>
    rw [resolvedDeclarations, List.map_cons, List.map_cons, ih]
    cases d <;> rfl

mutual

theorem blockOutlines_resolved (t : ConstructorTable) (n : Node) :
    blockOutlines (resolved t n).preorder = blockOutlines n.preorder := by
  cases n with
  | var p name =>
    rw [resolved]
    split <;> rfl
  | call p callee args =>
    cases hvar : callee.isVar with
    | false =>
      rw [resolved_call hvar]
      simp only [preorder, List.filterMap_cons, List.filterMap_append, blockOutline?,
        blockOutlines_resolved t callee, blockOutlines_resolvedAll t args]
    | true =>
      cases callee with
      | var q name =>
        rw [resolved]
        split <;> simp only [preorder, List.filterMap_cons, List.filterMap_append,
          List.filterMap_nil, List.nil_append, blockOutline?, blockOutlines_resolvedAll t args]
      | _ => cases hvar
  | construct p c args =>
    simp only [resolved, preorder, List.filterMap_cons, blockOutline?,
      blockOutlines_resolvedAll t args]
  | intrinsicCall p op args =>
    simp only [resolved, preorder, List.filterMap_cons, blockOutline?,
      blockOutlines_resolvedAll t args]
  | directiveCall p name args =>
    simp only [resolved, preorder, List.filterMap_cons, blockOutline?,
      blockOutlines_resolvedAll t args]
  | caseOf p scrutinee arms =>
    simp only [resolved, preorder, List.filterMap_cons, List.filterMap_append, blockOutline?,
      blockOutlines_resolved t scrutinee, blockOutlines_resolvedArms t arms]
  | letIn p name value body valueType =>
    simp only [resolved, preorder, List.filterMap_cons, List.filterMap_append, blockOutline?,
      blockOutlines_resolved t value, blockOutlines_resolved t body]
  | seq p first rest =>
    simp only [resolved, preorder, List.filterMap_cons, List.filterMap_append, blockOutline?,
      blockOutlines_resolved t first, blockOutlines_resolved t rest]
  | lambda p params body =>
    simp only [resolved, preorder, List.filterMap_cons, blockOutline?,
      blockOutlines_resolved t body]
  | block p ds body =>
    simp only [resolved, preorder, List.filterMap_cons, List.filterMap_append, blockOutline?,
      map_outline_resolvedDeclarations, blockOutlines_resolvedDeclarations t ds,
      blockOutlines_resolved t body]
  | _ => rfl

theorem blockOutlines_resolvedAll (t : ConstructorTable) (ns : List Node) :
    blockOutlines (preorderAll (resolvedAll t ns)) = blockOutlines (preorderAll ns) := by
  cases ns with
  | nil => rfl
  | cons n ns =>
    simp only [resolvedAll, preorderAll, List.filterMap_append, blockOutlines_resolved t n,
      blockOutlines_resolvedAll t ns]

theorem blockOutlines_resolvedArms (t : ConstructorTable) (ns : List Node) :
    blockOutlines (preorderAll (resolvedArms t ns)) = blockOutlines (preorderAll ns) := by
  cases ns with
  | nil => rfl
  | cons n ns =>
    simp only [resolvedArms, preorderAll, List.filterMap_append, blockOutlines_resolvedArms t ns]
    cases n with
    | arm p pattern body =>
      simp only [resolvedArm, preorder, List.filterMap_cons, List.filterMap_append, blockOutline?,
        blockOutlines_resolved t body]
    | _ => rfl

theorem blockOutlines_resolvedDeclarations (t : ConstructorTable) (ns : List Node) :
    blockOutlines (preorderAll (resolvedDeclarations t ns)) = blockOutlines (preorderAll ns) := by
  cases ns with
  | nil => rfl
  | cons n ns =>
    simp only [resolvedDeclarations, preorderAll, List.filterMap_append,
      blockOutlines_resolvedDeclarations t ns]
    cases n with
    | funDecl p name tps params body returnType =>
      simp only [resolvedDeclaration, preorder, List.filterMap_cons, List.filterMap_append,
        blockOutline?, blockOutlines_resolved t body]
    | _ => rfl

end

/-! ## Programs that pass the check together -/

variable {V : Vocabulary} {t : ConstructorTable}

theorem outlines_program (p : Option Position) (ds : List Node) (b : Node) :
    (program p ds b).outlines ds
      = ds.map outline :: (blockOutlines (preorderAll ds) ++ blockOutlines b.preorder) := by
  rw [outlines, preorder, blockOutlines, List.filterMap_cons, List.filterMap_append]
  rfl

/-- **Alike programs pass the check together.** -/
theorem checkDeclarations_of_alike {root q : Node} (h : root.isProgram V = true)
    (hq : root.Alike q) (ht : root.checkDeclarations = .ok t) : q.checkDeclarations = .ok t := by
  cases root with
  | program p ds b =>
    cases q with
    | program p' es c =>
      obtain ⟨-, hes, hc⟩ := program.inj hq
      refine checkDeclarations_of_outlines ?_ ht
      rw [outlines_program, outlines_program, ← map_outline_eraseAll ds, ← map_outline_eraseAll es,
        ← blockOutlines_eraseAll ds, ← blockOutlines_eraseAll es, ← blockOutlines_erase b,
        ← blockOutlines_erase c, hes, hc]
    | _ => cases hq
  | _ => cases h

/-- **A program and the program that its text says pass the check
together.** -/
theorem checkDeclarations_unresolvedProgram {root : Node} (h : root.isProgram V = true)
    (ht : root.checkDeclarations = .ok t) : root.unresolvedProgram.checkDeclarations = .ok t := by
  cases root with
  | program p ds b =>
    refine checkDeclarations_of_outlines ?_ ht
    rw [outlines_program, outlines_program, map_outline_unresolvedDeclarations,
      blockOutlines_unresolvedDeclarations, blockOutlines_unresolved]
  | _ => cases h

/-- **A program passes the check before and after its names are
resolved.** -/
theorem checkDeclarations_resolvedProgram {root : Node} (h : root.isProgram V = true)
    (ht : root.checkDeclarations = .ok t) : (root.resolvedProgram t).checkDeclarations = .ok t := by
  cases root with
  | program p ds b =>
    refine checkDeclarations_of_outlines ?_ ht
    rw [outlines_program, outlines_program, map_outline_resolvedDeclarations,
      blockOutlines_resolvedDeclarations, blockOutlines_resolved]
  | _ => cases h

end Node

end EmberLang
