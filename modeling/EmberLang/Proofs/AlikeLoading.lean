import EmberLang.Proofs.AlikeRuns

/-!
# Loading and running programs that differ in positions only

Loading a program checks it in several ways before anything runs, and a
check that fails names the position of the node at fault. Up to that, the
checks come to the same for programs that are alike: they look at the
nodes of a tree in the order of the walk, and the walk goes the same way
through trees that are alike.

Together with what evaluation does this gives the main result
(`Session.run_matches`): programs that are alike, run on interpreters that
are alike, leave interpreters that are alike and come to values that are
alike or to the same failure, apart from its position.
-/

namespace EmberLang

/-! ## The walk -/

namespace Node

theorem isNode_erase (n : Node) : n.erase.isNode = n.isNode := by cases n <;> rfl

theorem nodesOf_eraseAll (ns : List Node) : nodesOf (eraseAll ns) = eraseAll (nodesOf ns) := by
  unfold nodesOf
  rw [eraseAll_eq_map, eraseAll_eq_map, List.filter_map]
  exact congrArg (fun p => (ns.filter p).map erase) (funext isNode_erase)

theorem eraseAll_append (ns ms : List Node) : eraseAll (ns ++ ms) = eraseAll ns ++ eraseAll ms := by
  rw [eraseAll_eq_map, eraseAll_eq_map, eraseAll_eq_map, List.map_append]

theorem children_erase (n : Node) : n.erase.children = eraseAll n.children := by
  cases n <;> simp only [erase, children, eraseAll_append, ← nodesOf_eraseAll, eraseAll]

theorem walkLoop_eraseAll (seen stack : List Node) :
    walkLoop (eraseAll seen) (eraseAll stack) = eraseAll (walkLoop seen stack) := by
  induction seen, stack using walkLoop.induct with
  | case1 seen =>
    rw [eraseAll, walkLoop, walkLoop, eraseAll_eq_map, eraseAll_eq_map, List.map_reverse]
  | case2 seen n rest ih =>
    rw [eraseAll_append, eraseAll, ← children_erase] at ih
    rw [eraseAll, walkLoop, walkLoop, ih]

/-- **The walk goes the same way** through trees that are alike. -/
theorem walk_erase (n : Node) : n.erase.walk = eraseAll n.walk := walkLoop_eraseAll [] [n]

theorem walk?_erase (n : Node) : n.erase.walk? = eraseOutcome eraseAll n.walk? := by
  cases n with
  | atom a => rfl
  | _ => exact congrArg Except.ok (walk_erase _)

theorem scope?_erase (n : Node) :
    n.erase.scope? = n.scope?.map fun s => (eraseAll s.1, s.2.erase) := by cases n <;> rfl

theorem isDataDecl_erase (n : Node) : n.erase.isDataDecl = n.isDataDecl := by cases n <;> rfl

theorem position?_erase (n : Node) : n.erase.position? = none := by cases n <;> rfl

/-! ## Declarations -/

theorem scopes_erase (root : Node) (ds : List Node) :
    root.erase.scopes (eraseAll ds) = (root.scopes ds).map eraseAll := by
  unfold scopes
  rw [walk_erase, eraseAll_eq_map root.walk, List.filterMap_map, List.map_cons, List.map_filterMap]
  congr 1
  refine congrArg (fun f => List.filterMap f root.walk) (funext fun n => ?_)
  cases n <;> rfl

theorem checkScope_eraseAll (t : ConstructorTable) (seen : List Name) (ds : List Node) :
    checkScope t seen (eraseAll ds) = eraseOutcome id (checkScope t seen ds) := by
  induction ds generalizing seen with
  | nil => rfl
  | cons d ds ih =>
    rw [eraseAll, checkScope, checkScope, name?_erase, isDataDecl_erase, position?_erase]
    cases d.name? with
    | none => rfl
    | some name =>
      dsimp only
      unfold Name.check
      split
      · show (if seen.any (·.same name) || (!d.isDataDecl && t.contains name) then _ else _)
          = eraseOutcome id
            (if seen.any (·.same name) || (!d.isDataDecl && t.contains name) then _ else _)
        split
        · rfl
        · exact ih (name :: seen)
      · rfl

end Node

namespace ConstructorTable

theorem newConstructors_eraseAll (t : ConstructorTable) (typeName : Name)
    (done : List Constructor) (cs : List Node) :
    t.newConstructors typeName done (Node.eraseAll cs)
      = eraseOutcome id (t.newConstructors typeName done cs) := by
  induction cs generalizing done with
  | nil => rfl
  | cons c cs ih =>
    rw [Node.eraseAll, newConstructors, newConstructors, Node.name?_erase, Node.arity?_erase,
      Node.position?_erase]
    cases c.name? with
    | none => rfl
    | some name =>
      dsimp only
      unfold Name.check
      split
      · show (if t.contains name || done.any (·.name.same name) then _ else _)
          = eraseOutcome id (if t.contains name || done.any (·.name.same name) then _ else _)
        split
        · rfl
        · cases c.arity? with
          | none => rfl
          | some arity => exact ih (done ++ [⟨name, typeName, arity⟩])
      · rfl

theorem declare_eraseAll (t : ConstructorTable) (p : Option Position) (typeName : Name)
    (cs : List Node) :
    t.declare none typeName (Node.eraseAll cs) = eraseOutcome id (t.declare p typeName cs) := by
  unfold declare Name.check
  split
  · show (if t.typeNames.any (·.same typeName) then _ else _)
      = eraseOutcome id (if t.typeNames.any (·.same typeName) then _ else _)
    split
    · rfl
    · rw [newConstructors_eraseAll]
      cases t.newConstructors typeName [] cs <;> rfl
  · rfl

theorem declareAll_eraseAll (t : ConstructorTable) (ds : List Node) :
    t.declareAll (Node.eraseAll ds) = eraseOutcome id (t.declareAll ds) := by
  induction ds generalizing t with
  | nil => rfl
  | cons d ds ih =>
    rw [Node.eraseAll]
    cases d with
    | dataDecl p name tps cs =>
      rw [Node.erase, declareAll, declareAll, t.declare_eraseAll p]
      cases t.declare p name cs with
      | error f => rfl
      | ok t' => exact ih t'
    | _ => exact ih t

end ConstructorTable

namespace Node

theorem forM_checkScope_eraseAll (t : ConstructorTable) (scopes : List (List Node)) :
    (scopes.map eraseAll).forM (checkScope t [])
      = eraseOutcome id (scopes.forM (checkScope t [])) := by
  induction scopes with
  | nil => rfl
  | cons ds scopes ih =>
    show (checkScope t [] (eraseAll ds) >>= fun _ => (scopes.map eraseAll).forM (checkScope t []))
      = eraseOutcome id (checkScope t [] ds >>= fun _ => scopes.forM (checkScope t []))
    rw [checkScope_eraseAll, ih]
    cases checkScope t [] ds <;> rfl

/-- **The check of the declarations** comes to the same up to positions. -/
theorem checkDeclarations_erase (root : Node) :
    root.erase.checkDeclarations = eraseOutcome id root.checkDeclarations := by
  unfold checkDeclarations
  rw [scope?_erase]
  cases root.scope? with
  | none => rfl
  | some s =>
    show (ConstructorTable.empty.declareAll (root.erase.scopes (eraseAll s.1)).flatten >>= _)
      = eraseOutcome id (ConstructorTable.empty.declareAll (root.scopes s.1).flatten >>= _)
    have hflatten : ((root.scopes s.1).map eraseAll).flatten
        = eraseAll (root.scopes s.1).flatten := by
      rw [eraseAll_eq_map, List.map_flatten]
      exact congrArg (fun f => ((root.scopes s.1).map f).flatten) (funext eraseAll_eq_map)
    rw [scopes_erase, hflatten, ConstructorTable.declareAll_eraseAll]
    cases ConstructorTable.empty.declareAll (root.scopes s.1).flatten with
    | error f => rfl
    | ok t =>
      show (((root.scopes s.1).map eraseAll).forM (checkScope t []) >>= _)
        = eraseOutcome id ((root.scopes s.1).forM (checkScope t []) >>= _)
      rw [forM_checkScope_eraseAll]
      cases (root.scopes s.1).forM (checkScope t []) <;> rfl

theorem externsOf_eraseAll (ds : List Node) : externsOf (eraseAll ds) = externsOf ds := by
  unfold externsOf
  rw [eraseAll_eq_map, List.foldlM_map]
  refine congrArg (fun f => List.foldlM f [] ds) (funext fun found => funext fun d => ?_)
  cases d with
  | externDecl p name tps pts r =>
    show (do name.check; return _ : Except Failure _) = (do name.check; return _)
    rw [eraseAll_eq_map, List.length_map]
  | _ => rfl

/-! ## Intrinsics and cases -/

theorem checkIntrinsics_eraseAll (t : IntrinsicTable) (ns : List Node) :
    checkIntrinsics t (eraseAll ns) = eraseOutcome id (checkIntrinsics t ns) := by
  induction ns with
  | nil => rfl
  | cons n ns ih =>
    rw [eraseAll]
    cases n with
    | intrinsicCall p op args =>
      rw [erase, checkIntrinsics, checkIntrinsics]
      unfold Name.check
      split
      · show (if t.knows op then _ else _) = eraseOutcome id (if t.knows op then _ else _)
        split
        · exact ih
        · rfl
      · rfl
    | _ => exact ih

end Node

theorem Case.compileNodes_eraseAll (t : ConstructorTable) (ns : List Node) :
    compileNodes t (Node.eraseAll ns) = eraseOutcome (List.map erase) (compileNodes t ns) := by
  induction ns with
  | nil => rfl
  | cons n ns ih =>
    rw [Node.eraseAll]
    cases n with
    | caseOf p scrutinee arms =>
      rw [Node.erase, compileNodes, compileNodes, compile_erase, ih]
      cases compile t arms with
      | error f => rfl
      | ok c => cases compileNodes t ns <;> rfl
    | _ => exact ih

namespace Node

theorem functionsOf_eraseAll (ds : List Node) :
    functionsOf (eraseAll ds) = eraseAll (functionsOf ds) := by
  unfold functionsOf
  rw [eraseAll_eq_map, eraseAll_eq_map, List.filter_map]
  refine congrArg (fun p => (ds.filter p).map erase) (funext fun d => ?_)
  cases d <;> rfl

theorem flatMap_walk_eraseAll (ns : List Node) :
    (eraseAll ns).flatMap walk = eraseAll (ns.flatMap walk) := by
  induction ns with
  | nil => rfl
  | cons n ns ih =>
    rw [eraseAll, List.flatMap_cons, List.flatMap_cons, eraseAll_append, ih, walk_erase]

/-- **The cases of a program compile alike** up to positions. -/
theorem compileCases_erase (root : Node) (t : ConstructorTable) :
    root.erase.compileCases t = eraseOutcome (List.map Case.erase) (root.compileCases t) := by
  unfold compileCases
  rw [scope?_erase]
  cases root.scope? with
  | none => rfl
  | some s =>
    show (Case.compileNodes t ((functionsOf (eraseAll s.1)).flatMap walk) >>= _)
      = eraseOutcome _ (Case.compileNodes t ((functionsOf s.1).flatMap walk) >>= _)
    rw [functionsOf_eraseAll, flatMap_walk_eraseAll, Case.compileNodes_eraseAll]
    cases Case.compileNodes t ((functionsOf s.1).flatMap walk) with
    | error f => rfl
    | ok cs =>
      show (s.2.erase.walk? >>= _) = eraseOutcome _ (s.2.walk? >>= _)
      rw [walk?_erase]
      cases s.2.walk? with
      | error f => rfl
      | ok ns =>
        show (Case.compileNodes t (eraseAll ns) >>= _)
          = eraseOutcome _ (Case.compileNodes t ns >>= _)
        rw [Case.compileNodes_eraseAll]
        cases Case.compileNodes t ns with
        | error f => rfl
        | ok cs' => exact congrArg Except.ok (List.map_append).symm

end Node

/-! ## Interpreters -/

variable {σ α : Type} {R : σ → σ → Prop}

/-- **Two interpreters are alike**: they have the same functions of the
host, all of which ignore positions, and what the last program left behind
is alike. -/
structure Interpreter.Alike (R : σ → σ → Prop) (I I' : Interpreter σ) : Prop where
  /-- The functions of the host ignore positions. -/
  ignores : ∀ n ∈ I.natives, n.IgnoresPositions R
  /-- They are the same for both. -/
  natives : I'.natives = I.natives
  /-- So are the intrinsics. -/
  intrinsics : I'.intrinsics = I.intrinsics
  /-- The traces are equally detailed. -/
  detail : I'.detail = I.detail
  /-- The limits are the same. -/
  maxDepth : I'.maxDepth = I.maxDepth
  /-- The same foreign functions were declared. -/
  externs : I'.externs = I.externs
  /-- So were the same constructors. -/
  table : I'.table = I.table
  /-- The cases were compiled with the same constructors. -/
  caseTable : I'.caseTable = I.caseTable
  /-- As many cases were compiled. -/
  cases : I'.cases.length = I.cases.length
  /-- The functions of the loaded programs are alike. -/
  globals : I.globals.Alike I'.globals
  /-- The journals are alike. -/
  journal : I.journal.Alike R I'.journal

theorem Interpreter.Alike.engine {I I' : Interpreter σ} (h : I.Alike R I') :
    I'.engine = I.engine := by
  unfold Interpreter.engine
  rw [h.natives, h.intrinsics, h.detail, h.externs, h.table, h.caseTable]

namespace Session

theorem matches_lift {β : Type} {Q : α → β → Prop} {o : Except Failure α} {o' : Except Failure β}
    (h : Agree Q o o') : Matches (Interpreter.Alike R) Q (lift o) (lift o') := by
  intro I I' hI
  rcases h.fails_or_gives with ⟨f, f', rfl, rfl, hf⟩ | ⟨a, b, rfl, rfl, hab⟩
  · exact ⟨hI, hf⟩
  · exact ⟨hI, hab⟩

theorem matches_keepEngine {β : Type} {Q : α → β → Prop} {m : Engine σ → Run σ α}
    {m' : Engine σ → Run σ β}
    (h : ∀ E : Engine σ, (∀ n ∈ E.natives, n.IgnoresPositions R) →
      Matches (Journal.Alike R) Q (m E) (m' E)) :
    Matches (Interpreter.Alike R) Q (keepEngine m) (keepEngine m') := by
  intro I I' hI
  obtain ⟨hjournal, hagree⟩ := h I.engine hI.ignores I.journal I'.journal hI.journal
  show Interpreter.Alike R { I with journal := ((m I.engine).run I.journal).2 }
      { I' with journal := ((m' I'.engine).run I'.journal).2 }
    ∧ Agree Q ((m I.engine).run I.journal).1 ((m' I'.engine).run I'.journal).1
  rw [hI.engine]
  exact ⟨{ hI with journal := hjournal }, hagree⟩

/-- Interpreters that are alike say the same of the program they have
loaded. -/
theorem summary_eq {I I' : Interpreter σ} (h : I.Alike R I') : summary I' = summary I := by
  unfold summary
  rw [h.natives, h.externs, h.table, h.cases]

theorem load_of_ne {root : Node} (h : ∀ p ds body, root ≠ .program p ds body) :
    (load root : Session σ Unit) = throw (.shape .missingPart) := by
  cases root with
  | program p ds body => exact absurd rfl (h p ds body)
  | _ => rfl

/-- **Loading programs that are alike.** -/
theorem load_matches {root root' : Node} (h : root.Alike root') :
    Matches (Interpreter.Alike R) (fun _ _ => True) (load root : Session σ Unit) (load root') := by
  cases root with
  | program p ds body =>
    obtain ⟨p', ds', body', rfl, hds, hbody⟩ := h.eq_program
    have hexterns : Node.externsOf ds' = Node.externsOf ds := by
      rw [← Node.externsOf_eraseAll, hds, Node.externsOf_eraseAll]
    have hcheck : Agree (fun t t' => t' = t) (Node.program p ds body).checkDeclarations
        (Node.program p' ds' body').checkDeclarations := by
      refine .of_eraseOutcome (g := id) ?_
      rw [← Node.checkDeclarations_erase, ← Node.checkDeclarations_erase, h]
    have hfunctions := congrArg Node.declaredFunctions hds
    rw [Node.declaredFunctions_eraseAll, Node.declaredFunctions_eraseAll] at hfunctions
    rcases hd : Node.declaredFunctions ds with ⟨fs, outcome⟩
    rcases hd' : Node.declaredFunctions ds' with ⟨fs', outcome'⟩
    rw [hd, hd'] at hfunctions
    obtain ⟨hfs, houtcome⟩ := Prod.mk.inj hfunctions
    -- Side by side, step by step as programs are loaded. What the two trees lead
    -- to is the same, or the same without positions.
    unfold load
    dsimp only
    rw [hexterns, hd, hd']
    refine (matches_lift (.refl _)).bind fun _ externs he => ?_
    subst he
    refine (Matches.modify fun I I' hI => ?_).bind fun _ _ _ => ?_
    · exact { hI with externs := rfl, journal := { hI.journal with effects := rfl } }
    refine (matches_lift hcheck).bind fun _ t ht => ?_
    subst ht
    refine (Matches.modify fun I I' hI => ?_).bind fun _ _ _ => ?_
    · exact { hI with table := rfl }
    refine Matches.get.bind fun I I' hI => ?_
    rw [hI.intrinsics]
    have hintrinsics : Agree (fun _ _ => True)
        (Node.checkIntrinsics I.intrinsics (Node.program p ds body).walk)
        (Node.checkIntrinsics I.intrinsics (Node.program p' ds' body').walk) := by
      refine (Agree.of_eraseOutcome (g := id) ?_).mono fun _ _ _ => trivial
      rw [← Node.checkIntrinsics_eraseAll, ← Node.checkIntrinsics_eraseAll, ← Node.walk_erase,
        ← Node.walk_erase, h]
    refine (matches_lift hintrinsics).bind fun _ _ _ => ?_
    have hcases : Agree (fun cs cs' => cs'.map Case.erase = cs.map Case.erase)
        ((Node.program p ds body).compileCases t) ((Node.program p' ds' body').compileCases t) := by
      refine .of_eraseOutcome ?_
      rw [← Node.compileCases_erase, ← Node.compileCases_erase, h]
    refine (matches_lift hcases).bind fun cs cs' hcs => ?_
    have hlength := congrArg List.length hcs
    rw [List.length_map, List.length_map] at hlength
    have hglobals : (Scope.functions fs .empty).Alike (.functions fs' .empty) := by
      unfold Scope.Alike
      simp only [Scope.erase, hfs]
    refine (Matches.modify fun I I' hI => ?_).bind fun _ _ _ => ?_
    · exact { hI with caseTable := rfl, cases := hlength, globals := hglobals }
    have htrace (E : Engine σ) : Matches (Journal.Alike R) (fun _ _ => True)
        (fs.forM fun f => E.trace (.function f)) (fs'.forM fun f => E.trace (.function f)) :=
      Matches.forM (map_eq_iff_forall₂.1 hfs) fun f f' hf => Engine.matches_trace_function hf
    refine (matches_keepEngine fun E _ => htrace E).bind fun _ _ _ => ?_
    rw [houtcome]
    refine (matches_lift (.refl _)).bind fun _ _ _ => Matches.get.bind fun I I' hI => ?_
    rw [summary_eq hI]
    have hsame : List.Forall₂ Eq (summary I) (summary I) := List.forall₂_same.2 fun _ _ => rfl
    refine matches_keepEngine fun E _ => Matches.forM hsame fun m m' hm => ?_
    subst hm
    exact Engine.matches_trace rfl rfl
  | _ =>
    have hne : ∀ q ds body, root' ≠ .program q ds body := by
      rintro q ds body rfl
      cases h
    rw [load_of_ne hne]
    exact .throw rfl

/-- **Running programs that are alike.** -/
theorem run_matches {root root' : Node} (h : root.Alike root') :
    Matches (Interpreter.Alike R) Value.Alike (run root : Session σ Value) (run root') := by
  have hscope := root'.scope?_erase
  rw [h, root.scope?_erase] at hscope
  unfold run
  refine (load_matches h).bind fun _ _ _ => ?_
  cases hs : root.scope? with
  | none =>
    cases hs' : root'.scope? with
    | none => exact .throw rfl
    | some s' =>
      rw [hs, hs'] at hscope
      cases hscope
  | some s =>
    cases hs' : root'.scope? with
    | none =>
      rw [hs, hs'] at hscope
      cases hscope
    | some s' =>
      rw [hs, hs'] at hscope
      have hbody : s.2.Alike s'.2 := (Prod.mk.inj (Option.some.inj hscope)).2.symm
      refine Matches.get.bind fun I I' hI => ?_
      have hdepth : I'.runDepth = I.runDepth := by
        unfold Interpreter.runDepth
        rw [hI.maxDepth]
      rw [hdepth]
      refine (matches_keepEngine fun E hE =>
        Engine.eval_matches hE I.runDepth hI.globals hbody).bind fun v v' hv => ?_
      have htext : (Message.result v').text = (Message.result v).text := by
        rw [Message.text, Message.text, ← v'.text_erase, hv, v.text_erase]
      refine (matches_keepEngine fun E _ => Engine.matches_trace htext rfl).bind fun _ _ _ => ?_
      exact .pure hv

end Session

end EmberLang
