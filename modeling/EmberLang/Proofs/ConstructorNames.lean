import EmberLang.Proofs.CheckedCode
import EmberLang.Proofs.Outline

/-!
# What resolving the names of constructors does to a program

Resolving goes through a program by its places: it looks into expressions,
into the arms of cases and into the functions of blocks, and passes over
patterns, parameters and types. What comes of it can be said without any of
this. `Node.named` replaces, wherever in the tree it may stand, a variable
that names a constructor by the constructor without fields, and a call of
such a variable by the constructor with the arguments as its fields, and
changes nothing else. If everything in a program stands where the grammar
has it (`Node.inPlace`), resolving is this replacement.

So no such variable is left, and a program that has been resolved has
nothing more to be resolved. Its declarations are the same as before, and
so is the table of its constructors.
-/

namespace EmberLang.Node

/-! ## Places -/

/-- **The kinds of phrases** that the grammar tells apart. -/
inductive Kind where
  /-- Types, and what stands for a type that is left out. -/
  | type
  /-- Whole programs. -/
  | program
  /-- Declarations. -/
  | declaration
  /-- Constructors of a data type. -/
  | constructor
  /-- Parameters of a declared function. -/
  | param
  /-- Expressions. -/
  | expression
  /-- Arms of a case. -/
  | arm
  /-- Patterns. -/
  | pattern

mutual

/-- **Whether a node is a phrase of a kind**, with everything below it in its
grammatical place. -/
def inPlace : Kind → Node → Bool
  | .type, atom _ => true
  | .type, typeSpec _ => true
  | .program, program _ ds b => allInPlace .declaration ds && inPlace .expression b
  | .declaration, externDecl _ _ _ pts r => allInPlace .type pts && inPlace .type r
  | .declaration, dataDecl _ _ _ cs => allInPlace .constructor cs
  | .declaration, typeDecl _ _ _ t => inPlace .type t
  | .declaration, funDecl _ _ _ ps b r =>
    allInPlace .param ps && inPlace .expression b && inPlace .type r
  | .constructor, constructorDecl _ _ fts => allInPlace .type fts
  | .param, param _ _ t => inPlace .type t
  | .expression, literal _ _ => true
  | .expression, unit _ => true
  | .expression, var _ _ => true
  | .expression, call _ c as => inPlace .expression c && allInPlace .expression as
  | .expression, intrinsicCall _ _ as => allInPlace .expression as
  | .expression, directiveCall _ _ as => allInPlace .expression as
  | .expression, construct _ _ as => allInPlace .expression as
  | .expression, caseOf _ s as => inPlace .expression s && allInPlace .arm as
  | .expression, letIn _ _ v b t =>
    inPlace .expression v && inPlace .expression b && inPlace .type t
  | .expression, seq _ f r => inPlace .expression f && inPlace .expression r
  | .expression, lambda _ _ b => inPlace .expression b
  | .expression, block _ ds b => allInPlace .declaration ds && inPlace .expression b
  | .arm, arm _ t b => inPlace .pattern t && inPlace .expression b
  | .pattern, patternVar _ _ => true
  | .pattern, patternWild _ => true
  | .pattern, patternLit _ _ => true
  | .pattern, patternCtor _ _ as => allInPlace .pattern as
  | _, _ => false

/-- Whether some nodes are phrases of a kind. -/
def allInPlace : Kind → List Node → Bool
  | _, [] => true
  | k, n :: ns => inPlace k n && allInPlace k ns

end

/-! ## The replacement -/

/-- The constructor that a variable names, if it names one. -/
def constructor? (t : ConstructorTable) : Node → Option Name
  | var _ name => if t.contains name then some name else none
  | _ => none

mutual

/-- **A tree with the names of constructors replaced**: of variables and of
calls of variables, everywhere in the tree. -/
def named (t : ConstructorTable) : Node → Node
  | var p name => if t.contains name then construct p name [] else var p name
  | call p c as =>
    match c.constructor? t with
    | some name => construct p name (namedAll t as)
    | none => call p (named t c) (namedAll t as)
  | atom a => atom a
  | typeSpec u => typeSpec u
  | program p ds b => program p (namedAll t ds) (named t b)
  | externDecl p n tps pts r => externDecl p n tps (namedAll t pts) (named t r)
  | dataDecl p n tps cs => dataDecl p n tps (namedAll t cs)
  | constructorDecl p n fts => constructorDecl p n (namedAll t fts)
  | typeDecl p n tps u => typeDecl p n tps (named t u)
  | param p n u => param p n (named t u)
  | funDecl p n tps ps b r => funDecl p n tps (namedAll t ps) (named t b) (named t r)
  | literal p v => literal p v
  | unit p => unit p
  | intrinsicCall p op as => intrinsicCall p op (namedAll t as)
  | directiveCall p n as => directiveCall p n (namedAll t as)
  | construct p c as => construct p c (namedAll t as)
  | arm p u b => arm p (named t u) (named t b)
  | caseOf p s as => caseOf p (named t s) (namedAll t as)
  | letIn p n v b u => letIn p n (named t v) (named t b) (named t u)
  | seq p f r => seq p (named t f) (named t r)
  | lambda p ps b => lambda p ps (named t b)
  | block p ds b => block p (namedAll t ds) (named t b)
  | patternVar p n => patternVar p n
  | patternWild p => patternWild p
  | patternLit p v => patternLit p v
  | patternCtor p c as => patternCtor p c (namedAll t as)

/-- Several trees with the names of constructors replaced. -/
def namedAll (t : ConstructorTable) : List Node → List Node
  | [] => []
  | n :: ns => named t n :: namedAll t ns

end

variable {t : ConstructorTable}

mutual

/-- **No name of a constructor is left** after the replacement. -/
theorem filterMap_constructor?_named (n : Node) :
    (named t n).preorder.filterMap (constructor? t) = [] := by
  cases n with
  | var p name =>
    rw [named]
    split
    · rfl
    · next hname =>
      rw [preorder, List.filterMap_cons, constructor?, if_neg hname, List.filterMap_nil]
  | call p c as =>
    rw [named]
    split <;> simp only [preorder, List.filterMap_cons, List.filterMap_append, constructor?,
      filterMap_constructor?_named c, filterMap_constructor?_namedAll as, List.append_nil]
  | _ =>
    simp only [named, preorder, List.filterMap_cons, List.filterMap_append, List.filterMap_nil,
      constructor?, filterMap_constructor?_named, filterMap_constructor?_namedAll, List.append_nil]

theorem filterMap_constructor?_namedAll (ns : List Node) :
    (preorderAll (namedAll t ns)).filterMap (constructor? t) = [] := by
  cases ns with
  | nil => rfl
  | cons n ns =>
    rw [namedAll, preorderAll, List.filterMap_append, filterMap_constructor?_named n,
      filterMap_constructor?_namedAll ns, List.append_nil]

end

/-- Whether phrases of a kind hold no code, and so no names of constructors. -/
def Kind.isPlain : Kind → Bool
  | type | constructor | param | pattern => true
  | _ => false

mutual

theorem named_of_isPlain {k : Kind} (hk : k.isPlain = true) (n : Node)
    (h : n.inPlace k = true) : named t n = n := by
  cases k with
  | type => cases n <;> first | rfl | cases h
  | constructor =>
    cases n with
    | constructorDecl p name fts => rw [named, namedAll_of_isPlain (k := .type) rfl fts h]
    | _ => cases h
  | param =>
    cases n with
    | param p name u => rw [named, named_of_isPlain (k := .type) rfl u h]
    | _ => cases h
  | pattern =>
    cases n with
    | patternCtor p c as => rw [named, namedAll_of_isPlain (k := .pattern) rfl as h]
    | patternVar | patternWild | patternLit => rfl
    | _ => cases h
  | _ => cases hk

theorem namedAll_of_isPlain {k : Kind} (hk : k.isPlain = true) (ns : List Node)
    (h : allInPlace k ns = true) : namedAll t ns = ns := by
  cases ns with
  | nil => rfl
  | cons n ns =>
    rw [allInPlace, Bool.and_eq_true] at h
    rw [namedAll, named_of_isPlain hk n h.1, namedAll_of_isPlain hk ns h.2]

end

/-! ## Resolving is the replacement -/

mutual

/-- **Where everything is in its place, resolving is the replacement** that
does not look at places. -/
theorem resolved_eq_named (n : Node) (h : n.inPlace .expression = true) :
    resolved t n = named t n := by
  cases n with
  | var p name => rfl
  | call p c as =>
    rw [inPlace, Bool.and_eq_true] at h
    have hargs := resolvedAll_eq_namedAll as h.2
    have hcallee := resolved_eq_named c h.1
    cases c with
    | var q name =>
      rw [resolved, named, constructor?, hargs]
      split
      · rfl
      · next hname => rw [named, if_neg hname]
    | _ => rw [resolved_call rfl, named, hargs, hcallee]; rfl
  | construct p c as | intrinsicCall p c as | directiveCall p c as =>
    rw [inPlace] at h
    rw [resolved, named, resolvedAll_eq_namedAll as h]
  | caseOf p s as =>
    rw [inPlace, Bool.and_eq_true] at h
    rw [resolved, named, resolved_eq_named s h.1, resolvedArms_eq_namedAll as h.2]
  | letIn p name v b u =>
    rw [inPlace, Bool.and_eq_true, Bool.and_eq_true] at h
    rw [resolved, named, resolved_eq_named v h.1.1, resolved_eq_named b h.1.2,
      named_of_isPlain (k := .type) rfl u h.2]
  | seq p f r =>
    rw [inPlace, Bool.and_eq_true] at h
    rw [resolved, named, resolved_eq_named f h.1, resolved_eq_named r h.2]
  | lambda p ps b =>
    rw [inPlace] at h
    rw [resolved, named, resolved_eq_named b h]
  | block p ds b =>
    rw [inPlace, Bool.and_eq_true] at h
    rw [resolved, named, resolvedDeclarations_eq_namedAll ds h.1, resolved_eq_named b h.2]
  | literal | unit => rfl
  | _ => cases h

theorem resolvedAll_eq_namedAll (ns : List Node) (h : allInPlace .expression ns = true) :
    resolvedAll t ns = namedAll t ns := by
  cases ns with
  | nil => rfl
  | cons n ns =>
    rw [allInPlace, Bool.and_eq_true] at h
    rw [resolvedAll, namedAll, resolved_eq_named n h.1, resolvedAll_eq_namedAll ns h.2]

theorem resolvedArms_eq_namedAll (ns : List Node) (h : allInPlace .arm ns = true) :
    resolvedArms t ns = namedAll t ns := by
  cases ns with
  | nil => rfl
  | cons n ns =>
    rw [allInPlace, Bool.and_eq_true] at h
    rw [resolvedArms, namedAll, resolvedArms_eq_namedAll ns h.2]
    cases n with
    | arm p u b =>
      rw [inPlace, Bool.and_eq_true] at h
      rw [resolvedArm, named, named_of_isPlain (k := .pattern) rfl u h.1.1,
        resolved_eq_named b h.1.2]
    | _ => cases h.1

/-- Of the declarations only functions hold code. -/
theorem resolvedDeclarations_eq_namedAll (ns : List Node)
    (h : allInPlace .declaration ns = true) : resolvedDeclarations t ns = namedAll t ns := by
  cases ns with
  | nil => rfl
  | cons n ns =>
    rw [allInPlace, Bool.and_eq_true] at h
    rw [resolvedDeclarations, namedAll, resolvedDeclarations_eq_namedAll ns h.2]
    cases n with
    | funDecl p name tps ps b r =>
      rw [inPlace, Bool.and_eq_true, Bool.and_eq_true] at h
      rw [resolvedDeclaration, named, namedAll_of_isPlain (k := .param) rfl ps h.1.1.1,
        resolved_eq_named b h.1.1.2, named_of_isPlain (k := .type) rfl r h.1.2]
    | externDecl p name tps pts r =>
      rw [inPlace, Bool.and_eq_true] at h
      rw [named, namedAll_of_isPlain (k := .type) rfl pts h.1.1,
        named_of_isPlain (k := .type) rfl r h.1.2]
      rfl
    | dataDecl p name tps cs =>
      rw [named, namedAll_of_isPlain (k := .constructor) rfl cs h.1]
      rfl
    | typeDecl p name tps u =>
      rw [named, named_of_isPlain (k := .type) rfl u h.1]
      rfl
    | _ => cases h.1

end

/-! ## Resolving a second time -/

/-- What was no variable is none after resolving. -/
theorem isVar_resolved {n : Node} (h : n.isVar = false) : (resolved t n).isVar = false := by
  cases n with
  | var p name => cases h
  | call p c as =>
    cases hvar : c.isVar with
    | false => rw [resolved_call hvar]; rfl
    | true =>
      cases c with
      | var q name =>
        rw [resolved]
        split <;> rfl
      | _ => cases hvar
  | _ => rfl

mutual

/-- **If resolving has a result, the result is the resolved tree**, and
resolving that changes nothing. No name has to be a word here: the names
that could be checked the first time can be checked again. -/
theorem resolve_eq_ok (n : Node) :
    ∀ {r}, resolve t n = .ok r → r = resolved t n ∧ resolve t r = .ok r := by
  intro r h
  cases n with
  | var p name =>
    rw [resolve] at h
    obtain ⟨_, hcheck, h⟩ := bind_eq_ok h
    obtain rfl := Except.ok.inj h
    refine ⟨rfl, ?_⟩
    split
    · rfl
    · next hname => rw [resolve, hcheck, ok_bind, if_neg hname]; rfl
  | call p c as =>
    cases hvar : c.isVar with
    | false =>
      rw [resolve_call hvar] at h
      obtain ⟨as', has, h⟩ := bind_eq_ok h
      obtain ⟨c', hc, h⟩ := bind_eq_ok h
      obtain rfl := Except.ok.inj h
      obtain ⟨rfl, has'⟩ := resolveAll_eq_ok as has
      obtain ⟨rfl, hc'⟩ := resolve_eq_ok c hc
      rw [resolved_call hvar, resolve_call (isVar_resolved hvar), has', ok_bind, hc']
      exact ⟨rfl, rfl⟩
    -- A variable that is called is not resolved by itself: its name decides
    -- whether the call becomes a constructor.
    | true =>
      cases c with
      | var q name =>
        rw [resolve] at h
        obtain ⟨as', has, h⟩ := bind_eq_ok h
        obtain ⟨rfl, has'⟩ := resolveAll_eq_ok as has
        obtain ⟨_, hcheck, h⟩ := bind_eq_ok h
        rw [resolved]
        split at h
        · next hname =>
          obtain rfl := Except.ok.inj h
          rw [if_pos hname, resolve, has']
          exact ⟨rfl, rfl⟩
        · next hname =>
          obtain rfl := Except.ok.inj h
          rw [if_neg hname, resolve, has', ok_bind]
          dsimp only
          rw [hcheck, ok_bind, if_neg hname]
          exact ⟨rfl, rfl⟩
      | _ => cases hvar
  | construct p c as | intrinsicCall p c as | directiveCall p c as =>
    rw [resolve] at h
    obtain ⟨as', has, h⟩ := bind_eq_ok h
    obtain rfl := Except.ok.inj h
    obtain ⟨rfl, has'⟩ := resolveAll_eq_ok as has
    rw [resolved, resolve, has']
    exact ⟨rfl, rfl⟩
  | caseOf p s as =>
    rw [resolve] at h
    obtain ⟨as', has, h⟩ := bind_eq_ok h
    obtain ⟨s', hs, h⟩ := bind_eq_ok h
    obtain rfl := Except.ok.inj h
    obtain ⟨rfl, has'⟩ := resolveArms_eq_ok as has
    obtain ⟨rfl, hs'⟩ := resolve_eq_ok s hs
    rw [resolved, resolve, has', ok_bind, hs']
    exact ⟨rfl, rfl⟩
  | letIn p name v b u =>
    rw [resolve] at h
    obtain ⟨v', hv, h⟩ := bind_eq_ok h
    obtain ⟨b', hb, h⟩ := bind_eq_ok h
    obtain rfl := Except.ok.inj h
    obtain ⟨rfl, hv'⟩ := resolve_eq_ok v hv
    obtain ⟨rfl, hb'⟩ := resolve_eq_ok b hb
    rw [resolved, resolve, hv', ok_bind, hb']
    exact ⟨rfl, rfl⟩
  | seq p f s =>
    rw [resolve] at h
    obtain ⟨f', hf, h⟩ := bind_eq_ok h
    obtain ⟨s', hs, h⟩ := bind_eq_ok h
    obtain rfl := Except.ok.inj h
    obtain ⟨rfl, hf'⟩ := resolve_eq_ok f hf
    obtain ⟨rfl, hs'⟩ := resolve_eq_ok s hs
    rw [resolved, resolve, hf', ok_bind, hs']
    exact ⟨rfl, rfl⟩
  | lambda p ps b =>
    rw [resolve] at h
    obtain ⟨b', hb, h⟩ := bind_eq_ok h
    obtain rfl := Except.ok.inj h
    obtain ⟨rfl, hb'⟩ := resolve_eq_ok b hb
    rw [resolved, resolve, hb']
    exact ⟨rfl, rfl⟩
  | block p ds b =>
    rw [resolve] at h
    obtain ⟨ds', hds, h⟩ := bind_eq_ok h
    obtain ⟨b', hb, h⟩ := bind_eq_ok h
    obtain rfl := Except.ok.inj h
    obtain ⟨rfl, hds'⟩ := resolveDeclarations_eq_ok ds hds
    obtain ⟨rfl, hb'⟩ := resolve_eq_ok b hb
    rw [resolved, resolve, hds', ok_bind, hb']
    exact ⟨rfl, rfl⟩
  | _ =>
    simp only [resolve, Except.ok.injEq] at h
    subst h
    simp only [resolved, resolve, and_self]
termination_by structural n

theorem resolveAll_eq_ok (ns : List Node) :
    ∀ {rs}, resolveAll t ns = .ok rs → rs = resolvedAll t ns ∧ resolveAll t rs = .ok rs := by
  intro rs h
  cases ns with
  | nil =>
    obtain rfl := Except.ok.inj h
    exact ⟨rfl, rfl⟩
  | cons n ns =>
    rw [resolveAll] at h
    obtain ⟨r, hr, h⟩ := bind_eq_ok h
    obtain ⟨rs', hrs, h⟩ := bind_eq_ok h
    obtain rfl := Except.ok.inj h
    obtain ⟨rfl, hr'⟩ := resolve_eq_ok n hr
    obtain ⟨rfl, hrs'⟩ := resolveAll_eq_ok ns hrs
    rw [resolvedAll, resolveAll, hr', ok_bind, hrs']
    exact ⟨rfl, rfl⟩
termination_by structural ns

theorem resolveArms_eq_ok (ns : List Node) :
    ∀ {rs}, resolveArms t ns = .ok rs → rs = resolvedArms t ns ∧ resolveArms t rs = .ok rs := by
  intro rs h
  cases ns with
  | nil =>
    obtain rfl := Except.ok.inj h
    exact ⟨rfl, rfl⟩
  | cons n ns =>
    rw [resolveArms] at h
    obtain ⟨r, hr, h⟩ := bind_eq_ok h
    obtain ⟨rs', hrs, h⟩ := bind_eq_ok h
    obtain rfl := Except.ok.inj h
    obtain ⟨rfl, hrs'⟩ := resolveArms_eq_ok ns hrs
    cases n with
    | arm p u b =>
      rw [resolveArm] at hr
      obtain ⟨b', hb, hr⟩ := bind_eq_ok hr
      obtain rfl := Except.ok.inj hr
      obtain ⟨rfl, hb'⟩ := resolve_eq_ok b hb
      rw [resolvedArms, resolvedArm, resolveArms, resolveArm, hb', ok_bind, pure_eq_ok, ok_bind,
        hrs']
      exact ⟨rfl, rfl⟩
    | _ => cases hr
termination_by structural ns

theorem resolveDeclarations_eq_ok (ns : List Node) :
    ∀ {rs}, resolveDeclarations t ns = .ok rs →
      rs = resolvedDeclarations t ns ∧ resolveDeclarations t rs = .ok rs := by
  intro rs h
  cases ns with
  | nil =>
    obtain rfl := Except.ok.inj h
    exact ⟨rfl, rfl⟩
  | cons n ns =>
    rw [resolveDeclarations] at h
    obtain ⟨r, hr, h⟩ := bind_eq_ok h
    obtain ⟨rs', hrs, h⟩ := bind_eq_ok h
    obtain rfl := Except.ok.inj h
    obtain ⟨rfl, hrs'⟩ := resolveDeclarations_eq_ok ns hrs
    cases n with
    | funDecl p name tps ps b u =>
      rw [resolveDeclaration] at hr
      obtain ⟨b', hb, hr⟩ := bind_eq_ok hr
      obtain rfl := Except.ok.inj hr
      obtain ⟨rfl, hb'⟩ := resolve_eq_ok b hb
      rw [resolvedDeclarations, resolvedDeclaration, resolveDeclarations, resolveDeclaration, hb',
        ok_bind, pure_eq_ok, ok_bind, hrs']
      exact ⟨rfl, rfl⟩
    | _ =>
      simp only [resolveDeclaration, Except.ok.injEq] at hr
      subst hr
      simp only [resolvedDeclarations, resolvedDeclaration, resolveDeclarations, resolveDeclaration,
        hrs', ok_bind, pure_eq_ok, and_self]
termination_by structural ns

end

/-! ## Programs -/

/-- What comes of resolving a program that passes the check. -/
theorem resolveProgram_eq_ok {root r : Node} (h : root.inPlace .program = true)
    (hr : root.resolveProgram = .ok r) :
    ∃ t, root.checkDeclarations = .ok t ∧ r = root.named t ∧ r.checkDeclarations = .ok t
      ∧ r.resolveProgram = .ok r := by
  cases root with
  | program p ds b =>
    rw [inPlace, Bool.and_eq_true] at h
    obtain ⟨t, ht, hr⟩ := bind_eq_ok hr
    obtain ⟨ds', hds, hr⟩ := bind_eq_ok hr
    obtain ⟨b', hb, hr⟩ := bind_eq_ok hr
    obtain rfl := Except.ok.inj hr
    obtain ⟨rfl, hds'⟩ := resolveDeclarations_eq_ok ds hds
    obtain ⟨rfl, hb'⟩ := resolve_eq_ok b hb
    have hcheck : (program p (resolvedDeclarations t ds) (resolved t b)).checkDeclarations
        = .ok t := by
      refine checkDeclarations_of_outlines ?_ ht
      rw [outlines_program, outlines_program, map_outline_resolvedDeclarations,
        blockOutlines_resolvedDeclarations, blockOutlines_resolved]
    refine ⟨t, ht, ?_, hcheck, ?_⟩
    · rw [named, ← resolvedDeclarations_eq_namedAll ds h.1, ← resolved_eq_named b h.2]
      rfl
    · show (program p (resolvedDeclarations t ds) (resolved t b)).resolveProgram = _
      unfold resolveProgram
      rw [hcheck, ok_bind]
      show (do
        let ds ← resolveDeclarations t (resolvedDeclarations t ds)
        return program p ds (← resolve t (resolved t b))) = _
      rw [hds', ok_bind, hb']
      rfl
  | _ => cases h

/-- **Resolving the names of constructors is complete, conservative and done
once and for all.** For every program in which everything stands in its
place: if it can be resolved, the result is the program with the names of its
constructors replaced, and with nothing else changed. No variable of the
result, at whatever depth, names a constructor, and no call is a call of such
a variable. The result passes the check with the same table, and resolving it
again gives the result itself. -/
theorem resolveProgram_eq_named {root r : Node} (h : root.inPlace .program = true)
    (hr : root.resolveProgram = .ok r) :
    ∃ t, root.checkDeclarations = .ok t
      ∧ (∀ p name, var p name ∈ r.preorder → t.contains name = false)
      ∧ (∀ p q name args, call p (var q name) args ∈ r.preorder → t.contains name = false)
      ∧ r = root.named t
      ∧ r.checkDeclarations = .ok t
      ∧ r.resolveProgram = .ok r := by
  obtain ⟨t, ht, hnamed, hcheck, hagain⟩ := resolveProgram_eq_ok h hr
  have hvar (p : Option Position) (name : Name) (hn : var p name ∈ r.preorder) :
      t.contains name = false := by
    rw [hnamed] at hn
    have hnone := List.filterMap_eq_nil_iff.1 (filterMap_constructor?_named root) _ hn
    rw [constructor?] at hnone
    split at hnone
    · cases hnone
    · next hname => exact Bool.eq_false_iff.2 hname
  refine ⟨t, ht, hvar, fun p q name args hn => hvar q name ?_, hnamed, hcheck, hagain⟩
  exact mem_preorder_of_mem_children hn List.mem_cons_self

/-- A program with lists, which are built in a function of a block and taken
apart by a case. -/
def listProgram : Node :=
  program (some ⟨1, 1⟩)
    [dataDecl none "List" [] [constructorDecl none "Nil" [],
      constructorDecl none "Cons" [typeSpec (.mk "Int" []), typeSpec (.mk "List" [])]]]
    (block (some ⟨2, 1⟩)
      [funDecl none "single" [] [param none "x" absent]
        (call (some ⟨3, 5⟩) (var (some ⟨3, 5⟩) "Cons")
          [var (some ⟨3, 10⟩) "x", var (some ⟨3, 13⟩) "Nil"]) absent]
      (caseOf none (call none (var none "single") [literal none (.int 1)])
        [arm none (patternCtor none "Cons" [patternVar none "h", patternVar none "Nil"])
          (call none (call none (var none "Nil") []) [var none "h"])]))

/-- The same program with its names resolved. -/
def resolvedListProgram : Node :=
  program (some ⟨1, 1⟩)
    [dataDecl none "List" [] [constructorDecl none "Nil" [],
      constructorDecl none "Cons" [typeSpec (.mk "Int" []), typeSpec (.mk "List" [])]]]
    (block (some ⟨2, 1⟩)
      [funDecl none "single" [] [param none "x" absent]
        (construct (some ⟨3, 5⟩) "Cons"
          [var (some ⟨3, 10⟩) "x", construct (some ⟨3, 13⟩) "Nil" []]) absent]
      (caseOf none (call none (var none "single") [literal none (.int 1)])
        [arm none (patternCtor none "Cons" [patternVar none "h", patternVar none "Nil"])
          (call none (construct none "Nil" []) [var none "h"])]))

/-- The names are replaced in the function of the block and in the arm; the
pattern stays as it is, and so does the call of what is now a constructor. -/
theorem resolveProgram_listProgram :
    listProgram.resolveProgram = .ok resolvedListProgram
      ∧ (∃ t, listProgram.checkDeclarations = .ok t ∧ resolvedListProgram = listProgram.named t)
      ∧ resolvedListProgram.resolveProgram = .ok resolvedListProgram := by
  have hresolved : listProgram.resolveProgram = .ok resolvedListProgram := by
    unfold resolveProgram checkDeclarations scopes
    rw [walk_eq_preorder rfl]
    rfl
  obtain ⟨t, ht, -, -, hnamed, -, hagain⟩ :=
    resolveProgram_eq_named (show listProgram.inPlace .program = true by decide) hresolved
  exact ⟨hresolved, ⟨t, ht, hnamed⟩, hagain⟩

end EmberLang.Node
