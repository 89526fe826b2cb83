import EmberLang.Proofs.CheckedCode
import EmberLang.Proofs.Reordering

/-!
# Which programs pass the check of declarations

The check of declarations enters one data type after the other into a table
and then goes through the scopes with the finished table. Here is what it
comes to for a program as it is read from a text: the check passes if and
only if the program is free of clashes (`Node.IsClashFree`), which is said of
the lists of declarations that stand in the program and without any table.
There are two kinds of clashes: constructors and data types must differ from
each other anywhere in the program, while the other declarations must differ
from those of their own list and from all constructors.

What such a program declares can be put into a table at once
(`Node.declared`), whether it clashes or not, and if the check passes, this
is the table that it gives.
-/

namespace EmberLang

namespace Node

/-! ## What a program declares -/

/-- **The lists of declarations in a program**: its own, and those of all
blocks in it, at whatever depth. -/
def declarationLists : Node → List (List Node)
  | program p ds body => ds :: (program p ds body).preorder.filterMap block?
  | _ => []

/-- The constructor that a node declares for a type. -/
def constructorOf? (typeName : Name) : Node → Option Constructor
  | constructorDecl _ name fieldTypes => some ⟨name, typeName, fieldTypes.length⟩
  | _ => none

/-- The data type that a node declares, with its constructors. -/
def typeOf? : Node → Option (Name × List Constructor)
  | dataDecl _ name _ cs => some (name, cs.filterMap (constructorOf? name))
  | _ => none

/-- **Everything that a program declares, as a table**, with whatever clashes
there are. -/
def declared (root : Node) : ConstructorTable := ⟨root.declarationLists.flatten.filterMap typeOf?⟩

/-- **A program declares a constructor** in some list of declarations, with
the type that owns it and the number of its fields. -/
def Declares (root : Node) (c : Constructor) : Prop :=
  ∃ ds ∈ root.declarationLists, ∃ p tps cs, dataDecl p c.typeName tps cs ∈ ds
    ∧ ∃ q fieldTypes, constructorDecl q c.name fieldTypes ∈ cs ∧ fieldTypes.length = c.arity

/-- **A program without clashes.** -/
structure IsClashFree (root : Node) : Prop where
  /-- The constructors of all data types have distinct names. -/
  constructors : Name.Distinct (root.declared.all.map Constructor.name)
  /-- All data types have distinct names. -/
  types : Name.Distinct root.declared.typeNames
  /-- The declarations of each list have distinct names. -/
  lists : ∀ ds ∈ root.declarationLists, Name.Distinct (ds.filterMap name?)
  /-- What is no data type does not have the name of a constructor. -/
  apart : ∀ ds ∈ root.declarationLists, ∀ d ∈ ds, d.isDataDecl = false →
    ∀ name, d.name? = some name → ∀ c, root.Declares c → c.name.same name = false

theorem mem_all_declared {root : Node} {c : Constructor} :
    c ∈ root.declared.all ↔ root.Declares c := by
  unfold declared ConstructorTable.all
  rw [List.mem_flatMap]
  constructor
  · rintro ⟨entry, hentry, hc⟩
    obtain ⟨d, hd, htype⟩ := List.mem_filterMap.1 hentry
    obtain ⟨ds, hds, hd⟩ := List.mem_flatten.1 hd
    cases d with
    | dataDecl p name tps cs =>
      obtain rfl := Option.some.inj htype
      obtain ⟨n, hn, hconstructor⟩ := List.mem_filterMap.1 hc
      cases n with
      | constructorDecl q name' fieldTypes =>
        obtain rfl := Option.some.inj hconstructor
        exact ⟨ds, hds, p, tps, cs, hd, q, fieldTypes, hn, rfl⟩
      | _ => cases hconstructor
    | _ => cases htype
  · rintro ⟨ds, hds, p, tps, cs, hd, q, fieldTypes, hn, harity⟩
    refine ⟨_, List.mem_filterMap.2 ⟨_, List.mem_flatten.2 ⟨ds, hds, hd⟩, rfl⟩, ?_⟩
    refine List.mem_filterMap.2 ⟨_, hn, ?_⟩
    rw [constructorOf?, harity]

/-! ## The check -/

variable {V : Vocabulary}

/-- A constructor as written is entered as it stands. -/
theorem forall₂_isConstructor_iff {typeName : Name} {ns : List Node} {cs : List Constructor}
    (h : ns.all isConstructorDecl = true) :
    List.Forall₂ (IsConstructor typeName) ns cs ↔ cs = ns.filterMap (constructorOf? typeName) := by
  induction ns generalizing cs with
  | nil => exact ⟨fun hcs => by cases hcs; rfl, fun hcs => hcs ▸ .nil⟩
  | cons n ns ih =>
    rw [List.all_cons, Bool.and_eq_true] at h
    cases n with
    | constructorDecl p name fieldTypes =>
      have hname := h.1
      rw [isConstructorDecl, Bool.and_eq_true] at hname
      rw [List.filterMap_cons_some (by rfl), List.forall₂_cons_left_iff]
      constructor
      · rintro ⟨c, cs', hc, hcs, rfl⟩
        rw [(ih h.2).1 hcs]
        obtain ⟨hcname, harity, htype, -⟩ := hc
        obtain ⟨cname, ctype, arity⟩ := c
        obtain rfl := Option.some.inj hcname
        obtain rfl := Option.some.inj harity
        obtain rfl := htype
        rfl
      · rintro rfl
        exact ⟨_, _, ⟨rfl, rfl, rfl, check_of_isIdent hname.1⟩, (ih h.2).2 rfl, rfl⟩
    | _ => cases h.1

/-- **Data types as written are entered as they stand.** -/
theorem forall₂_isType_iff {ds : List Node} {types : List (Name × List Constructor)}
    (h : ∀ d ∈ ds, d.isDeclaration V = true) :
    List.Forall₂ IsType (ds.filter isDataDecl) types ↔ types = ds.filterMap typeOf? := by
  induction ds generalizing types with
  | nil => exact ⟨fun htypes => by cases htypes; rfl, fun htypes => htypes ▸ .nil⟩
  | cons d ds ih =>
    obtain ⟨hd, hds⟩ := List.forall_mem_cons.1 h
    cases d with
    | dataDecl p name tps cs =>
      rw [isDeclaration, Bool.and_eq_true, Bool.and_eq_true, Bool.and_eq_true] at hd
      rw [List.filter_cons_of_pos rfl, List.filterMap_cons_some (by rfl),
        List.forall₂_cons_left_iff]
      constructor
      · rintro ⟨entry, types', hentry, htypes, rfl⟩
        obtain ⟨⟨q, tps', cs', heq, hcs⟩, -⟩ := hentry
        obtain ⟨-, rfl, -, rfl⟩ := dataDecl.inj heq
        rw [(ih hds).1 htypes, ← (forall₂_isConstructor_iff hd.2).1 hcs]
      · rintro rfl
        refine ⟨_, _, ⟨⟨p, tps, cs, rfl, (forall₂_isConstructor_iff hd.2).2 rfl⟩, ?_⟩,
          (ih hds).2 rfl, rfl⟩
        exact check_of_isIdent hd.1.1.1
    | externDecl | typeDecl | funDecl => exact ih hds
    | _ => cases hd

/-- A declaration has a name, which can be looked up. -/
theorem exists_name_of_isDeclaration {d : Node} (h : d.isDeclaration V = true) :
    ∃ name, d.name? = some name ∧ name.check = .ok () := by
  cases d with
  | externDecl | dataDecl | typeDecl | funDecl =>
    simp only [isDeclaration, Bool.and_eq_true] at h
    exact ⟨_, rfl, check_of_isIdent (by tauto)⟩
  | _ => cases h

/-- **A list of declarations is clear** if its names are distinct, and those
that are no data types are no constructors. -/
theorem isClear_iff {t : ConstructorTable} {ds : List Node}
    (h : ∀ d ∈ ds, d.isDeclaration V = true) :
    IsClear t ds ↔ Name.Distinct (ds.filterMap name?)
      ∧ ∀ d ∈ ds, d.isDataDecl = false → ∀ name, d.name? = some name → t.contains name = false := by
  have hapart : (ds.map sketch).Pairwise Apart ↔ Name.Distinct (ds.filterMap name?) := by
    unfold Name.Distinct
    rw [List.pairwise_map, List.pairwise_filterMap]
    exact ⟨fun hds => hds.imp fun hab m hm n hn => hab m n hm hn,
      fun hds => hds.imp fun hab m n hm hn => hab m hm n hn⟩
  constructor
  · rintro ⟨hnamed, hds⟩
    refine ⟨hapart.1 hds, fun d hd hdata name hname => ?_⟩
    obtain ⟨name', hname', -, hkind⟩ := hnamed d.sketch (List.mem_map_of_mem hd)
    obtain rfl := Option.some.inj (hname.symm.trans hname')
    rcases hkind with hkind | hkind
    · cases hdata.symm.trans hkind
    · exact hkind
  · rintro ⟨hds, hother⟩
    refine ⟨fun a ha => ?_, hapart.2 hds⟩
    obtain ⟨d, hd, rfl⟩ := List.mem_map.1 ha
    obtain ⟨name, hname, hcheck⟩ := exists_name_of_isDeclaration (h d hd)
    refine ⟨name, hname, hcheck, ?_⟩
    cases hdata : d.isDataDecl with
    | true => exact .inl hdata
    | false => exact .inr (hother d hd hdata name hname)

/-- **A program as written passes the check if and only if it is free of
clashes**, with the table of what it declares. -/
theorem checkDeclarations_eq_ok_iff_isClashFree {root : Node} (h : root.isProgram V = true)
    {t : ConstructorTable} :
    root.checkDeclarations = .ok t ↔ t = root.declared ∧ root.IsClashFree := by
  cases root with
  | program p ds body =>
    have hlists : (program p ds body).scopes ds = (program p ds body).declarationLists := scopes_eq
    have hdeclared : ∀ es ∈ (program p ds body).declarationLists,
        ∀ e ∈ es, e.isDeclaration V = true :=
      fun es hes => isDeclaration_of_mem_scopes h (hlists ▸ hes)
    have hall : ∀ e ∈ (program p ds body).declarationLists.flatten, e.isDeclaration V = true := by
      intro e he
      obtain ⟨es, hes, he⟩ := List.mem_flatten.1 he
      exact hdeclared es hes e he
    rw [checkDeclarations_eq_ok_iff, hlists, forall₂_isType_iff hall]
    have hcontains (name : Name) : (program p ds body).declared.contains name = false
        ↔ ∀ c, (program p ds body).Declares c → c.name.same name = false := by
      rw [ConstructorTable.contains_eq_false_iff]
      exact forall_congr' fun c => by rw [mem_all_declared]
    constructor
    · rintro ⟨htypes, hdistinct, hclear⟩
      obtain rfl : t = (program p ds body).declared := congrArg ConstructorTable.mk htypes
      have hlist := fun es hes => (isClear_iff (hdeclared es hes)).1 (hclear es hes)
      exact ⟨rfl, hdistinct.constructors, hdistinct.types, fun es hes => (hlist es hes).1,
        fun es hes d hd hdata name hname =>
          (hcontains name).1 ((hlist es hes).2 d hd hdata name hname)⟩
    · rintro ⟨rfl, hfree⟩
      refine ⟨rfl, ⟨hfree.types, hfree.constructors⟩, fun es hes => ?_⟩
      exact (isClear_iff (hdeclared es hes)).2 ⟨hfree.lists es hes, fun d hd hdata name hname =>
        (hcontains name).2 (hfree.apart es hes d hd hdata name hname)⟩
  | _ => cases h

/-- **The check of declarations accepts exactly the programs without
clashes.** For every program as it is read from the tokens of a text, before
its names are resolved: the check passes if and only if the program is free
of clashes. If it passes, then a name is found in the table exactly if the
program declares a constructor of this name, and it is found with the type
that owns the constructor and the number of its fields. -/
theorem checkDeclarations_iff_isClashFree {text : String} {s : Scanned} {levels : Nat}
    {root : Node} (hs : scan text = .ok s) (h : ofTokens levels s = .ok root) :
    ((∃ t, root.checkDeclarations = .ok t) ↔ root.IsClashFree)
      ∧ ∀ t, root.checkDeclarations = .ok t → ∀ name c,
          t.get? name = some c ↔ root.Declares c ∧ c.name.same name = true := by
  have hprogram := isProgram_of_ofTokens (proper_of_scan hs) h
  refine ⟨⟨?_, fun hfree => ?_⟩, fun t ht name c => ?_⟩
  · rintro ⟨t, ht⟩
    exact ((checkDeclarations_eq_ok_iff_isClashFree hprogram).1 ht).2
  · exact ⟨_, (checkDeclarations_eq_ok_iff_isClashFree hprogram).2 ⟨rfl, hfree⟩⟩
  · obtain ⟨rfl, hfree⟩ := (checkDeclarations_eq_ok_iff_isClashFree hprogram).1 ht
    have hdistinct : root.declared.Distinct := ⟨hfree.types, hfree.constructors⟩
    rw [hdistinct.get?_eq_some_iff, mem_all_declared]

/-- A program with a data type in a block in a function, which has a
constructor of the name of the function. -/
def hiddenText : String := "begin fun f() = begin data D = D | f end in 1 end in 2 end"

/-- Its tree. -/
def hiddenProgram : Node :=
  program (some ⟨1, 1⟩)
    [funDecl (some ⟨1, 7⟩) "f" [] []
      (block (some ⟨1, 17⟩)
        [dataDecl (some ⟨1, 23⟩) "D" []
          [constructorDecl (some ⟨1, 32⟩) "D" [], constructorDecl (some ⟨1, 36⟩) "f" []]]
        (literal (some ⟨1, 45⟩) (.int 1))) absent]
    (literal (some ⟨1, 54⟩) (.int 2))

/-- The constructor is found in the block, and the function clashes with it,
while the data type does not clash with its own constructor. -/
theorem not_isClashFree_hiddenProgram :
    ∃ s, scan hiddenText = .ok s ∧ ofTokens 4 s = .ok hiddenProgram
      ∧ hiddenProgram.checkDeclarations = .error (.of (.duplicateDeclaration "f") (some ⟨1, 7⟩))
      ∧ hiddenProgram.Declares ⟨"D", "D", 0⟩ ∧ ¬ hiddenProgram.IsClashFree := by
  obtain ⟨s, hs, htokens⟩ : ∃ s, scan hiddenText = .ok s ∧ ofTokens 4 s = .ok hiddenProgram := by
    refine ⟨?tokens, ?scanned, ?read⟩
    case scanned =>
      cbv
      rfl
    case read => rfl
  have hcheck : hiddenProgram.checkDeclarations
      = .error (.of (.duplicateDeclaration "f") (some ⟨1, 7⟩)) := by
    unfold checkDeclarations scopes
    rw [walk_eq_preorder rfl]
    rfl
  refine ⟨s, hs, htokens, hcheck, ?_, fun hfree => ?_⟩
  · exact mem_all_declared.1 (by simp [ConstructorTable.all, declared, declarationLists,
      hiddenProgram, preorder, preorderAll, block?, typeOf?, constructorOf?])
  · obtain ⟨t, ht⟩ := (checkDeclarations_iff_isClashFree hs htokens).1.2 hfree
    cases hcheck.symm.trans ht

end Node

end EmberLang
