import EmberLang.Tree.Declarations
import EmberLang.Proofs.Outcome
import Mathlib.Data.List.Find
import Mathlib.Data.List.Pairwise
import Mathlib.Data.List.Perm.Basic

/-!
# When the declarations of a program do not clash

The check of declarations goes through them one by one and keeps lists of
what it has seen, so what it reports depends on their order. Whether it
reports anything does not: it passes exactly if no two types, no two
constructors and no two declarations of a scope share a name, and no
declaration besides the data types has the name of a constructor
(`Node.checkDeclarations_eq_ok_iff`). Each of these conditions is about
pairs of names, whatever their order.
-/

namespace EmberLang

/-- **No two of some names are the same.** -/
def Name.Distinct (names : List Name) : Prop := names.Pairwise fun m n => m.same n = false

namespace Name.Distinct

theorem nil : Distinct [] := List.Pairwise.nil

theorem perm {ns ms : List Name} (h : ns.Perm ms) (hns : Distinct ns) : Distinct ms := by
  refine (h.pairwise_iff ?_).1 hns
  intro m n hmn
  rw [Name.same_comm, hmn]

theorem append_iff {ns ms : List Name} : Distinct (ns ++ ms)
    ↔ Distinct ns ∧ Distinct ms ∧ ∀ n ∈ ns, ∀ m ∈ ms, n.same m = false :=
  List.pairwise_append

theorem cons_iff {n : Name} {ns : List Name} :
    Distinct (n :: ns) ↔ (∀ m ∈ ns, n.same m = false) ∧ Distinct ns :=
  List.pairwise_cons

/-- **Of things with distinct names, at most one has a given name.** -/
theorem eq_of_same {α : Type} {l : List α} {name : α → Name} (hl : Distinct (l.map name))
    {a b : α} (ha : a ∈ l) (hb : b ∈ l) {x : Name} (hax : (name a).same x = true)
    (hbx : (name b).same x = true) : a = b := by
  by_contra hne
  have hsame : (name a).same (name b) = true :=
    Name.same_trans hax (Name.same_comm (name b) x ▸ hbx)
  have hsymm : Std.Symm fun a b : α => (name a).same (name b) = false :=
    ⟨fun c d hcd => by rw [Name.same_comm, hcd]⟩
  have hdistinct := (List.pairwise_map.1 hl).forall ha hb hne
  rw [hsame] at hdistinct
  cases hdistinct

/-- It is found in whatever order they are looked through. -/
theorem find?_eq {α : Type} {l l' : List α} (name : α → Name) (h : l.Perm l')
    (hl : Distinct (l.map name)) (x : Name) :
    l.find? (fun a => (name a).same x) = l'.find? fun a => (name a).same x := by
  refine List.find?_eq_find?_of_perm h ?_
  rintro a ⟨ha, hax⟩ b ⟨hb, hbx⟩
  exact eq_of_same hl ha hb hax hbx

end Name.Distinct

/-- What is in the second of two lists comes from something in the
first. -/
theorem exists_mem_of_forall₂ {α β : Type} {R : α → β → Prop} {l : List α} {l' : List β}
    (h : List.Forall₂ R l l') {b : β} (hb : b ∈ l') : ∃ a ∈ l, R a b := by
  induction h with
  | nil => cases hb
  | @cons a b' l l' hab _ ih =>
    rcases List.mem_cons.1 hb with rfl | hb
    · exact ⟨a, List.mem_cons_self, hab⟩
    · obtain ⟨c, hc, hcb⟩ := ih hb
      exact ⟨c, List.mem_cons_of_mem a hc, hcb⟩

/-! ## The table of constructors -/

/-- **A node declares a constructor** of a type. -/
structure Node.IsConstructor (typeName : Name) (n : Node) (c : Constructor) : Prop where
  /-- Its name. -/
  name : n.name? = some c.name
  /-- The number of its fields. -/
  arity : n.arity? = some c.arity
  /-- Its type. -/
  typeName : c.typeName = typeName
  /-- The name can be looked up. -/
  check : c.name.check = .ok ()

/-- **A node declares a data type** with its constructors. -/
structure Node.IsType (n : Node) (entry : Name × List Constructor) : Prop where
  /-- It is a declaration of the type. -/
  declares : ∃ p tps cs, n = .dataDecl p entry.1 tps cs
    ∧ List.Forall₂ (Node.IsConstructor entry.1) cs entry.2
  /-- The name can be looked up. -/
  check : entry.1.check = .ok ()

namespace ConstructorTable

/-- **A table without clashes**: no two types and no two constructors share
a name. -/
structure Distinct (t : ConstructorTable) : Prop where
  /-- The types. -/
  types : Name.Distinct t.typeNames
  /-- The constructors. -/
  constructors : Name.Distinct (t.all.map (·.name))

theorem distinct_empty : empty.Distinct := ⟨.nil, .nil⟩

theorem all_append (types types' : List (Name × List Constructor)) :
    all ⟨types ++ types'⟩ = all ⟨types⟩ ++ all ⟨types'⟩ := List.flatMap_append

theorem all_append_singleton (t : ConstructorTable) (name : Name) (cs : List Constructor) :
    all ⟨t.types ++ [(name, cs)]⟩ = t.all ++ cs := by
  rw [all_append]
  exact congrArg (t.all ++ ·) (List.flatMap_singleton ..)

theorem contains_eq_false_iff {t : ConstructorTable} {x : Name} :
    t.contains x = false ↔ ∀ c ∈ t.all, c.name.same x = false := by
  unfold contains get?
  rw [← Bool.not_eq_true, List.find?_isSome]
  simp

/-- A new table with the same types in another order. -/
theorem Distinct.perm {t t' : ConstructorTable} (h : t.types.Perm t'.types) (ht : t.Distinct) :
    t'.Distinct :=
  ⟨ht.types.perm (h.map _), ht.constructors.perm ((h.flatMap_right _).map _)⟩

/-- **Constructors are found whatever the order of the types.** -/
theorem Distinct.get?_eq {t t' : ConstructorTable} (h : t.types.Perm t'.types)
    (ht : t.Distinct) (x : Name) : t'.get? x = t.get? x :=
  (Name.Distinct.find?_eq Constructor.name (h.flatMap_right _) ht.constructors x).symm

/-- **In a table without clashes every constructor is found** by its name. -/
theorem Distinct.get?_eq_some_iff {t : ConstructorTable} (h : t.Distinct)
    {name : Name} {c : Constructor} :
    t.get? name = some c ↔ c ∈ t.all ∧ c.name.same name = true := by
  unfold get?
  constructor
  · intro hc
    exact ⟨List.mem_of_find?_eq_some hc,
      List.find?_some (p := fun c : Constructor => c.name.same name) hc⟩
  · rintro ⟨hc, hname⟩
    obtain ⟨d, hd⟩ := Option.isSome_iff_exists.1
      (List.find?_isSome.2 ⟨c, hc, hname⟩ : (t.all.find? (·.name.same name)).isSome = true)
    have hdname : d.name.same name = true :=
      List.find?_some (p := fun c : Constructor => c.name.same name) hd
    rw [hd, h.constructors.eq_of_same (List.mem_of_find?_eq_some hd) hc hdname hname]

/-- **The constructors of a declaration enter the table** if their names
are new to the table and to each other. -/
theorem newConstructors_eq_ok_iff {t : ConstructorTable} {typeName : Name}
    {done cs : List Constructor} {ns : List Node} :
    t.newConstructors typeName done ns = .ok cs ↔
      ∃ new, cs = done ++ new ∧ List.Forall₂ (Node.IsConstructor typeName) ns new
        ∧ Name.Distinct (new.map (·.name))
        ∧ ∀ c ∈ new, t.contains c.name = false ∧ ∀ d ∈ done, d.name.same c.name = false := by
  -- The induction is over what is still to come; `done` holds the rest.
  induction ns generalizing done with
  | nil =>
    constructor
    · intro h
      obtain rfl := Except.ok.inj h
      exact ⟨[], (List.append_nil _).symm, .nil, .nil, List.forall_mem_nil _⟩
    · rintro ⟨new, rfl, hnew, -⟩
      cases hnew
      exact congrArg Except.ok (List.append_nil _).symm
  | cons n ns ih =>
    constructor
    · intro h
      unfold newConstructors at h
      split at h
      · cases h
      · next name hname =>
        obtain ⟨_, hcheck, h⟩ := bind_eq_ok h
        split at h
        · cases h
        · next hfresh =>
          split at h
          · cases h
          · next arity harity =>
            obtain ⟨new, rfl, hnew, hdistinct, hclear⟩ := ih.1 h
            rw [Bool.not_eq_true, Bool.or_eq_false_iff, List.any_eq_false] at hfresh
            refine ⟨⟨name, typeName, arity⟩ :: new, by simp,
              .cons ⟨hname, harity, rfl, hcheck⟩ hnew,
              ?_, ?_⟩
            · rw [List.map_cons, Name.Distinct.cons_iff]
              refine ⟨?_, hdistinct⟩
              intro m hm
              obtain ⟨c, hc, rfl⟩ := List.mem_map.1 hm
              exact (hclear c hc).2 ⟨name, typeName, arity⟩ (by simp)
            · refine List.forall_mem_cons.2 ⟨⟨hfresh.1, fun d hd => ?_⟩, fun c hc => ?_⟩
              · exact Bool.eq_false_iff.2 (hfresh.2 d hd)
              · exact ⟨(hclear c hc).1, fun d hd => (hclear c hc).2 d (by simp [hd])⟩
    · rintro ⟨new, rfl, hnew, hdistinct, hclear⟩
      cases hnew with
      | @cons _ c _ new hc hnew =>
        rw [List.map_cons, Name.Distinct.cons_iff] at hdistinct
        obtain ⟨⟨hnot, hdone⟩, hclear⟩ := List.forall_mem_cons.1 hclear
        have hfresh : (t.contains c.name || done.any (·.name.same c.name)) = false := by
          rw [Bool.or_eq_false_iff, List.any_eq_false]
          exact ⟨hnot, fun d hd => Bool.eq_false_iff.1 (hdone d hd)⟩
        unfold newConstructors
        rw [hc.name]
        dsimp only
        rw [hc.check, hc.arity]
        show (if (t.contains c.name || done.any (·.name.same c.name)) = true then _ else _) = _
        rw [hfresh]
        have hentry : (⟨c.name, typeName, c.arity⟩ : Constructor) = c := by
          rw [← hc.typeName]
        refine ih.2 ⟨new, by rw [hentry]; simp, hnew, hdistinct.2,
          fun d hd => ⟨(hclear d hd).1, ?_⟩⟩
        intro e he
        rw [hentry] at he
        rcases List.mem_append.1 he with he | he
        · exact (hclear d hd).2 e he
        · obtain rfl := List.mem_singleton.1 he
          exact hdistinct.1 d.name (List.mem_map_of_mem hd)

/-- What it takes for a table with one more type to be without clashes. -/
theorem distinct_append_singleton_iff {t : ConstructorTable} (ht : t.Distinct) {name : Name}
    {cs : List Constructor} :
    Distinct ⟨t.types ++ [(name, cs)]⟩ ↔
      (∀ m ∈ t.typeNames, m.same name = false) ∧ Name.Distinct (cs.map (·.name))
        ∧ ∀ c ∈ cs, t.contains c.name = false := by
  have htypes : typeNames ⟨t.types ++ [(name, cs)]⟩ = t.typeNames ++ [name] := List.map_append
  have hall := t.all_append_singleton name cs
  constructor
  · rintro ⟨hnames, hcs⟩
    rw [htypes, Name.Distinct.append_iff] at hnames
    rw [hall, List.map_append, Name.Distinct.append_iff] at hcs
    refine ⟨fun m hm => hnames.2.2 m hm name List.mem_cons_self, hcs.2.1, fun c hc => ?_⟩
    refine contains_eq_false_iff.2 fun d hd => ?_
    exact hcs.2.2 d.name (List.mem_map_of_mem hd) c.name (List.mem_map_of_mem hc)
  · rintro ⟨hnames, hdistinct, hclear⟩
    refine ⟨?_, ?_⟩
    · rw [htypes, Name.Distinct.append_iff]
      refine ⟨ht.types, List.pairwise_singleton _ _, fun m hm n hn => ?_⟩
      obtain rfl := List.mem_singleton.1 hn
      exact hnames m hm
    · rw [hall, List.map_append, Name.Distinct.append_iff]
      refine ⟨ht.constructors, hdistinct, fun m hm n hn => ?_⟩
      obtain ⟨d, hd, rfl⟩ := List.mem_map.1 hm
      obtain ⟨c, hc, rfl⟩ := List.mem_map.1 hn
      exact contains_eq_false_iff.1 (hclear c hc) d hd

/-- **A data type enters a table without clashes** exactly if the table
stays without. -/
theorem declare_eq_ok_iff {t t' : ConstructorTable} (ht : t.Distinct) {p : Option Position}
    {name : Name} (tps : List Name) {ns : List Node} :
    t.declare p name ns = .ok t' ↔
      ∃ entry, Node.IsType (.dataDecl p name tps ns) entry ∧ t' = ⟨t.types ++ [entry]⟩
        ∧ t'.Distinct := by
  constructor
  · intro h
    obtain ⟨_, hcheck, h⟩ := bind_eq_ok h
    split at h
    · cases h
    · next hnew =>
      obtain ⟨cs, hcs, h⟩ := bind_eq_ok h
      obtain rfl := Except.ok.inj h
      obtain ⟨_, rfl, hns, hdistinct, hclear⟩ := newConstructors_eq_ok_iff.1 hcs
      refine ⟨_, ⟨⟨p, tps, ns, rfl, hns⟩, hcheck⟩, rfl, (distinct_append_singleton_iff ht).2
        ⟨fun m hm => ?_, hdistinct, fun c hc => (hclear c hc).1⟩⟩
      rw [Bool.not_eq_true, List.any_eq_false] at hnew
      exact Bool.eq_false_iff.2 (hnew m hm)
  · rintro ⟨⟨name', cs⟩, ⟨⟨q, tps', ns', heq, hns⟩, hcheck⟩, rfl, hdistinct⟩
    obtain ⟨rfl, rfl, rfl, rfl⟩ := Node.dataDecl.inj heq
    obtain ⟨hnames, hcs, hclear⟩ := (distinct_append_singleton_iff ht).1 hdistinct
    have hnew : t.typeNames.any (·.same name) = false := by
      rw [List.any_eq_false]
      exact fun m hm => Bool.eq_false_iff.1 (hnames m hm)
    have hok : t.newConstructors name [] ns = .ok cs :=
      newConstructors_eq_ok_iff.2 ⟨cs, rfl, hns, hcs, fun c hc =>
        ⟨hclear c hc, List.forall_mem_nil _⟩⟩
    unfold declare
    dsimp only at hcheck
    rw [hcheck]
    show (if t.typeNames.any (·.same name) = true then _ else _) = _
    rw [hnew, hok]
    rfl

/-- **Data types enter a table without clashes** exactly if they leave it
without. -/
theorem declareAll_eq_ok_iff {t t' : ConstructorTable} (ht : t.Distinct) {ds : List Node} :
    t.declareAll ds = .ok t' ↔
      ∃ new, List.Forall₂ Node.IsType (ds.filter Node.isDataDecl) new
        ∧ t' = ⟨t.types ++ new⟩ ∧ t'.Distinct := by
  induction ds generalizing t with
  | nil =>
    constructor
    · intro h
      obtain rfl := Except.ok.inj h
      exact ⟨[], .nil, by simp, ht⟩
    · rintro ⟨new, hnew, rfl, -⟩
      cases hnew
      exact congrArg Except.ok (by simp)
  | cons d ds ih =>
    cases d with
    | dataDecl p name tps ns =>
      rw [List.filter_cons_of_pos rfl]
      constructor
      · intro h
        obtain ⟨t₁, h₁, h⟩ := bind_eq_ok h
        obtain ⟨entry, hentry, rfl, ht₁⟩ := (declare_eq_ok_iff ht tps).1 h₁
        obtain ⟨new, hnew, rfl, ht'⟩ := (ih ht₁).1 h
        exact ⟨entry :: new, .cons hentry hnew, by simp, ht'⟩
      · rintro ⟨new, hnew, rfl, ht'⟩
        cases hnew with
        | @cons _ entry _ new hentry hnew =>
          have happend : t.types ++ entry :: new = (t.types ++ [entry]) ++ new := by simp
          -- A table that is the first part of one without clashes is without them.
          have ht₁ : Distinct ⟨t.types ++ [entry]⟩ := by
            refine ⟨?_, ?_⟩
            · have htypes := ht'.types
              rw [typeNames, happend, List.map_append, Name.Distinct.append_iff] at htypes
              exact htypes.1
            · have hcs := ht'.constructors
              rw [happend, all_append, List.map_append, Name.Distinct.append_iff] at hcs
              exact hcs.1
          show (t.declare p name ns >>= fun t₁ => t₁.declareAll ds) = _
          rw [(declare_eq_ok_iff ht tps).2 ⟨entry, hentry, rfl, ht₁⟩]
          refine (ih ht₁).2 ⟨new, hnew, ?_, ht'⟩
          rw [happend]
    | _ => exact ih ht

end ConstructorTable

/-! ## Scopes -/

namespace Node

/-- What the check of a scope looks at in a declaration. -/
def sketch (d : Node) : Option Name × Bool := (d.name?, d.isDataDecl)

/-- Two declarations with different names. -/
def Apart (a b : Option Name × Bool) : Prop :=
  ∀ m n, a.1 = some m → b.1 = some n → m.same n = false

/-- **A scope without clashes**: no two declarations have the same name,
and none besides data types has the name of a constructor. -/
structure IsClear (t : ConstructorTable) (ds : List Node) : Prop where
  /-- Every declaration has a name, which can be looked up. -/
  named : ∀ a ∈ ds.map sketch, ∃ n, a.1 = some n ∧ n.check = .ok ()
    ∧ (a.2 = true ∨ t.contains n = false)
  /-- The names differ. -/
  apart : (ds.map sketch).Pairwise Apart

/-- Whether a scope is without clashes does not depend on its order. -/
theorem IsClear.perm {t t' : ConstructorTable} {ds ds' : List Node} (h : IsClear t ds)
    (ht : ∀ x, t'.get? x = t.get? x) (hperm : (ds.map sketch).Perm (ds'.map sketch)) :
    IsClear t' ds' where
  named a ha := by
    unfold ConstructorTable.contains
    simp only [ht]
    exact h.named a (hperm.mem_iff.2 ha)
  apart := by
    refine (hperm.pairwise_iff fun {a b} hab m n hm hn => ?_).1 h.apart
    rw [Name.same_comm, hab n m hn hm]

theorem checkScope_eq_ok_iff_seen {t : ConstructorTable} {seen : List Name} {ds : List Node} :
    checkScope t seen ds = .ok () ↔
      IsClear t ds ∧ ∀ d ∈ ds, ∀ n, d.name? = some n → ∀ m ∈ seen, m.same n = false := by
  -- The names seen so far grow along the declarations, so that the statement is
  -- for any of them.
  induction ds generalizing seen with
  | nil => exact ⟨fun _ => ⟨⟨List.forall_mem_nil _, .nil⟩, List.forall_mem_nil _⟩, fun _ => rfl⟩
  | cons d ds ih =>
    constructor
    · intro h
      unfold checkScope at h
      split at h
      · cases h
      · next name hname =>
        obtain ⟨_, hcheck, h⟩ := bind_eq_ok h
        split at h
        · cases h
        · next hfresh =>
          rw [Bool.not_eq_true, Bool.or_eq_false_iff, List.any_eq_false, Bool.and_eq_false_iff,
            Bool.not_eq_false'] at hfresh
          obtain ⟨hclear, hseen⟩ := ih.1 h
          refine ⟨⟨?_, ?_⟩, ?_⟩
          · rw [List.map_cons, List.forall_mem_cons]
            exact ⟨⟨name, hname, hcheck, hfresh.2⟩, hclear.named⟩
          · rw [List.map_cons, List.pairwise_cons]
            refine ⟨fun b hb m n hm hn => ?_, hclear.apart⟩
            obtain ⟨e, he, rfl⟩ := List.mem_map.1 hb
            obtain rfl : name = m := Option.some.inj (hname.symm.trans hm)
            exact hseen e he n hn name List.mem_cons_self
          · refine List.forall_mem_cons.2 ⟨fun n hn m hm => ?_, fun e he n hn m hm => ?_⟩
            · obtain rfl : name = n := Option.some.inj (hname.symm.trans hn)
              exact Bool.eq_false_iff.2 (hfresh.1 m hm)
            · exact hseen e he n hn m (List.mem_cons_of_mem _ hm)
    · rintro ⟨⟨hnamed, hapart⟩, hseen⟩
      rw [List.map_cons, List.forall_mem_cons] at hnamed
      rw [List.map_cons, List.pairwise_cons] at hapart
      obtain ⟨⟨name, hname, hcheck, hkind⟩, hnamed⟩ := hnamed
      obtain ⟨hd, hseen⟩ := List.forall_mem_cons.1 hseen
      have hfresh : (seen.any (·.same name) || (!d.isDataDecl && t.contains name)) = false := by
        rw [Bool.or_eq_false_iff, List.any_eq_false, Bool.and_eq_false_iff, Bool.not_eq_false']
        exact ⟨fun m hm => Bool.eq_false_iff.1 (hd name hname m hm), hkind⟩
      unfold checkScope
      dsimp only [sketch] at hname
      rw [hname]
      dsimp only
      rw [hcheck]
      show (if (seen.any (·.same name) || (!d.isDataDecl && t.contains name)) = true then _ else _)
        = _
      rw [hfresh]
      refine ih.2 ⟨⟨hnamed, hapart.2⟩,
        fun e he n hn => List.forall_mem_cons.2 ⟨?_, hseen e he n hn⟩⟩
      exact hapart.1 e.sketch (List.mem_map_of_mem he) name n hname hn

/-- **A scope passes its check** exactly if it is without clashes. -/
theorem checkScope_eq_ok_iff {t : ConstructorTable} {ds : List Node} :
    checkScope t [] ds = .ok () ↔ IsClear t ds :=
  checkScope_eq_ok_iff_seen.trans
    ⟨And.left, fun h => ⟨h, fun _ _ _ _ => List.forall_mem_nil _⟩⟩

theorem forM_eq_ok_iff {α : Type} {l : List α} {f : α → Except Failure Unit} :
    l.forM f = .ok () ↔ ∀ a ∈ l, f a = .ok () := by
  induction l with
  | nil => exact ⟨fun _ => List.forall_mem_nil _, fun _ => rfl⟩
  | cons a l ih =>
    rw [List.forall_mem_cons]
    constructor
    · intro h
      obtain ⟨_, ha, h⟩ := bind_eq_ok h
      exact ⟨ha, ih.1 h⟩
    · rintro ⟨ha, h⟩
      show (f a >>= fun _ => l.forM f) = _
      rw [ha]
      exact ih.2 h

/-- **A program passes the check of its declarations** exactly if no two
data types and no two constructors anywhere in it share a name, and all
its scopes are without clashes. The table holds what was declared. -/
theorem checkDeclarations_eq_ok_iff {p : Option Position} {ds : List Node} {body : Node}
    {t : ConstructorTable} :
    (program p ds body).checkDeclarations = .ok t ↔
      List.Forall₂ IsType (((program p ds body).scopes ds).flatten.filter isDataDecl) t.types
        ∧ t.Distinct ∧ ∀ es ∈ (program p ds body).scopes ds, IsClear t es := by
  constructor
  · intro h
    obtain ⟨t', ht', h⟩ := bind_eq_ok h
    obtain ⟨_, hscopes, h⟩ := bind_eq_ok h
    obtain rfl := Except.ok.inj h
    obtain ⟨new, hnew, rfl, hdistinct⟩ :=
      (ConstructorTable.declareAll_eq_ok_iff ConstructorTable.distinct_empty).1 ht'
    exact ⟨hnew, hdistinct, fun es hes => checkScope_eq_ok_iff.1 (forM_eq_ok_iff.1 hscopes es hes)⟩
  · rintro ⟨hnew, hdistinct, hclear⟩
    show (ConstructorTable.empty.declareAll ((program p ds body).scopes ds).flatten >>= _) = _
    rw [(ConstructorTable.declareAll_eq_ok_iff ConstructorTable.distinct_empty).2
      ⟨t.types, hnew, rfl, hdistinct⟩]
    show (((program p ds body).scopes ds).forM (checkScope t []) >>= _) = _
    rw [forM_eq_ok_iff.2 fun es hes => checkScope_eq_ok_iff.2 (hclear es hes)]
    rfl

end Node

end EmberLang
