import EmberLang.Case.Pattern
import EmberLang.Proofs.Clashes
import Mathlib.Data.List.Forall2

/-!
# What a pattern asks for

A pattern is resolved once and then matched with values. Both are said here
without the order in which they go about it.

Resolving a pattern goes through it from the left with a list of the
variables seen so far. What comes of it depends on the pattern as a whole
(`Node.resolvePattern_eq_ok_iff`): its constructors must agree with the
table, no two of its variables may be the same, and the list grows by its
variables.

A value is an *instance* of a pattern if it has the pattern's shape
(`Value.IsInstanceOf`). Matching asks for less, because it pairs
sub-patterns with fields only as far as both go. An instance is a value
that matches and that has, wherever the pattern looks into data, as many
fields as the pattern has sub-patterns (`Value.isInstanceOf_iff`). The
bindings of a match are the variables of the pattern, each with the part of
the value at the variable's place, as far as the value has such parts
(`Node.matchPattern_eq_some`).
-/

namespace EmberLang

/-! ## Resolving -/

theorem ConstructorTable.lookup_eq_ok_iff {t : ConstructorTable} {name : Name}
    {p : Option Position} {c : Constructor} :
    t.lookup name p = .ok c ↔ name.key?.isSome = true ∧ t.get? name = some c := by
  unfold lookup Name.check
  split
  · next hkey =>
    rw [ok_bind]
    cases t.get? name <;> simp [hkey, Pure.pure, Except.pure]
  · next hkey => simp [hkey, Bind.bind, Except.bind]

namespace Node

mutual

/-- **The variables of a pattern**: its bare names but those of
constructors. -/
def patternVars (t : ConstructorTable) : Node → List Name
  | patternVar _ name => if t.contains name then [] else [name]
  | patternCtor _ _ args => patternVarsAll t args
  | _ => []

/-- The variables of several patterns. -/
def patternVarsAll (t : ConstructorTable) : List Node → List Name
  | [] => []
  | n :: ns => patternVars t n ++ patternVarsAll t ns

end

mutual

/-- **A pattern whose bare names are told apart**: those of constructors
become patterns for the constructors. -/
def resolvedPattern (t : ConstructorTable) : Node → Node
  | patternVar p name => if t.contains name then patternCtor p name [] else patternVar p name
  | patternCtor p c args => patternCtor p c (resolvedPatterns t args)
  | n => n

/-- Several patterns whose bare names are told apart. -/
def resolvedPatterns (t : ConstructorTable) : List Node → List Node
  | [] => []
  | n :: ns => resolvedPattern t n :: resolvedPatterns t ns

end

mutual

/-- **Whether a pattern agrees with the table**: every constructor in it is
known and has as many sub-patterns as it takes fields, none if it stands as
a bare name. -/
def agreesWith (t : ConstructorTable) : Node → Bool
  | patternVar _ name => name.key?.isSome && (t.get? name).all (·.arity == 0)
  | patternCtor _ c args =>
    c.key?.isSome && (t.get? c).any (·.arity == args.length) && allAgreeWith t args
  | _ => true

/-- Whether several patterns agree with the table. -/
def allAgreeWith (t : ConstructorTable) : List Node → Bool
  | [] => true
  | n :: ns => agreesWith t n && allAgreeWith t ns

end

variable {t : ConstructorTable}

/-- A name can join names that are distinct if it is none of them. -/
theorem distinct_append_singleton {names : List Name} (hnames : Name.Distinct names)
    (name : Name) : Name.Distinct (names ++ [name]) ↔ names.any (·.same name) = false := by
  rw [Name.Distinct.append_iff, List.any_eq_false]
  simp [hnames, Name.Distinct.cons_iff, Name.Distinct.nil]

mutual

/-- **When and to what a pattern is resolved**, behind variables that are
distinct. -/
theorem resolvePattern_eq_ok_iff (n : Node) {names names' : List Name} {r : Node}
    (hnames : Name.Distinct names) :
    n.resolvePattern t names = .ok (r, names') ↔
      n.agreesWith t = true ∧ Name.Distinct (names ++ n.patternVars t)
        ∧ r = n.resolvedPattern t ∧ names' = names ++ n.patternVars t := by
  cases n with
  | patternVar p name =>
    rw [resolvePattern, agreesWith, patternVars, resolvedPattern, ConstructorTable.contains]
    unfold Name.check
    cases hkey : name.key?.isSome with
    | false => simp [Bind.bind, Except.bind]
    | true =>
      rw [if_pos rfl, ok_bind]
      cases t.get? name with
      | some c =>
        by_cases hc : c.arity = 0
        · simp [hc, hnames, eq_comm]
        · simp [hc]
      | none =>
        cases hany : names.any (·.same name) with
        | true => simp [distinct_append_singleton hnames, hany]
        | false => simp [distinct_append_singleton hnames, hany, eq_comm]
  | patternCtor p c args =>
    rw [resolvePattern, agreesWith, patternVars, resolvedPattern]
    constructor
    · intro h
      obtain ⟨known, hknown, h⟩ := bind_eq_ok h
      obtain ⟨hkey, hget⟩ := ConstructorTable.lookup_eq_ok_iff.1 hknown
      split at h
      · next hlength =>
        obtain ⟨⟨rs, names₁⟩, hargs, h⟩ := bind_eq_ok h
        obtain ⟨hagree, hdistinct, rfl, rfl⟩ := (resolvePatterns_eq_ok_iff args hnames).1 hargs
        obtain ⟨rfl, rfl⟩ := Prod.mk.inj (Except.ok.inj h)
        exact ⟨by simp [hkey, hget, hlength, hagree], hdistinct, rfl, rfl⟩
      · cases h
    · rintro ⟨hagree, hdistinct, rfl, rfl⟩
      simp only [Bool.and_eq_true, Option.any_eq_true, beq_iff_eq] at hagree
      obtain ⟨⟨hkey, known, hget, hlength⟩, hargs⟩ := hagree
      rw [ConstructorTable.lookup_eq_ok_iff.2 ⟨hkey, hget⟩, ok_bind, if_pos hlength.symm,
        (resolvePatterns_eq_ok_iff args hnames).2 ⟨hargs, hdistinct, rfl, rfl⟩]
      rfl
  | _ => simp [resolvePattern, agreesWith, patternVars, resolvedPattern, hnames, eq_comm]

theorem resolvePatterns_eq_ok_iff (ns : List Node) {names names' : List Name} {rs : List Node}
    (hnames : Name.Distinct names) :
    resolvePatterns t names ns = .ok (rs, names') ↔
      allAgreeWith t ns = true ∧ Name.Distinct (names ++ patternVarsAll t ns)
        ∧ rs = resolvedPatterns t ns ∧ names' = names ++ patternVarsAll t ns := by
  cases ns with
  | nil =>
    rw [resolvePatterns, allAgreeWith, patternVarsAll, resolvedPatterns]
    simp [hnames, eq_comm]
  | cons n ns =>
    rw [resolvePatterns, allAgreeWith, patternVarsAll, resolvedPatterns, ← List.append_assoc,
      Bool.and_eq_true]
    constructor
    · intro h
      obtain ⟨⟨r, names₁⟩, hn, h⟩ := bind_eq_ok h
      obtain ⟨hagree, hdistinct, rfl, rfl⟩ := (resolvePattern_eq_ok_iff n hnames).1 hn
      obtain ⟨⟨rs', names₂⟩, hns, h⟩ := bind_eq_ok h
      obtain ⟨hagrees, hdistincts, rfl, rfl⟩ := (resolvePatterns_eq_ok_iff ns hdistinct).1 hns
      obtain ⟨rfl, rfl⟩ := Prod.mk.inj (Except.ok.inj h)
      exact ⟨⟨hagree, hagrees⟩, hdistincts, rfl, rfl⟩
    · rintro ⟨⟨hagree, hagrees⟩, hdistincts, rfl, rfl⟩
      have hdistinct := (Name.Distinct.append_iff.1 hdistincts).1
      rw [(resolvePattern_eq_ok_iff n hnames).2 ⟨hagree, hdistinct, rfl, rfl⟩, ok_bind]
      dsimp only
      rw [(resolvePatterns_eq_ok_iff ns hdistinct).2 ⟨hagrees, hdistincts, rfl, rfl⟩]
      rfl

end

end Node

/-! ## Instances -/

/-- **A value is an instance of a pattern**: bare names and `_` stand for any
one value, a constant for an equal one of its kind, and a constructor for
data of this constructor, with one field for each sub-pattern and of its
shape. -/
inductive Value.IsInstanceOf : Value → Node → Prop
  | wild {v : Value} {p : Option Position} : IsInstanceOf v (.patternWild p)
  | var {v : Value} {p : Option Position} {name : Name} : IsInstanceOf v (.patternVar p name)
  | constant {v : Value} {p : Option Position} {k l : Literal} (is : v.literal? = some k)
      (same : k.same l = true) : IsInstanceOf v (.patternLit p l)
  | data {c d : Name} {p : Option Position} {fields : List Value} {args : List Node}
      (same : c.same d = true) (shapes : List.Forall₂ IsInstanceOf fields args) :
      IsInstanceOf (.data d fields) (.patternCtor p c args)

namespace Node

mutual

/-- **Whether data has as many fields as a pattern has sub-patterns**,
wherever the pattern looks into data. -/
def countsFields : Node → Value → Bool
  | patternCtor _ _ args, .data _ fields => countsAllFields args fields
  | _, _ => true

/-- Whether there are as many values as patterns, and each has the fields
that its pattern asks for. -/
def countsAllFields : List Node → List Value → Bool
  | [], [] => true
  | n :: ns, v :: vs => countsFields n v && countsAllFields ns vs
  | _, _ => false

end

/-- **What matches a constructor** is data of the same one, whose fields
match. -/
theorem exists_data_of_matchPattern {p : Option Position} {c : Name} {args : List Node} {v : Value}
    {start bindings : List (Name × Value)}
    (h : (patternCtor p c args).matchPattern start v = some bindings) :
    ∃ d fields, v = .data d fields ∧ c.same d = true
      ∧ matchPatterns start args fields = some bindings := by
  cases v with
  | data d fields =>
    rw [matchPattern] at h
    split at h
    · next same => exact ⟨d, fields, rfl, same, h⟩
    · cases h
  | _ => simp [matchPattern] at h

end Node

namespace Value

open Node (matchPattern matchPatterns countsFields countsAllFields)

mutual

/-- **An instance is a value that matches and has the fields that the
pattern asks for.** -/
theorem isInstanceOf_iff (start : List (Name × Value)) (n : Node) (v : Value) :
    v.IsInstanceOf n ↔
      (n.matchPattern start v).isSome = true ∧ n.countsFields v = true := by
  cases n with
  | patternWild p => simp [matchPattern, countsFields, IsInstanceOf.wild]
  | patternVar p name => simp [matchPattern, countsFields, IsInstanceOf.var]
  | patternLit p l =>
    constructor
    · rintro (_ | _ | ⟨is, same⟩)
      simp [matchPattern, countsFields, is, same]
    · rintro ⟨hmatch, -⟩
      rw [matchPattern] at hmatch
      split at hmatch
      · next k is =>
        split at hmatch
        · next same => exact .constant is same
        · cases hmatch
      · cases hmatch
  | patternCtor p c args =>
    constructor
    · rintro (_ | _ | _ | @⟨_, d, _, fields, _, same, shapes⟩)
      rw [matchPattern, countsFields, if_pos same]
      exact (areInstances_iff start args fields).1 shapes
    · rintro ⟨hmatch, hcount⟩
      obtain ⟨bindings, hmatch⟩ := Option.isSome_iff_exists.1 hmatch
      obtain ⟨d, fields, rfl, same, hfields⟩ := Node.exists_data_of_matchPattern hmatch
      refine .data same ((areInstances_iff start args fields).2 ⟨?_, hcount⟩)
      rw [hfields, Option.isSome_some]
  | _ =>
    constructor
    · rintro ⟨⟩
    · rintro ⟨hmatch, -⟩
      simp [matchPattern] at hmatch

theorem areInstances_iff (start : List (Name × Value)) (ns : List Node) (vs : List Value) :
    List.Forall₂ IsInstanceOf vs ns ↔
      (matchPatterns start ns vs).isSome = true ∧ countsAllFields ns vs = true := by
  cases ns with
  | nil => cases vs <;> simp [matchPatterns, countsAllFields]
  | cons n ns =>
    cases vs with
    | nil => simp [countsAllFields]
    | cons v vs =>
      rw [List.forall₂_cons, isInstanceOf_iff start n v, matchPatterns, countsAllFields,
        Bool.and_eq_true]
      cases hn : n.matchPattern start v with
      | none => simp
      | some bindings =>
        rw [areInstances_iff bindings ns vs]
        simp only [Option.isSome_some, true_and]
        exact and_left_comm

end

end Value

/-! ## Bindings -/

namespace Value

/-- **The part of a value at a place**, where a place is the numbers of the
fields that lead to it, from the outside. -/
def part? : Value → List Nat → Option Value
  | v, [] => some v
  | data _ fields, i :: place => (fields[i]?).bind fun field => field.part? place
  | _, _ :: _ => none

/-- **Names with the parts of a value at their places**, as far as the value
has such parts. -/
def partsAt (v : Value) (entries : List (Name × List Nat)) : List (Name × Value) :=
  entries.filterMap fun e => (v.part? e.2).map fun w => (e.1, w)

theorem partsAt_append (v : Value) (es es' : List (Name × List Nat)) :
    v.partsAt (es ++ es') = v.partsAt es ++ v.partsAt es' := List.filterMap_append

/-- Going into a field of data. -/
theorem partsAt_map_cons (d : Name) (fields : List Value) (i : Nat)
    (es : List (Name × List Nat)) :
    (data d fields).partsAt (es.map fun e => (e.1, i :: e.2))
      = (fields[i]?).elim [] (·.partsAt es) := by
  unfold partsAt
  rw [List.filterMap_map]
  cases hi : fields[i]? with
  | none => simp [part?, hi]
  | some field => simp [part?, hi]

/-- **If all places have a part**, then each name gets the part at its
place. -/
theorem forall₂_partsAt {v : Value} {es : List (Name × List Nat)}
    (h : ∀ e ∈ es, (v.part? e.2).isSome = true) :
    List.Forall₂ (fun e b => b.1 = e.1 ∧ v.part? e.2 = some b.2) es (v.partsAt es) := by
  induction es with
  | nil => exact .nil
  | cons e es ih =>
    obtain ⟨he, hes⟩ := List.forall_mem_cons.1 h
    obtain ⟨w, hw⟩ := Option.isSome_iff_exists.1 he
    have hcons : v.partsAt (e :: es) = (e.1, w) :: v.partsAt es := by
      simp [partsAt, hw]
    rw [hcons]
    exact .cons ⟨rfl, hw⟩ (ih hes)

end Value

namespace Node

mutual

/-- **The variables of a resolved pattern with their places**, from the
left. -/
def places : Node → List (Name × List Nat)
  | patternVar _ name => [(name, [])]
  | patternCtor _ _ args => placesFrom 0 args
  | _ => []

/-- The variables of several patterns that stand for the fields from a
number on. -/
def placesFrom (i : Nat) : List Node → List (Name × List Nat)
  | [] => []
  | n :: ns => (places n).map (fun e => (e.1, i :: e.2)) ++ placesFrom (i + 1) ns

end

/-- Behind the last field there is nothing. -/
theorem partsAt_placesFrom_of_le {fields : List Value} {i : Nat} (h : fields.length ≤ i)
    (d : Name) (ns : List Node) : (Value.data d fields).partsAt (placesFrom i ns) = [] := by
  induction ns generalizing i with
  | nil => rfl
  | cons n ns ih =>
    rw [placesFrom, Value.partsAt_append, Value.partsAt_map_cons, List.getElem?_eq_none h,
      ih (Nat.le_succ_of_le h)]
    rfl

mutual

/-- **What a match binds**: each variable to the part of the value at its
place, as far as there is one. -/
theorem matchPattern_eq_some (n : Node) {v : Value} {start bindings : List (Name × Value)}
    (h : n.matchPattern start v = some bindings) : bindings = start ++ v.partsAt n.places := by
  cases n with
  | patternVar p name =>
    rw [matchPattern] at h
    exact (Option.some.inj h).symm
  | patternCtor p c args =>
    obtain ⟨d, fields, rfl, -, hfields⟩ := exists_data_of_matchPattern h
    exact matchPatterns_eq_some args d [] hfields
  | patternWild p =>
    rw [matchPattern] at h
    rw [← Option.some.inj h]
    exact (List.append_nil start).symm
  | patternLit p l =>
    rw [matchPattern] at h
    split at h
    · split at h
      · rw [← Option.some.inj h]
        exact (List.append_nil start).symm
      · cases h
    · cases h
  | _ => simp [matchPattern] at h

/-- The same for the fields of data behind some others. -/
theorem matchPatterns_eq_some (ns : List Node) {vs : List Value}
    {start bindings : List (Name × Value)} (d : Name) (before : List Value)
    (h : matchPatterns start ns vs = some bindings) :
    bindings = start ++ (Value.data d (before ++ vs)).partsAt (placesFrom before.length ns) := by
  cases ns with
  | nil =>
    rw [matchPatterns] at h
    · rw [← Option.some.inj h]
      exact (List.append_nil start).symm
    · simp
  | cons n ns =>
    cases vs with
    | nil =>
      rw [matchPatterns] at h
      · rw [← Option.some.inj h, List.append_nil, partsAt_placesFrom_of_le (Nat.le_refl _),
          List.append_nil]
      · simp
    | cons v vs =>
      rw [matchPatterns] at h
      split at h
      · next middle hmiddle =>
        -- The field is passed over, so that the next place is counted from the first field.
        have hrest := matchPatterns_eq_some ns d (before ++ [v]) h
        rw [List.append_assoc, List.length_append] at hrest
        rw [hrest, matchPattern_eq_some n hmiddle, placesFrom, Value.partsAt_append,
          Value.partsAt_map_cons, List.getElem?_append_right (Nat.le_refl _), Nat.sub_self,
          List.append_assoc]
        rfl
      · cases h

end

end Node

namespace Value

mutual

/-- **An instance has a part at each place of the pattern.** -/
theorem isSome_part?_of_isInstanceOf (n : Node) {v : Value} (h : v.IsInstanceOf n) :
    ∀ e ∈ n.places, (v.part? e.2).isSome = true := by
  cases h with
  | wild => exact List.forall_mem_nil _
  | var => exact List.forall_mem_singleton.2 rfl
  | constant is same => exact List.forall_mem_nil _
  | @data c d p fields args same shapes => exact isSome_part?_of_fields args d [] shapes

theorem isSome_part?_of_fields (ns : List Node) {vs : List Value} (d : Name)
    (before : List Value) (h : List.Forall₂ IsInstanceOf vs ns) :
    ∀ e ∈ Node.placesFrom before.length ns,
      ((data d (before ++ vs)).part? e.2).isSome = true := by
  cases h with
  | nil => exact List.forall_mem_nil _
  | @cons v n vs ns hv hvs =>
    rw [Node.placesFrom]
    refine List.forall_mem_append.2 ⟨List.forall_mem_map.2 fun e he => ?_, ?_⟩
    · have hpart := isSome_part?_of_isInstanceOf n hv e he
      simpa [part?] using hpart
    · have hrest := isSome_part?_of_fields ns d (before ++ [v]) hvs
      rwa [List.append_assoc, List.length_append] at hrest

end

/-- **A match with an instance binds every variable** of the pattern to the
part at its place. -/
theorem IsInstanceOf.forall₂_bindings {n : Node} {v : Value} (h : v.IsInstanceOf n)
    {bindings : List (Name × Value)} (hmatch : n.matchPattern [] v = some bindings) :
    List.Forall₂ (fun e b => b.1 = e.1 ∧ v.part? e.2 = some b.2) n.places bindings := by
  obtain rfl := n.matchPattern_eq_some hmatch
  exact forall₂_partsAt (isSome_part?_of_isInstanceOf n h)

theorem IsInstanceOf.names_bindings {n : Node} {v : Value} (h : v.IsInstanceOf n)
    {bindings : List (Name × Value)} (hmatch : n.matchPattern [] v = some bindings) :
    bindings.map (·.1) = n.places.map (·.1) := by
  have hnames := (h.forall₂_bindings hmatch).imp fun _ _ he => he.1
  rw [← List.forall₂_eq_eq_eq, List.forall₂_map_left_iff, List.forall₂_map_right_iff]
  exact hnames.flip

end Value

namespace Node

variable {t : ConstructorTable}

mutual

/-- **The variables of a pattern keep their names and their order** when it
is resolved. -/
theorem names_places_resolvedPattern (n : Node) :
    (n.resolvedPattern t).places.map (·.1) = n.patternVars t := by
  cases n with
  | patternVar p name =>
    rw [resolvedPattern, patternVars]
    split <;> rfl
  | patternCtor p c args => exact names_placesFrom_resolvedPatterns 0 args
  | _ => rfl

theorem names_placesFrom_resolvedPatterns (i : Nat) (ns : List Node) :
    (placesFrom i (resolvedPatterns t ns)).map (·.1) = patternVarsAll t ns := by
  cases ns with
  | nil => rfl
  | cons n ns =>
    rw [resolvedPatterns, placesFrom, patternVarsAll, List.map_append, List.map_map,
      names_placesFrom_resolvedPatterns (i + 1) ns, ← names_places_resolvedPattern n]
    rfl

end

end Node

end EmberLang
