import EmberLang.Proofs.Clashes
import EmberLang.Proofs.Upholds

/-!
# A table of constructors in three dictionaries

A table of constructors is one list, and everything else is looked up in it.
It can also be kept in dictionaries that are changed in place: the
constructors by their names, the lists of constructors by their types, and
the values of the constructors without fields, each of which is made once
and shared. The three are of use only as long as they tell the same story,
and a declaration that fails half way must not leave a part of it behind.

`ConstructorTable.Index` is such an index. Its declarations follow the steps
one by one: a type is entered only after all of its constructors have been
gone through, and then into one dictionary after the other. Whatever is
declared, and whatever of it fails, the index stays one of the table
(`Index.indexes_declareEach`), so that what is known of tables without
clashes is known of the dictionaries.
-/

namespace EmberLang

/-! ## Dictionaries -/

/-- **A dictionary** with names for keys, in the order in which the keys were
entered. -/
abbrev Dictionary (α : Type) := List (Name × α)

namespace Dictionary

variable {α : Type}

/-- What stands under a name. -/
def get? (d : Dictionary α) (name : Name) : Option α := (d.find? (·.1.same name)).map (·.2)

/-- **Enters something under a name**, in the place of what stands there. -/
def put (name : Name) (a : α) : Dictionary α → Dictionary α
  | [] => [(name, a)]
  | (n, b) :: rest => if n.same name then (n, a) :: rest else (n, b) :: put name a rest

theorem get?_eq_none_iff {d : Dictionary α} {name : Name} :
    d.get? name = none ↔ ∀ e ∈ d, e.1.same name = false := by
  simp [get?]

/-- Under a new name something is entered at the end. -/
theorem put_of_new {d : Dictionary α} {name : Name} (h : d.get? name = none) (a : α) :
    d.put name a = d ++ [(name, a)] := by
  rw [get?_eq_none_iff] at h
  induction d with
  | nil => rfl
  | cons e d ih =>
    obtain ⟨he, hd⟩ := List.forall_mem_cons.1 h
    rw [put, if_neg (by rw [he]; decide), ih hd, List.cons_append]

/-- A dictionary of things by their own names. -/
theorem get?_map {β : Type} (l : List β) (key : β → Name) (value : β → α) (name : Name) :
    get? (l.map fun b => (key b, value b)) name
      = (l.find? fun b => (key b).same name).map value := by
  rw [get?, List.find?_map, Option.map_map]
  rfl

end Dictionary

namespace ConstructorTable

/-! ## The index -/

/-- **An index of a table**: what is known by name, by type, and the values
of the constructors without fields. -/
structure Index where
  /-- The constructors by their names. -/
  byName : Dictionary Constructor
  /-- The constructors of each type, in order. -/
  byType : Dictionary (List Constructor)
  /-- The values of the constructors without fields. -/
  nullary : Dictionary Value

namespace Index

/-- The index of the table without types. -/
def empty : Index := ⟨[], [], []⟩

/-- The constructors of a type, none if there is no such type. -/
def constructorsOf (x : Index) (typeName : Name) : List Constructor :=
  (x.byType.get? typeName).getD []

/-- **A change of an index in place**, which may fail on its way. -/
abbrev Change := ExceptT Failure (StateM Index)

/-- A check that changes nothing. -/
def ensure {α : Type} (outcome : Except Failure α) : Change α := ExceptT.mk (pure outcome)

/-- The constructors of a declaration, in order; `done` holds those
before. -/
def gather (typeName : Name) (done : List Constructor) : List Node → Change (List Constructor)
  | [] => pure done
  | n :: ns =>
    match n.name? with
    | none => throw (.shape .missingPart)
    | some name => do
      ensure name.check
      if ((← get).byName.get? name).isSome || done.any (·.name.same name) then
        throw (.of (.duplicateConstructor name.text) n.position?)
      else
        match n.arity? with
        | none => throw (.shape .missingPart)
        | some arity => gather typeName (done ++ [⟨name, typeName, arity⟩]) ns

/-- Enters a constructor under its name. One without fields gets its
value. -/
def enter (c : Constructor) : Change Unit := do
  modify fun x => { x with byName := x.byName.put c.name c }
  if c.arity = 0 then
    modify fun x => { x with nullary := x.nullary.put c.name (.data c.name []) }

/-- **Declares a data type.** -/
def declare (position : Option Position) (typeName : Name) (constructors : List Node) :
    Change Unit := do
  ensure typeName.check
  if ((← get).byType.get? typeName).isSome then
    throw (.of (.duplicateDeclaration typeName.text) position)
  else
    let cs ← gather typeName [] constructors
    modify fun x => { x with byType := x.byType.put typeName cs }
    cs.forM enter

/-- **Declares the data types among some nodes**, in order. Those that fail
are passed over. -/
def declareEach (x : Index) : List Node → Index
  | [] => x
  | .dataDecl position name _ constructors :: rest =>
    (ExceptT.run (declare position name constructors) x).2.declareEach rest
  | _ :: rest => x.declareEach rest

/-- **Builds a data value.** The value of a constructor without fields is
there already. -/
def construct (x : Index) (name : Name) (fields : List Value) (position : Option Position) :
    Except Failure Value := do
  name.check
  match x.byName.get? name with
  | none => .error (.of (.unknownConstructor name.text) position)
  | some c =>
    if fields.length = c.arity then
      if c.arity = 0 then
        match x.nullary.get? name with
        | some v => return v
        | none => .error (.shape .missingItem)
      else return .data name fields
    else .error (.of (.arity name.text c.arity fields.length) position)

end Index

/-- **Declares the data types among some nodes**, in order. Those that fail
are passed over. -/
def declareEach (t : ConstructorTable) : List Node → ConstructorTable
  | [] => t
  | .dataDecl position name _ constructors :: rest =>
    ((t.declare position name constructors).toOption.getD t).declareEach rest
  | _ :: rest => t.declareEach rest

/-- The declarations among some nodes that do not fail. -/
def accepted (t : ConstructorTable) : List Node → List Node
  | [] => []
  | .dataDecl position name tps constructors :: rest =>
    match t.declare position name constructors with
    | .ok t' => .dataDecl position name tps constructors :: t'.accepted rest
    | .error _ => t.accepted rest
  | _ :: rest => t.accepted rest

/-! ## The index follows the table -/

/-- Constructors by their names. -/
def named (cs : List Constructor) : Dictionary Constructor := cs.map fun c => (c.name, c)

/-- The values of the constructors without fields, by their names. -/
def nullaries (cs : List Constructor) : Dictionary Value :=
  (cs.filter (·.arity = 0)).map fun c => (c.name, .data c.name [])

/-- **An index of a table** holds what the table holds. -/
structure Index.Indexes (x : Index) (t : ConstructorTable) : Prop where
  /-- By name. -/
  byName : x.byName = named t.all
  /-- By type. -/
  byType : x.byType = t.types
  /-- The values. -/
  nullary : x.nullary = nullaries t.all

namespace Index

variable {x : Index} {t : ConstructorTable}

theorem indexes_empty : empty.Indexes .empty := ⟨rfl, rfl, rfl⟩

theorem Indexes.get?_byName (h : x.Indexes t) (name : Name) : x.byName.get? name = t.get? name := by
  rw [h.byName]
  exact (Dictionary.get?_map t.all Constructor.name id name).trans (congrFun Option.map_id _)

theorem Indexes.isSome_byName (h : x.Indexes t) (name : Name) :
    (x.byName.get? name).isSome = t.contains name := by
  rw [h.get?_byName]
  rfl

theorem Indexes.isSome_byType (h : x.Indexes t) (name : Name) :
    (x.byType.get? name).isSome = t.typeNames.any (·.same name) := by
  rw [h.byType, Dictionary.get?, Option.isSome_map, List.isSome_find?, typeNames, List.any_map]
  rfl

theorem Indexes.constructorsOf (h : x.Indexes t) (typeName : Name) :
    x.constructorsOf typeName = t.constructorsOf typeName := by
  unfold Index.constructorsOf
  rw [h.byType]
  rfl

/-- **The values that are shared** are those of the constructors without
fields. -/
theorem Indexes.get?_nullary (h : x.Indexes t) (ht : t.Distinct) {name : Name} {v : Value} :
    x.nullary.get? name = some v
      ↔ ∃ c, t.get? name = some c ∧ c.arity = 0 ∧ v = .data c.name [] := by
  rw [h.nullary, nullaries, Dictionary.get?_map _ Constructor.name, Option.map_eq_some_iff]
  constructor
  · rintro ⟨c, hc, rfl⟩
    obtain ⟨hmem, hzero⟩ := List.mem_filter.1 (List.mem_of_find?_eq_some hc)
    have hsame := List.find?_some (p := fun c : Constructor => c.name.same name) hc
    exact ⟨c, ht.get?_eq_some_iff.2 ⟨hmem, hsame⟩, of_decide_eq_true hzero, rfl⟩
  · rintro ⟨c, hc, hzero, rfl⟩
    obtain ⟨hmem, hsame⟩ := ht.get?_eq_some_iff.1 hc
    have hmem' : c ∈ t.all.filter (·.arity = 0) := List.mem_filter.2 ⟨hmem, decide_eq_true hzero⟩
    obtain ⟨d, hd⟩ := Option.isSome_iff_exists.1
      (List.find?_isSome (p := fun c => c.name.same name).2 ⟨c, hmem', hsame⟩)
    have hdsame := List.find?_some (p := fun c : Constructor => c.name.same name) hd
    have hdmem := (List.mem_filter.1 (List.mem_of_find?_eq_some hd)).1
    obtain rfl := ht.constructors.eq_of_same hdmem hmem hdsame hsame
    exact ⟨d, hd, rfl⟩

/-! ### One declaration -/

theorem run_ensure_bind {α β : Type} {o : Except Failure α} {a : α} (h : o = .ok a)
    (k : α → Change β) (x : Index) : ExceptT.run (ensure o >>= k) x = ExceptT.run (k a) x := by
  rw [h]
  rfl

theorem run_get_bind {β : Type} (k : Index → Change β) (x : Index) :
    ExceptT.run ((get : Change Index) >>= k) x = ExceptT.run (k x) x := rfl

/-- **Going through the constructors of a declaration** changes nothing, and
comes to what it comes to for the table. -/
theorem run_gather (h : x.Indexes t) (typeName : Name) (done : List Constructor)
    (ns : List Node) :
    ExceptT.run (gather typeName done ns) x = (t.newConstructors typeName done ns, x) := by
  induction ns generalizing done with
  | nil => rfl
  | cons n ns ih =>
    unfold gather newConstructors
    cases n.name? with
    | none => rfl
    | some name =>
      dsimp only
      cases name.check with
      | error f => rfl
      | ok u =>
        rw [run_ensure_bind rfl, run_get_bind, h.isSome_byName, ok_bind]
        split
        · rfl
        · cases n.arity? with
          | none => rfl
          | some arity => exact ih _

/-- **Constructors with new names are entered** at the end, under their names
and, those without fields, with their values. -/
theorem run_forM_enter {cs : List Constructor} (hcs : Name.Distinct (cs.map (·.name)))
    (hname : ∀ c ∈ cs, x.byName.get? c.name = none)
    (hvalue : ∀ c ∈ cs, x.nullary.get? c.name = none) :
    ExceptT.run (cs.forM enter) x
      = (.ok (), ⟨x.byName ++ named cs, x.byType, x.nullary ++ nullaries cs⟩) := by
  induction cs generalizing x with
  | nil =>
    rw [named, nullaries, List.filter_nil, List.map_nil, List.map_nil, List.append_nil,
      List.append_nil]
    rfl
  | cons c cs ih =>
    obtain ⟨hc, hcs⟩ := Name.Distinct.cons_iff.1 hcs
    obtain ⟨hname, hnames⟩ := List.forall_mem_cons.1 hname
    obtain ⟨hvalue, hvalues⟩ := List.forall_mem_cons.1 hvalue
    -- What is new stays new once `c` has been entered, since its name is another.
    have hnew {α : Type} {d : Dictionary α} (a : α) (hd : ∀ e ∈ cs, d.get? e.name = none) :
        ∀ e ∈ cs, Dictionary.get? (d ++ [(c.name, a)]) e.name = none := by
      intro e he
      rw [Dictionary.get?_eq_none_iff, List.forall_mem_append, List.forall_mem_singleton]
      exact ⟨Dictionary.get?_eq_none_iff.1 (hd e he), hc e.name (List.mem_map_of_mem he)⟩
    show ExceptT.run (enter c >>= fun _ => cs.forM enter) x = _
    have hnamed : x.byName ++ named (c :: cs) = (x.byName ++ [(c.name, c)]) ++ named cs := by
      rw [List.append_assoc]
      rfl
    rw [run_bind_eq, hnamed]
    by_cases hzero : c.arity = 0
    · have henter : ExceptT.run (enter c) x = (.ok (), ⟨x.byName ++ [(c.name, c)], x.byType,
          x.nullary ++ [(c.name, .data c.name [])]⟩) := by
        unfold enter
        rw [if_pos hzero, ← Dictionary.put_of_new hname, ← Dictionary.put_of_new hvalue]
        rfl
      rw [henter]
      refine (ih hcs (hnew c hnames) (hnew _ hvalues)).trans ?_
      simp [nullaries, hzero]
    · have henter : ExceptT.run (enter c) x
          = (.ok (), ⟨x.byName ++ [(c.name, c)], x.byType, x.nullary⟩) := by
        unfold enter
        rw [if_neg hzero, ← Dictionary.put_of_new hname]
        rfl
      rw [henter]
      refine (ih (x := ⟨_, _, _⟩) hcs (hnew c hnames) hvalues).trans ?_
      simp [nullaries, hzero]

/-- **A declaration that fails leaves the index as it was.** It fails for the
table, too, and in the same way. -/
theorem run_declare_of_error (h : x.Indexes t) {p : Option Position} {name : Name}
    {ns : List Node} {f : Failure} (hf : t.declare p name ns = .error f) :
    ExceptT.run (declare p name ns) x = (.error f, x) := by
  unfold declare
  unfold ConstructorTable.declare at hf
  cases hcheck : name.check with
  | error g =>
    rw [hcheck] at hf
    obtain rfl := Except.error.inj hf
    rfl
  | ok u =>
    rw [hcheck, ok_bind] at hf
    rw [run_ensure_bind rfl, run_get_bind, h.isSome_byType]
    split at hf
    · next hknown =>
      rw [if_pos hknown]
      obtain rfl := Except.error.inj hf
      rfl
    · next hnew =>
      rw [if_neg hnew, run_bind_eq, run_gather h]
      cases hcs : t.newConstructors name [] ns with
      | ok cs =>
        rw [hcs] at hf
        cases hf
      | error g =>
        rw [hcs] at hf
        obtain rfl := Except.error.inj hf
        rfl

/-- **A declaration that does not fail** leads from an index of a table to an
index of the table with the type. -/
theorem run_declare_of_ok (h : x.Indexes t) (ht : t.Distinct) {p : Option Position} {name : Name}
    {ns : List Node} {t' : ConstructorTable} (ht' : t.declare p name ns = .ok t') :
    ∃ x', ExceptT.run (declare p name ns) x = (.ok (), x') ∧ x'.Indexes t' := by
  obtain ⟨_, hcheck, ht'⟩ := bind_eq_ok ht'
  split at ht'
  · cases ht'
  · next hnew =>
    obtain ⟨cs, hcs, ht'⟩ := bind_eq_ok ht'
    obtain rfl := Except.ok.inj ht'
    obtain ⟨_, rfl, -, hdistinct, hclear⟩ := newConstructors_eq_ok_iff.1 hcs
    have hfresh : ∀ c ∈ cs, x.byName.get? c.name = none := fun c hc => by
      rw [h.get?_byName]
      exact Option.not_isSome_iff_eq_none.1 (Bool.eq_false_iff.1 (hclear c hc).1)
    have hvalue : ∀ c ∈ cs, x.nullary.get? c.name = none := fun c hc => by
      by_contra hsome
      obtain ⟨v, hv⟩ := Option.ne_none_iff_exists'.1 hsome
      obtain ⟨d, hd, -⟩ := (h.get?_nullary ht).1 hv
      rw [← h.get?_byName, hfresh c hc] at hd
      cases hd
    have htype : x.byType.put name cs = x.byType ++ [(name, cs)] := by
      refine Dictionary.put_of_new ?_ cs
      rw [← Option.not_isSome_iff_eq_none, h.isSome_byType]
      exact hnew
    refine ⟨⟨x.byName ++ named cs, x.byType.put name cs, x.nullary ++ nullaries cs⟩, ?_, ?_⟩
    · unfold declare
      rw [run_ensure_bind hcheck, run_get_bind, h.isSome_byType, if_neg hnew, run_bind_eq,
        run_gather h, hcs]
      exact run_forM_enter (x := ⟨_, _, _⟩) hdistinct hfresh hvalue
    · have hall := t.all_append_singleton name cs
      refine ⟨?_, ?_, ?_⟩
      · rw [hall, h.byName]
        exact List.map_append.symm
      · rw [htype, h.byType]
      · rw [hall, h.nullary, nullaries, nullaries, nullaries, List.filter_append, List.map_append]

/-! ### Any number of declarations -/

theorem indexes_declareEach (h : x.Indexes t) (ht : t.Distinct) (history : List Node) :
    (x.declareEach history).Indexes (t.declareEach history) ∧ (t.declareEach history).Distinct := by
  induction history generalizing x t with
  | nil => exact ⟨h, ht⟩
  | cons d history ih =>
    cases d with
    | dataDecl p name tps ns =>
      rw [declareEach, ConstructorTable.declareEach]
      cases hdeclare : t.declare p name ns with
      | error f =>
        rw [run_declare_of_error h hdeclare]
        exact ih h ht
      | ok t' =>
        obtain ⟨x', hx', h'⟩ := run_declare_of_ok h ht hdeclare
        obtain ⟨-, -, -, ht'⟩ := (declare_eq_ok_iff ht tps).1 hdeclare
        rw [hx']
        exact ih h' ht'
    | _ => exact ih h ht

end Index

/-- **The types of the table are those that were accepted**, in the order of
their declarations, each with its constructors in order. -/
theorem forall₂_declareEach {t : ConstructorTable} (ht : t.Distinct) {declared : List Node}
    (h : List.Forall₂ Node.IsType declared t.types) (history : List Node) :
    List.Forall₂ Node.IsType (declared ++ t.accepted history) (t.declareEach history).types := by
  induction history generalizing t declared with
  | nil => rwa [accepted, List.append_nil]
  | cons d history ih =>
    cases d with
    | dataDecl p name tps ns =>
      rw [accepted, declareEach]
      cases hdeclare : t.declare p name ns with
      | error f => exact ih ht h
      | ok t' =>
        obtain ⟨entry, hentry, rfl, ht'⟩ := (declare_eq_ok_iff ht tps).1 hdeclare
        have h' : List.Forall₂ Node.IsType (declared ++ [.dataDecl p name tps ns])
            (t.types ++ [entry]) := List.rel_append h (.cons hentry .nil)
        dsimp only
        rw [List.append_cons]
        exact ih ht' h'
    | _ => exact ih ht h

/-! ## What is known of the dictionaries -/

/-- A type is found by its name. -/
theorem Distinct.find?_types {t : ConstructorTable} (ht : t.Distinct)
    {entry : Name × List Constructor} (h : entry ∈ t.types) {typeName : Name}
    (hname : entry.1.same typeName = true) :
    t.types.find? (·.1.same typeName) = some entry := by
  obtain ⟨other, hother⟩ := Option.isSome_iff_exists.1
    (List.find?_isSome (p := fun e : Name × List Constructor => e.1.same typeName).2
      ⟨entry, h, hname⟩)
  have hsame := List.find?_some (p := fun e : Name × List Constructor => e.1.same typeName) hother
  have hmem := List.mem_of_find?_eq_some hother
  have hdistinct : Name.Distinct (t.types.map Prod.fst) := ht.types
  rw [hother, hdistinct.eq_of_same hmem h hsame hname]

/-- **The list of a type holds the constructors that belong to it**: those
that are found by their names and have it for their type. -/
theorem mem_constructorsOf_iff {t : ConstructorTable} (ht : t.Distinct) {declared : List Node}
    (h : List.Forall₂ Node.IsType declared t.types) {typeName : Name} {c : Constructor} :
    c ∈ t.constructorsOf typeName
      ↔ t.get? c.name = some c ∧ c.typeName.same typeName = true := by
  have howner : ∀ entry ∈ t.types, ∀ c ∈ entry.2, c.typeName = entry.1 := by
    intro entry hentry c hc
    obtain ⟨d, -, hd⟩ := exists_mem_of_forall₂ h hentry
    obtain ⟨⟨_, _, ns, -, hns⟩, -⟩ := hd
    obtain ⟨n, -, hn⟩ := exists_mem_of_forall₂ hns hc
    exact hn.typeName
  rw [ht.get?_eq_some_iff]
  constructor
  · intro hc
    unfold constructorsOf at hc
    cases hfind : t.types.find? (·.1.same typeName) with
    | none =>
      rw [hfind] at hc
      cases hc
    | some entry =>
      rw [hfind] at hc
      have hentry := List.mem_of_find?_eq_some hfind
      have hsame :=
        List.find?_some (p := fun e : Name × List Constructor => e.1.same typeName) hfind
      rw [howner entry hentry c hc]
      exact ⟨⟨List.mem_flatMap.2 ⟨entry, hentry, hc⟩, Name.same_self _⟩, hsame⟩
  · rintro ⟨⟨hc, -⟩, hname⟩
    obtain ⟨entry, hentry, hc⟩ := List.mem_flatMap.1 hc
    rw [howner entry hentry c hc] at hname
    unfold constructorsOf
    rw [ht.find?_types hentry hname]
    exact hc

namespace Index

/-- **An index is consistent** with the declarations that were accepted. -/
structure IsConsistent (x : Index) (declared : List Node) : Prop where
  /-- The types are those that were declared, in order, each with its
  constructors in order. -/
  inOrder : List.Forall₂ Node.IsType declared x.byType
  /-- What is found by a name has that name. -/
  byName : ∀ name c, x.byName.get? name = some c → c.name.same name = true
  /-- The list of a type holds exactly those constructors that are found by
  their names and belong to the type. -/
  ofType : ∀ typeName c, c ∈ x.constructorsOf typeName
    ↔ x.byName.get? c.name = some c ∧ c.typeName.same typeName = true
  /-- No name stands twice, in one list or in two. -/
  once : Name.Distinct ((x.byType.flatMap (·.2)).map (·.name))
  /-- The values that are shared are those of the constructors without
  fields. -/
  nullary : ∀ name v, x.nullary.get? name = some v
    ↔ ∃ c, x.byName.get? name = some c ∧ c.arity = 0 ∧ v = .data c.name []

theorem Indexes.isConsistent {x : Index} {t : ConstructorTable} (h : x.Indexes t)
    (ht : t.Distinct) {declared : List Node} (hd : List.Forall₂ Node.IsType declared t.types) :
    x.IsConsistent declared where
  inOrder := h.byType ▸ hd
  byName name c hc := by
    rw [h.get?_byName] at hc
    exact (ht.get?_eq_some_iff.1 hc).2
  ofType typeName c := by
    rw [h.constructorsOf, h.get?_byName]
    exact mem_constructorsOf_iff ht hd
  once := by
    rw [h.byType]
    exact ht.constructors
  nullary name v := by
    rw [h.get?_byName]
    exact h.get?_nullary ht

/-- **The index builds what the table builds.** -/
theorem Indexes.construct_eq {x : Index} {t : ConstructorTable} (h : x.Indexes t)
    (ht : t.Distinct) (name : Name) (fields : List Value) (p : Option Position) :
    x.construct name fields p = t.construct name fields p := by
  unfold construct ConstructorTable.construct lookup
  cases name.check with
  | error f => rfl
  | ok u =>
    rw [ok_bind, ok_bind, h.get?_byName]
    cases hc : t.get? name with
    | none => rfl
    | some c =>
      show (if fields.length = c.arity then _ else _) = if fields.length = c.arity then _ else _
      split
      · next hlength =>
        split
        · next hzero =>
          -- The value is there: this is where two dictionaries have to agree.
          rw [(h.get?_nullary ht).2 ⟨c, hc, hzero, rfl⟩]
          obtain rfl := List.length_eq_zero_iff.1 (hlength.trans hzero)
          rfl
        · next hpos =>
          cases fields with
          | nil => exact absurd hlength.symm hpos
          | cons v vs => rfl
      · rfl

end Index

/-- **What building a value comes to** for a name that can be looked up. -/
theorem construct_cases (t : ConstructorTable) {name : Name} (hname : name.key?.isSome = true)
    (fields : List Value) (p : Option Position) :
    t.get? name = none
        ∧ t.construct name fields p = .error (.of (.unknownConstructor name.text) p)
      ∨ ∃ c, t.get? name = some c
        ∧ (fields.length ≠ c.arity
            ∧ t.construct name fields p = .error (.of (.arity name.text c.arity fields.length) p)
          ∨ fields.length = c.arity
            ∧ t.construct name fields p
              = .ok (.data (if fields.isEmpty then c.name else name) fields)) := by
  have hcheck : name.check = .ok () := if_pos hname
  unfold construct lookup
  rw [hcheck, ok_bind]
  cases t.get? name with
  | none => exact .inl ⟨rfl, rfl⟩
  | some c =>
    refine .inr ⟨c, rfl, ?_⟩
    show _ ∧ (if fields.length = c.arity then _ else _) = _
      ∨ _ ∧ (if fields.length = c.arity then _ else _) = _
    by_cases hlength : fields.length = c.arity
    · exact .inr ⟨hlength, if_pos hlength⟩
    · exact .inl ⟨hlength, if_neg hlength⟩

/-- A declaration describes its constructors in one way only. -/
theorem eq_of_isType {d : Node} {entry entry' : Name × List Constructor} (h : d.IsType entry)
    (h' : d.IsType entry') : entry = entry' := by
  obtain ⟨⟨p, tps, ns, rfl, hns⟩, -⟩ := h
  obtain ⟨⟨_, _, _, heq, hns'⟩, -⟩ := h'
  obtain ⟨rfl, hname, rfl, rfl⟩ := Node.dataDecl.inj heq
  have hunique : Relator.RightUnique (Node.IsConstructor entry.1) := by
    rintro n ⟨name, type, arity⟩ ⟨name', type', arity'⟩ hc hc'
    obtain rfl : name = name' := Option.some.inj (hc.name.symm.trans hc'.name)
    obtain rfl : arity = arity' := Option.some.inj (hc.arity.symm.trans hc'.arity)
    obtain rfl : type = type' := hc.typeName.trans hc'.typeName.symm
    rfl
  rw [← hname] at hns'
  exact Prod.ext hname (hunique.forall₂ hns hns')

/-- **When a declaration fails**: the type is known, or one of its
constructors is, or two of them have one name. -/
theorem exists_declare_eq_error_iff {t : ConstructorTable} (ht : t.Distinct) {p : Option Position}
    {name : Name} {tps : List Name} {ns : List Node} {cs : List Constructor}
    (h : Node.IsType (.dataDecl p name tps ns) (name, cs)) :
    (∃ f, t.declare p name ns = .error f) ↔
      (∃ m ∈ t.typeNames, m.same name = true) ∨ (∃ c ∈ cs, t.contains c.name = true)
        ∨ ¬ Name.Distinct (cs.map (·.name)) := by
  have hok : (∃ t', t.declare p name ns = .ok t') ↔ Distinct ⟨t.types ++ [(name, cs)]⟩ := by
    constructor
    · rintro ⟨t', ht'⟩
      obtain ⟨entry, hentry, rfl, hdistinct⟩ := (declare_eq_ok_iff ht tps).1 ht'
      rwa [← eq_of_isType hentry h]
    · exact fun hdistinct => ⟨_, (declare_eq_ok_iff ht tps).2 ⟨_, h, rfl, hdistinct⟩⟩
  have hfails : (∃ f, t.declare p name ns = .error f) ↔ ¬ ∃ t', t.declare p name ns = .ok t' := by
    cases t.declare p name ns <;> simp
  rw [hfails, hok, distinct_append_singleton_iff ht]
  simp only [← Bool.not_eq_true]
  grind

/-- The constructor at which a declaration fails. -/
theorem newConstructors_eq_error {t : ConstructorTable} {typeName : Name}
    {done cs : List Constructor} {ns : List Node} {f : Failure}
    (h : List.Forall₂ (Node.IsConstructor typeName) ns cs)
    (hf : t.newConstructors typeName done ns = .error f) :
    ∃ n ∈ ns, ∃ c ∈ cs, n.name? = some c.name
      ∧ f = .of (.duplicateConstructor c.name.text) n.position? := by
  induction h generalizing done with
  | nil => cases hf
  | @cons n c ns cs hn hns ih =>
    unfold newConstructors at hf
    rw [hn.name] at hf
    dsimp only at hf
    rw [hn.check, ok_bind] at hf
    split at hf
    · obtain rfl := Except.error.inj hf
      exact ⟨n, List.mem_cons_self, c, List.mem_cons_self, hn.name, rfl⟩
    · rw [hn.arity] at hf
      obtain ⟨m, hm, d, hd, hmd⟩ := ih hf
      exact ⟨m, List.mem_cons_of_mem _ hm, d, List.mem_cons_of_mem _ hd, hmd⟩

/-- **How a declaration fails**: with the name of its type, at its own place,
or with the name of a constructor, at that one's place. -/
theorem declare_eq_error {t : ConstructorTable} {p : Option Position} {name : Name}
    {tps : List Name} {ns : List Node} {cs : List Constructor} {f : Failure}
    (h : Node.IsType (.dataDecl p name tps ns) (name, cs)) (hf : t.declare p name ns = .error f) :
    f = .of (.duplicateDeclaration name.text) p
      ∨ ∃ n ∈ ns, ∃ c ∈ cs, n.name? = some c.name
        ∧ f = .of (.duplicateConstructor c.name.text) n.position? := by
  obtain ⟨⟨_, _, _, heq, hns⟩, hcheck⟩ := h
  obtain ⟨rfl, -, rfl, rfl⟩ := Node.dataDecl.inj heq
  unfold declare at hf
  dsimp only at hcheck
  rw [hcheck, ok_bind] at hf
  split at hf
  · exact .inl (Except.error.inj hf).symm
  · cases hcs : t.newConstructors name [] ns with
    | error g =>
      rw [hcs] at hf
      obtain rfl := Except.error.inj hf
      exact .inr (newConstructors_eq_error hns hcs)
    | ok new =>
      rw [hcs] at hf
      cases hf

/-- **Dictionaries of constructors stay in step** over any history of
declarations, where those that fail are passed over. The index holds what
the table holds, and is consistent with the declarations that were accepted.
It builds what the table builds: a name that can be looked up is unknown, or
the number of the fields is wrong, or there is a value. A further declaration
fails exactly if its type is known, or one of its constructors is, or two of
them have one name, and says so. One that fails, for this or for its shape,
leaves the index as it was; and one that does not makes it an index of the
table with the new type. -/
theorem declareEach_consistent (history : List Node) :
    let t := empty.declareEach history
    let x := Index.empty.declareEach history
    x.Indexes t ∧ x.IsConsistent (empty.accepted history)
      ∧ (∀ name fields p, x.construct name fields p = t.construct name fields p)
      ∧ (∀ name fields p, name.key?.isSome = true →
        t.get? name = none
            ∧ x.construct name fields p = .error (.of (.unknownConstructor name.text) p)
          ∨ ∃ c, t.get? name = some c
            ∧ (fields.length ≠ c.arity ∧ x.construct name fields p
                = .error (.of (.arity name.text c.arity fields.length) p)
              ∨ fields.length = c.arity ∧ x.construct name fields p
                = .ok (.data (if fields.isEmpty then c.name else name) fields)))
      ∧ (∀ p name tps ns cs, Node.IsType (.dataDecl p name tps ns) (name, cs) →
        ((∃ f, t.declare p name ns = .error f) ↔
          (∃ m ∈ t.typeNames, m.same name = true) ∨ (∃ c ∈ cs, t.contains c.name = true)
            ∨ ¬ Name.Distinct (cs.map (·.name)))
        ∧ ∀ f, t.declare p name ns = .error f →
          f = .of (.duplicateDeclaration name.text) p
            ∨ ∃ n ∈ ns, ∃ c ∈ cs, n.name? = some c.name
              ∧ f = .of (.duplicateConstructor c.name.text) n.position?)
      ∧ (∀ p name ns f, t.declare p name ns = .error f →
        ExceptT.run (Index.declare p name ns) x = (.error f, x))
      ∧ ∀ p name ns t', t.declare p name ns = .ok t' →
        ∃ x', ExceptT.run (Index.declare p name ns) x = (.ok (), x') ∧ x'.Indexes t' := by
  intro t x
  obtain ⟨hindexes, hdistinct⟩ :=
    Index.indexes_declareEach Index.indexes_empty distinct_empty history
  have hdeclared := forall₂_declareEach distinct_empty .nil history
  refine ⟨hindexes, hindexes.isConsistent hdistinct hdeclared, ?_, ?_, ?_, ?_, ?_⟩
  · exact hindexes.construct_eq hdistinct
  · intro name fields p hname
    rw [hindexes.construct_eq hdistinct]
    exact t.construct_cases hname fields p
  · exact fun p name tps ns cs h =>
      ⟨exists_declare_eq_error_iff hdistinct h, fun f hf => declare_eq_error h hf⟩
  · exact fun p name ns f => Index.run_declare_of_error hindexes
  · exact fun p name ns t' => Index.run_declare_of_ok hindexes hdistinct

open Node (dataDecl constructorDecl absent)

/-- Four declarations, of which the second fails at its second constructor
and the third for its own name. -/
def shapeHistory : List Node :=
  [dataDecl none "Shape" []
      [constructorDecl none "Dot" [], constructorDecl none "Box" [absent, absent]],
    dataDecl none "Path" [] [constructorDecl none "Line" [absent], constructorDecl none "Dot" []],
    dataDecl none "Shape" [] [constructorDecl none "Ring" [absent]],
    dataDecl none "Line" [] [constructorDecl none "Line" [], constructorDecl none "Ring" []]]

/-- After them a declaration that uses the name of a constructor twice fails,
and leaves the index as it was; the constructors of the declaration that
failed half way can be declared. -/
theorem declareEach_shapeHistory :
    let t := empty.declareEach shapeHistory
    let x := Index.empty.declareEach shapeHistory
    t.typeNames = ["Shape", "Line"] ∧ t.all.map (·.name) = ["Dot", "Box", "Line", "Ring"]
      ∧ x.nullary.map (·.1) = ["Dot", "Line", "Ring"]
      ∧ x.construct "Box" [.unit] none = .error (.of (.arity "Box" 2 1) none)
      ∧ ∃ f, t.declare none "Knot" [constructorDecl none "Loop" [], constructorDecl none "Loop" []]
          = .error f
        ∧ ExceptT.run (Index.declare none "Knot"
            [constructorDecl none "Loop" [], constructorDecl none "Loop" []]) x
          = (.error f, x) := by
  intro t x
  obtain ⟨-, -, hbuilds, -, hfails, hkept, -⟩ := declareEach_consistent shapeHistory
  have hknot : Node.IsType
      (dataDecl none "Knot" [] [constructorDecl none "Loop" [], constructorDecl none "Loop" []])
      ("Knot", [⟨"Loop", "Knot", 0⟩, ⟨"Loop", "Knot", 0⟩]) :=
    ⟨⟨none, [], _, rfl, .cons ⟨rfl, rfl, rfl, rfl⟩ (.cons ⟨rfl, rfl, rfl, rfl⟩ .nil)⟩, rfl⟩
  have htwice : ¬ Name.Distinct ["Loop", "Loop"] := fun h =>
    absurd ((Name.Distinct.cons_iff.1 h).1 "Loop" List.mem_cons_self) (by decide)
  obtain ⟨f, hf⟩ := (hfails none "Knot" [] _ _ hknot).1.2 (.inr (.inr htwice))
  exact ⟨rfl, rfl, rfl, hbuilds _ _ _, f, hf, hkept _ _ _ _ hf⟩

end ConstructorTable

end EmberLang
