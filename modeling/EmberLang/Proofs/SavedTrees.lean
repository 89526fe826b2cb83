import EmberLang.Proofs.Outcome
import EmberLang.Tree.Saved

/-!
# Saving a tree loses nothing

A tree that is saved and loaded again is the same tree: every part, the
kind of every literal, every type and the position of every node. This
holds of trees of any shape, whatever stands in the places of their nodes,
and of everything that loading returns.

The one thing a tree must not do is to hide a string among the values that
are no words. A string in the place of a name is loaded as a word, so a
name that is a value has to be a value of another kind. `Name.isLoaded` is
this condition; loading never breaks it, and a tree is its own copy exactly
if all its names meet it.

The proof has two halves, one along the tree and one along the JSON value.
Both look at an object through the members it is asked for, of which only
`pos` and `__type__` can be missing from a saved node.
-/

namespace EmberLang

/-! ## Names as they are loaded -/

namespace Name

/-- Whether a name has the form in which it is loaded: a string is a
word. -/
def isLoaded : Name → Bool
  | other (.str _) => false
  | _ => true

theorem isLoaded_ofJson (j : Json) : (ofJson j).isLoaded = true := by cases j <;> rfl

theorem ofJson_toJson {n : Name} (h : n.isLoaded = true) : ofJson n.toJson = n := by
  cases n with
  | word s => rfl
  | other j =>
    cases j with
    | str s => cases h
    | _ => rfl

theorem map_ofJson_toJson {names : List Name} (h : names.all isLoaded = true) :
    (names.map toJson).map ofJson = names := by
  induction names with
  | nil => rfl
  | cons n names ih =>
    rw [List.all_cons, Bool.and_eq_true] at h
    simp only [List.map_cons, ofJson_toJson h.1, ih h.2]

theorem all_isLoaded_map_ofJson (js : List Json) : (js.map ofJson).all isLoaded = true := by
  simp [isLoaded_ofJson]

end Name

namespace TypeSpec

mutual

/-- Whether the names of a type have the form in which they are loaded. -/
def isLoaded : TypeSpec → Bool
  | mk kind args => kind.isLoaded && areLoaded args

/-- Whether the names of several types have it. -/
def areLoaded : List TypeSpec → Bool
  | [] => true
  | t :: ts => isLoaded t && areLoaded ts

end

end TypeSpec

namespace Node

mutual

/-- **Whether the names of a tree have the form in which they are
loaded.** -/
def isLoaded : Node → Bool
  | atom _ => true
  | typeSpec t => t.isLoaded
  | program _ ds b => areLoaded ds && isLoaded b
  | externDecl _ name tps pts r =>
    name.isLoaded && tps.all Name.isLoaded && areLoaded pts && isLoaded r
  | dataDecl _ name tps cs => name.isLoaded && tps.all Name.isLoaded && areLoaded cs
  | constructorDecl _ name fts => name.isLoaded && areLoaded fts
  | typeDecl _ name tps t => name.isLoaded && tps.all Name.isLoaded && isLoaded t
  | param _ name t => name.isLoaded && isLoaded t
  | funDecl _ name tps ps b r =>
    name.isLoaded && tps.all Name.isLoaded && areLoaded ps && isLoaded b && isLoaded r
  | literal _ _ => true
  | unit _ => true
  | var _ name => name.isLoaded
  | call _ c as => isLoaded c && areLoaded as
  | intrinsicCall _ op as => op.isLoaded && areLoaded as
  | directiveCall _ name as => name.isLoaded && areLoaded as
  | construct _ c as => c.isLoaded && areLoaded as
  | arm _ t b => isLoaded t && isLoaded b
  | caseOf _ s as => isLoaded s && areLoaded as
  | letIn _ name v b t => name.isLoaded && isLoaded v && isLoaded b && isLoaded t
  | seq _ f r => isLoaded f && isLoaded r
  | lambda _ ps b => ps.all Name.isLoaded && isLoaded b
  | block _ ds b => areLoaded ds && isLoaded b
  | patternVar _ name => name.isLoaded
  | patternWild _ => true
  | patternLit _ _ => true
  | patternCtor _ c as => c.isLoaded && areLoaded as

/-- Whether the names of several trees have it. -/
def areLoaded : List Node → Bool
  | [] => true
  | n :: ns => isLoaded n && areLoaded ns

end

theorem areLoaded_map_text {α : Type} (f : α → String) (xs : List α) :
    areLoaded (xs.map fun x => .atom (.text (f x))) = true := by
  induction xs with
  | nil => rfl
  | cons x xs ih => exact ih

end Node

/-! ## What is saved can be loaded -/

namespace TypeSpec

mutual

/-- **A saved type is loaded as it was.** -/
theorem ofJson_toJson {t : TypeSpec} (h : t.isLoaded = true) : ofJson t.toJson = .ok t := by
  cases t with
  | mk kind args =>
    rw [isLoaded, Bool.and_eq_true] at h
    have hargs : ofJsonAll (toJsonAll args) = .ok args := ofJsonAll_toJsonAll h.2
    simp [toJson, ofJson, Saved.name, Saved.required, Json.member?, argsIn, listOfJson,
      Name.ofJson_toJson h.1, hargs]

/-- Saved types are loaded as they were. -/
theorem ofJsonAll_toJsonAll {ts : List TypeSpec} (h : areLoaded ts = true) :
    ofJsonAll (toJsonAll ts) = .ok ts := by
  cases ts with
  | nil => rfl
  | cons t ts =>
    rw [areLoaded, Bool.and_eq_true] at h
    rw [toJsonAll, ofJsonAll, ofJson_toJson h.1, ofJsonAll_toJsonAll h.2]
    rfl

end

end TypeSpec

namespace Saved

theorem name_cons {key : String} (hkey : key ≠ "type") {n : Name} (h : n.isLoaded = true)
    (c : Json) (ms : List (String × Json)) :
    name key (("type", c) :: (key, n.toJson) :: ms) = .ok n := by
  simp [name, required, Json.member?, hkey.symm, Name.ofJson_toJson h]

theorem namesOf_namesToJson {names : List Name} (h : names.all Name.isLoaded = true) :
    namesOf (Node.namesToJson names) = .ok names := by
  rw [Node.namesToJson, namesOf, itemsOf, ok_bind, Name.map_ofJson_toJson h]
  rfl

theorem optionalNames_cons {names : List Name} (h : names.all Name.isLoaded = true)
    (c n : Json) (ms : List (String × Json)) :
    optionalNames "type_params"
      (("type", c) :: ("name", n) :: ("type_params", Node.namesToJson names) :: ms)
      = .ok names := by
  simp [optionalNames, Json.member?, namesOf_namesToJson h]

theorem literal_cons (c : Json) (v : Literal) (ms : List (String × Json)) :
    literal (("type", c) :: ("value", v.toJson) :: ("kind", .str v.kind.name) :: ms) = .ok v := by
  cases v <;> rfl

end Saved

namespace Node

/-! The members before its position are those a saved node always has; none
of them is `pos` or `__type__`. -/

@[simp]
theorem isSavedType_cons {key : String} (hkey : key ≠ "__type__") (j : Json)
    (ms : List (String × Json)) : isSavedType ((key, j) :: ms) = isSavedType ms := by
  rw [isSavedType, isSavedType, Json.member?, if_neg hkey]

@[simp]
theorem isSavedType_positionMember (p : Option Position) :
    isSavedType (positionMember p) = false := by
  cases p <;> rfl

@[simp]
theorem position_cons {key : String} (hkey : key ≠ "pos") (j : Json) (ms : List (String × Json)) :
    Saved.position ((key, j) :: ms) = Saved.position ms := by
  rw [Saved.position, Saved.position, Json.member?, if_neg hkey]

@[simp]
theorem position_positionMember (p : Option Position) :
    Saved.position (positionMember p) = .ok p := by
  cases p <;> rfl

theorem savedClass_cons (c : String) (ms : List (String × Json)) :
    savedClass (("type", .str c) :: ms) = .str c := rfl

mutual

/-- **A saved tree is loaded as it was**, with its positions, the kinds of
its literals and its types. -/
theorem ofJson_toJson {n : Node} (h : n.isLoaded = true) : ofJson n.toJson = .ok n := by
  cases n with
  | atom a => cases a <;> rfl
  | typeSpec t =>
    simp [toJson, ofJson, isSavedType, Saved.required, Json.member?, TypeSpec.ofJson_toJson h]
  | program p ds b | block p ds b =>
    simp only [isLoaded, Bool.and_eq_true] at h
    obtain ⟨hds, hb⟩ := h
    simp [toJson, savedObject, ofJson, savedClass_cons, listAt, listOfJson, nodeAt,
      ofJsonAll_toJsonAll hds, ofJson_toJson hb]
  | externDecl p name tps pts r =>
    simp only [isLoaded, Bool.and_eq_true] at h
    obtain ⟨⟨⟨hname, htps⟩, hpts⟩, hr⟩ := h
    simp [toJson, savedObject, ofJson, savedClass_cons, Saved.name_cons _ hname,
      Saved.optionalNames_cons htps, listAt, listOfJson, nodeAt,
      ofJsonAll_toJsonAll hpts, ofJson_toJson hr]
  | dataDecl p name tps cs =>
    simp only [isLoaded, Bool.and_eq_true] at h
    obtain ⟨⟨hname, htps⟩, hcs⟩ := h
    simp [toJson, savedObject, ofJson, savedClass_cons, Saved.name_cons _ hname,
      Saved.optionalNames_cons htps, listAt, listOfJson,
      ofJsonAll_toJsonAll hcs]
  | typeDecl p name tps t =>
    simp only [isLoaded, Bool.and_eq_true] at h
    obtain ⟨⟨hname, htps⟩, ht⟩ := h
    simp [toJson, savedObject, ofJson, savedClass_cons, Saved.name_cons _ hname,
      Saved.optionalNames_cons htps, nodeAt, ofJson_toJson ht]
  | constructorDecl p name as | intrinsicCall p name as | directiveCall p name as
  | construct p name as | patternCtor p name as =>
    simp only [isLoaded, Bool.and_eq_true] at h
    obtain ⟨hname, has⟩ := h
    simp [toJson, savedObject, ofJson, savedClass_cons, Saved.name_cons _ hname, listAt,
      listOfJson, ofJsonAll_toJsonAll has]
  | param p name t =>
    simp only [isLoaded, Bool.and_eq_true] at h
    obtain ⟨hname, ht⟩ := h
    simp [toJson, savedObject, ofJson, savedClass_cons, Saved.name_cons _ hname, optionalAt,
      ofJson_toJson ht]
  | funDecl p name tps ps b r =>
    simp only [isLoaded, Bool.and_eq_true] at h
    obtain ⟨⟨⟨⟨hname, htps⟩, hps⟩, hb⟩, hr⟩ := h
    simp [toJson, savedObject, ofJson, savedClass_cons, Saved.name_cons _ hname,
      Saved.optionalNames_cons htps, listAt, listOfJson, nodeAt, optionalAt,
      ofJsonAll_toJsonAll hps, ofJson_toJson hb, ofJson_toJson hr]
  | literal p v | patternLit p v =>
    simp [toJson, savedObject, ofJson, savedClass_cons, Saved.literal_cons]
  | unit p | patternWild p =>
    simp [toJson, savedObject, ofJson, savedClass_cons]
  | var p name | patternVar p name =>
    simp [toJson, savedObject, ofJson, savedClass_cons, Saved.name_cons _ h]
  | call p s as | caseOf p s as =>
    simp only [isLoaded, Bool.and_eq_true] at h
    obtain ⟨hs, has⟩ := h
    simp [toJson, savedObject, ofJson, savedClass_cons, nodeAt, listAt, listOfJson,
      ofJson_toJson hs, ofJsonAll_toJsonAll has]
  | arm p f r | seq p f r =>
    simp only [isLoaded, Bool.and_eq_true] at h
    obtain ⟨hf, hr⟩ := h
    simp [toJson, savedObject, ofJson, savedClass_cons, nodeAt, ofJson_toJson hf,
      ofJson_toJson hr]
  | letIn p name v b t =>
    simp only [isLoaded, Bool.and_eq_true] at h
    obtain ⟨⟨⟨hname, hv⟩, hb⟩, ht⟩ := h
    simp [toJson, savedObject, ofJson, savedClass_cons, Saved.name_cons _ hname, nodeAt,
      optionalAt, ofJson_toJson hv, ofJson_toJson hb, ofJson_toJson ht]
  | lambda p ps b =>
    simp only [isLoaded, Bool.and_eq_true] at h
    obtain ⟨hps, hb⟩ := h
    simp [toJson, savedObject, ofJson, savedClass_cons, Saved.required, Json.member?,
      Saved.namesOf_namesToJson hps, nodeAt, ofJson_toJson hb]

/-- Saved trees are loaded as they were. -/
theorem ofJsonAll_toJsonAll {ns : List Node} (h : areLoaded ns = true) :
    ofJsonAll (toJsonAll ns) = .ok ns := by
  cases ns with
  | nil => rfl
  | cons n ns =>
    rw [areLoaded, Bool.and_eq_true] at h
    rw [toJsonAll, ofJsonAll, ofJson_toJson h.1, ofJsonAll_toJsonAll h.2]
    rfl

end

end Node

/-! ## What is loaded can be saved -/

namespace Saved

theorem name_isLoaded (key : String) (ms : List (String × Json)) :
    GivesOnly (Name.isLoaded · = true) (name key ms) :=
  (GivesOnly.any _).bind fun j _ => .ok (Name.isLoaded_ofJson j)

theorem namesOf_isLoaded (j : Json) : GivesOnly (List.all · Name.isLoaded = true) (namesOf j) :=
  (GivesOnly.any _).bind fun js _ => .ok (Name.all_isLoaded_map_ofJson js)

theorem optionalNames_isLoaded (key : String) (ms : List (String × Json)) :
    GivesOnly (List.all · Name.isLoaded = true) (optionalNames key ms) := by
  unfold optionalNames
  split
  · exact namesOf_isLoaded _
  · exact .ok rfl

end Saved

namespace TypeSpec

mutual

/-- A type has the names of its form once it was loaded. -/
theorem ofJson_isLoaded (j : Json) : GivesOnly (isLoaded · = true) (ofJson j) := by
  cases j with
  | obj ms =>
    rw [ofJson]
    refine (Saved.name_isLoaded _ _).bind fun kind hkind => ?_
    refine (argsIn_isLoaded ms).bind fun args hargs => .ok ?_
    rw [isLoaded, hkind, hargs]
    rfl
  | _ => exact .error _

theorem argsIn_isLoaded (ms : List (String × Json)) :
    GivesOnly (areLoaded · = true) (argsIn ms) := by
  match ms with
  | [] => exact .ok rfl
  | (key, j) :: rest =>
    rw [argsIn]
    split
    · exact listOfJson_isLoaded j
    · exact argsIn_isLoaded rest

theorem listOfJson_isLoaded (j : Json) : GivesOnly (areLoaded · = true) (listOfJson j) := by
  cases j with
  | arr items => exact ofJsonAll_isLoaded items
  | str s | obj ms =>
    rw [listOfJson]
    split
    · exact .ok rfl
    · exact .error _
  | _ => exact .error _

theorem ofJsonAll_isLoaded (js : List Json) : GivesOnly (areLoaded · = true) (ofJsonAll js) := by
  match js with
  | [] => exact .ok rfl
  | j :: js =>
    rw [ofJsonAll]
    refine (ofJson_isLoaded j).bind fun t ht => ?_
    refine (ofJsonAll_isLoaded js).bind fun ts hts => .ok ?_
    rw [areLoaded, ht, hts]
    rfl

end

end TypeSpec

namespace Node

theorem looseItems_isLoaded (j : Json) : GivesOnly (areLoaded · = true) (looseItems j) := by
  cases j with
  | str s => exact .ok (areLoaded_map_text _ _)
  | obj ms => exact .ok (areLoaded_map_text _ _)
  | _ => exact .error _

mutual

/-- **Loading leaves no string among the names that are no words.** -/
theorem ofJson_isLoaded (j : Json) : GivesOnly (isLoaded · = true) (ofJson j) := by
  cases j with
  | null | bool _ | int _ | real _ | str _ => exact .ok rfl
  | arr items => exact .error _
  | obj ms =>
    rw [ofJson]
    split
    · refine (GivesOnly.any _).bind fun j _ => ?_
      exact (TypeSpec.ofJson_isLoaded j).bind fun t ht => .ok ht
    · refine (GivesOnly.any _).bind fun p _ => ?_
      -- The members of an object, by what they are read as. Then a case for each
      -- class of nodes.
      have hname := fun key => Saved.name_isLoaded key ms
      have hnames := fun key => Saved.optionalNames_isLoaded key ms
      have hnode := fun key => nodeAt_isLoaded key ms
      have hoption := fun key => optionalAt_isLoaded key ms
      have hlist := fun key => listAt_isLoaded key ms
      split
      · refine (hlist _).bind fun ds hds => ?_
        exact (hnode _).bind fun b hb => .ok (by simp [isLoaded, hds, hb])
      · refine (hname _).bind fun n hn => ?_
        refine (hlist _).bind fun pts hpts => ?_
        refine (hnode _).bind fun r hr => ?_
        exact (hnames _).bind fun tps htps => .ok (by simp [isLoaded, hn, hpts, hr, htps])
      · refine (hname _).bind fun n hn => ?_
        refine (hnames _).bind fun tps htps => ?_
        exact (hlist _).bind fun cs hcs => .ok (by simp [isLoaded, hn, htps, hcs])
      · refine (hname _).bind fun n hn => ?_
        exact (hlist _).bind fun fts hfts => .ok (by simp [isLoaded, hn, hfts])
      · refine (hname _).bind fun n hn => ?_
        refine (hnames _).bind fun tps htps => ?_
        exact (hnode _).bind fun t ht => .ok (by simp [isLoaded, hn, htps, ht])
      · refine (hname _).bind fun n hn => ?_
        exact (hoption _).bind fun t ht => .ok (by simp [isLoaded, hn, ht])
      · refine (hname _).bind fun n hn => ?_
        refine (hlist _).bind fun ps hps => ?_
        refine (hnode _).bind fun b hb => ?_
        refine (hoption _).bind fun r hr => ?_
        exact (hnames _).bind fun tps htps => .ok (by simp [isLoaded, hn, hps, hb, hr, htps])
      · exact (GivesOnly.any _).bind fun v _ => .ok rfl
      · exact .ok rfl
      · exact (hname _).bind fun n hn => .ok (by simp [isLoaded, hn])
      · refine (hnode _).bind fun c hc => ?_
        exact (hlist _).bind fun as has => .ok (by simp [isLoaded, hc, has])
      · refine (hname _).bind fun n hn => ?_
        exact (hlist _).bind fun as has => .ok (by simp [isLoaded, hn, has])
      · refine (hname _).bind fun n hn => ?_
        exact (hlist _).bind fun as has => .ok (by simp [isLoaded, hn, has])
      · refine (hname _).bind fun n hn => ?_
        exact (hlist _).bind fun as has => .ok (by simp [isLoaded, hn, has])
      · refine (hnode _).bind fun t ht => ?_
        exact (hnode _).bind fun b hb => .ok (by simp [isLoaded, ht, hb])
      · refine (hnode _).bind fun s hs => ?_
        exact (hlist _).bind fun as has => .ok (by simp [isLoaded, hs, has])
      · refine (hname _).bind fun n hn => ?_
        refine (hnode _).bind fun v hv => ?_
        refine (hnode _).bind fun b hb => ?_
        exact (hoption _).bind fun t ht => .ok (by simp [isLoaded, hn, hv, hb, ht])
      · refine (hnode _).bind fun f hf => ?_
        exact (hnode _).bind fun r hr => .ok (by simp [isLoaded, hf, hr])
      · refine (GivesOnly.any _).bind fun j _ => ?_
        refine (Saved.namesOf_isLoaded _).bind fun ps hps => ?_
        exact (hnode _).bind fun b hb => .ok (by simp [isLoaded, hps, hb])
      · refine (hlist _).bind fun ds hds => ?_
        exact (hnode _).bind fun b hb => .ok (by simp [isLoaded, hds, hb])
      · exact (hname _).bind fun n hn => .ok (by simp [isLoaded, hn])
      · exact .ok rfl
      · exact (GivesOnly.any _).bind fun v _ => .ok rfl
      · refine (hname _).bind fun n hn => ?_
        exact (hlist _).bind fun as has => .ok (by simp [isLoaded, hn, has])
      · exact .error _

theorem nodeAt_isLoaded (key : String) (ms : List (String × Json)) :
    GivesOnly (isLoaded · = true) (nodeAt key ms) := by
  match ms with
  | [] => exact .error _
  | (k, j) :: rest =>
    rw [nodeAt]
    split
    · exact ofJson_isLoaded j
    · exact nodeAt_isLoaded key rest

theorem optionalAt_isLoaded (key : String) (ms : List (String × Json)) :
    GivesOnly (isLoaded · = true) (optionalAt key ms) := by
  match ms with
  | [] => exact .ok rfl
  | (k, j) :: rest =>
    rw [optionalAt]
    split
    · exact ofJson_isLoaded j
    · exact optionalAt_isLoaded key rest

theorem listAt_isLoaded (key : String) (ms : List (String × Json)) :
    GivesOnly (areLoaded · = true) (listAt key ms) := by
  match ms with
  | [] => exact .error _
  | (k, j) :: rest =>
    rw [listAt]
    split
    · exact listOfJson_isLoaded j
    · exact listAt_isLoaded key rest

theorem listOfJson_isLoaded (j : Json) : GivesOnly (areLoaded · = true) (listOfJson j) := by
  cases j with
  | arr items => exact ofJsonAll_isLoaded items
  | _ => rw [listOfJson]; exact looseItems_isLoaded _; simp

theorem ofJsonAll_isLoaded (js : List Json) : GivesOnly (areLoaded · = true) (ofJsonAll js) := by
  match js with
  | [] => exact .ok rfl
  | j :: js =>
    rw [ofJsonAll]
    refine (ofJson_isLoaded j).bind fun n hn => ?_
    refine (ofJsonAll_isLoaded js).bind fun ns hns => .ok ?_
    rw [areLoaded, hn, hns]
    rfl

end

/-- **Saving a tree loses nothing.** A tree is loaded again as it was
exactly if none of its names hides a string, and this is so of every tree
that was loaded itself, from whatever value. Equal trees have equal
positions, literals of equal kinds, and equal types. -/
theorem saving_loses_nothing :
    (∀ n : Node, ofJson n.toJson = .ok n ↔ n.isLoaded = true) ∧
      ∀ (j : Json) (n : Node), ofJson j = .ok n → ofJson n.toJson = .ok n :=
  ⟨fun n => ⟨ofJson_isLoaded n.toJson n, ofJson_toJson⟩,
    fun j n h => ofJson_toJson (ofJson_isLoaded j n h)⟩

/-- A value that holds less than a tree: numbers and a string stand in the
places of nodes and names, a literal and a position are of other kinds, a
list is a string, and the types are missing. -/
def looseTree : Json :=
  .obj [("type", .str "Let"), ("name", .int 7), ("pos", .arr [.bool true, .str "4", .null]),
    ("value", .obj [("type", .str "Literal"), ("kind", .str "Char"), ("value", .int 12)]),
    ("body", .obj [("type", .str "Block"), ("declarations", .str "ab"), ("body", .bool false)])]

/-- The tree that it is loaded as. -/
def looseNode : Node :=
  .letIn (some ⟨1, 4⟩) (.other (.int 7)) (.literal none (.char "12"))
    (.block none [.atom (.text "a"), .atom (.text "b")] (.atom (.bool false))) absent

theorem looseNode_saved :
    ofJson looseTree = .ok looseNode ∧ ofJson looseNode.toJson = .ok looseNode ∧
      looseNode.isLoaded = true := by
  have hload : ofJson looseTree = .ok looseNode := rfl
  have hcopy := saving_loses_nothing.2 looseTree looseNode hload
  exact ⟨hload, hcopy, (saving_loses_nothing.1 looseNode).1 hcopy⟩

end Node

end EmberLang
