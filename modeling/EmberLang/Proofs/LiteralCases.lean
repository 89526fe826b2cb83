import EmberLang.Proofs.Dispatch
import EmberLang.Proofs.Instances

/-!
# Cases that test for one value

A value without reals and closures can be written down as a pattern, with a
constant for each constant and a constructor for each constructor. Such a
pattern has no variables, and its instances are the values equal to the one
written down. A case with an arm for this pattern and one for everything
else therefore tests for equality, whatever the value: numbers, truth
values, characters and data are never taken for each other, at any depth.

A spelling is not unique (`Node.Spells`), since a constructor without fields
may stand as a bare name or before an empty list of sub-patterns. The main
result holds for all spellings.
-/

namespace EmberLang

variable {t : ConstructorTable}

/-! ## Ground values -/

namespace Value

mutual

/-- **Whether a value is ground**: built from integers, truth values and
characters by constructors of the table, each with as many fields as it
takes. -/
def isGround (t : ConstructorTable) : Value → Bool
  | int _ | bool _ | char _ => true
  | data c fields =>
    c.key?.isSome && (t.get? c).any (·.arity == fields.length) && areGround t fields
  | real _ | unit | closure .. => false

/-- Whether several values are ground. -/
def areGround (t : ConstructorTable) : List Value → Bool
  | [] => true
  | v :: vs => isGround t v && areGround t vs

end

/-- The constructor of a ground value is known, and takes its fields. -/
theorem isGround_data_iff {c : Name} {fields : List Value} :
    (data c fields).isGround t = true ↔
      (∃ known, c.key?.isSome = true ∧ t.get? c = some known ∧ known.arity = fields.length)
        ∧ areGround t fields = true := by
  simp only [isGround, Bool.and_eq_true, Option.any_eq_true, beq_iff_eq]
  constructor
  · rintro ⟨⟨hkey, known, hget, harity⟩, hfields⟩
    exact ⟨⟨known, hkey, hget, harity⟩, hfields⟩
  · rintro ⟨⟨known, hkey, hget, harity⟩, hfields⟩
    exact ⟨⟨hkey, known, hget, harity⟩, hfields⟩

mutual

theorem kept_of_isGround : (v : Value) → v.isGround t = true → v.Kept (arities t)
  | data _ fields, h =>
    have ⟨⟨known, _, hget, harity⟩, hfields⟩ := isGround_data_iff.1 h
    ⟨⟨known, hget, harity⟩, keptAll_of_areGround fields hfields⟩
  | int _, _ => trivial
  | bool _, _ => trivial
  | char _, _ => trivial

theorem keptAll_of_areGround :
    (vs : List Value) → areGround t vs = true → KeptAll (arities t) vs
  | [], _ => trivial
  | v :: vs, h =>
    have ⟨hv, hvs⟩ := Bool.and_eq_true_iff.1 h
    ⟨kept_of_isGround v hv, keptAll_of_areGround vs hvs⟩

end

/-- The data in a ground value is as declared. -/
theorem fits_of_isGround {v : Value} (h : v.isGround t = true) : t.Fits v :=
  kept_arities_iff.1 (kept_of_isGround v h)

mutual

/-- **What equals a ground value is that value**, if their constructors are
words. -/
theorem equal_iff_eq_of_isGround (v w : Value) (h : v.isGround t = true) (hv : v.Worded)
    (hw : w.Worded) : w.equal v = true ↔ w = v := by
  cases v with
  | data d gs =>
    cases w with
    | data c fs =>
      obtain ⟨hd, hgs⟩ := hv
      obtain ⟨hc, hfs⟩ := hw
      rw [equal, Bool.and_eq_true, data.injEq,
        equalAll_iff_eq_of_areGround gs fs (isGround_data_iff.1 h).2 hgs hfs]
      obtain ⟨c, rfl⟩ := hc
      obtain ⟨d, rfl⟩ := hd
      simp
    | _ => simp [equal]
  | real _ | unit | closure _ _ => simp [isGround] at h
  | _ => cases w <;> simp [equal]

theorem equalAll_iff_eq_of_areGround (vs ws : List Value) (h : areGround t vs = true)
    (hvs : WordedAll vs) (hws : WordedAll ws) : equalAll ws vs = true ↔ ws = vs := by
  cases vs with
  | nil => cases ws <;> simp [equalAll]
  | cons v vs =>
    cases ws with
    | nil => simp [equalAll]
    | cons w ws =>
      obtain ⟨hv, hvs'⟩ := Bool.and_eq_true_iff.1 h
      rw [equalAll, Bool.and_eq_true, List.cons.injEq,
        equal_iff_eq_of_isGround v w hv hvs.1 hws.1,
        equalAll_iff_eq_of_areGround vs ws hvs' hvs.2 hws.2]

end

end Value

/-! ## Spellings -/

/-- **A pattern spells a value**: with a constant for a constant, and for
data its constructor with spellings of the fields, or as a bare name if
there are none. -/
inductive Node.Spells : Node → Value → Prop
  | constant {p : Option Position} {l : Literal} : Spells (.patternLit p l) l.value
  | bare {p : Option Position} {c d : Name} (same : c.same d = true) :
      Spells (.patternVar p c) (.data d [])
  | data {p : Option Position} {c d : Name} {args : List Node} {fields : List Value}
      (same : c.same d = true) (parts : List.Forall₂ Spells args fields) :
      Spells (.patternCtor p c args) (.data d fields)

namespace Value

mutual

/-- **Every ground value has a spelling.** -/
theorem exists_spells (v : Value) (h : v.isGround t = true) : ∃ n : Node, n.Spells v := by
  cases v with
  | int n => exact ⟨.patternLit none (.int n), .constant⟩
  | bool b => exact ⟨.patternLit none (.bool b), .constant⟩
  | char s => exact ⟨.patternLit none (.char s), .constant⟩
  | data c fields =>
    obtain ⟨args, hargs⟩ := exists_forall₂_spells fields (isGround_data_iff.1 h).2
    exact ⟨.patternCtor none c args, .data (Name.same_self c) hargs⟩
  | _ => simp [isGround] at h

theorem exists_forall₂_spells (vs : List Value) (h : areGround t vs = true) :
    ∃ ns, List.Forall₂ Node.Spells ns vs := by
  cases vs with
  | nil => exact ⟨[], .nil⟩
  | cons v vs =>
    obtain ⟨hv, hvs⟩ := Bool.and_eq_true_iff.1 h
    obtain ⟨n, hn⟩ := exists_spells v hv
    obtain ⟨ns, hns⟩ := exists_forall₂_spells vs hvs
    exact ⟨n :: ns, .cons hn hns⟩

end

end Value

namespace Node

mutual

/-- **A spelling agrees with the table and has no variables.** -/
theorem Spells.agreesWith (n : Node) {v : Value} (h : n.Spells v) (hv : v.isGround t = true) :
    n.agreesWith t = true ∧ n.patternVars t = [] := by
  cases h with
  | constant => exact ⟨rfl, rfl⟩
  | @bare p c d same =>
    obtain ⟨⟨known, hkey, hget, harity⟩, -⟩ := Value.isGround_data_iff.1 hv
    rw [← t.get?_congr same] at hget
    rw [← eq_of_beq same] at hkey
    simp [Node.agreesWith, patternVars, ConstructorTable.contains, hkey, hget, harity]
  | @data p c d args fields same parts =>
    obtain ⟨⟨known, hkey, hget, harity⟩, hfields⟩ := Value.isGround_data_iff.1 hv
    obtain ⟨hagree, hvars⟩ := allAgreeWith_of_spells args parts hfields
    rw [← t.get?_congr same] at hget
    rw [← eq_of_beq same] at hkey
    simp [Node.agreesWith, patternVars, hkey, hget, harity, parts.length_eq, hagree, hvars]

theorem allAgreeWith_of_spells (ns : List Node) {vs : List Value}
    (h : List.Forall₂ Spells ns vs) (hvs : Value.areGround t vs = true) :
    allAgreeWith t ns = true ∧ patternVarsAll t ns = [] := by
  cases h with
  | nil => exact ⟨rfl, rfl⟩
  | @cons n v ns vs hn hns =>
    obtain ⟨hv, hvs⟩ := Bool.and_eq_true_iff.1 hvs
    obtain ⟨hagree, hvars⟩ := hn.agreesWith n hv
    obtain ⟨hagrees, hvarsAll⟩ := allAgreeWith_of_spells ns hns hvs
    simp [allAgreeWith, patternVarsAll, hagree, hvars, hagrees, hvarsAll]

end

/-- The instances of a constant are the values equal to it. -/
theorem isInstanceOf_patternLit_iff (p : Option Position) (l : Literal) (w : Value) :
    w.IsInstanceOf (patternLit p l) ↔ w.equal l.value = true := by
  rw [Value.isInstanceOf_iff []]
  cases w <;> cases l <;>
    simp [matchPattern, countsFields, Value.literal?, Literal.same, Literal.value, Value.equal]
  case real.real x y => by_cases h : (x == y) = true <;> simp [h]

/-- The instances of a constructor are the data values of this one whose
fields are instances. -/
theorem isInstanceOf_patternCtor_iff (p : Option Position) (c : Name) (args : List Node)
    (w : Value) :
    w.IsInstanceOf (patternCtor p c args) ↔
      ∃ e fields, w = .data e fields ∧ c.same e = true
        ∧ List.Forall₂ Value.IsInstanceOf fields args := by
  constructor
  · rintro (_ | _ | _ | ⟨same, shapes⟩)
    exact ⟨_, _, rfl, same, shapes⟩
  · rintro ⟨e, fields, rfl, same, shapes⟩
    exact .data same shapes

/-- Being data of a given constructor with fields that equal the given ones
is being equal to that data. -/
theorem equal_data_iff {c d : Name} (same : c.same d = true) (gs : List Value) (w : Value) :
    w.equal (.data d gs) = true ↔
      ∃ e fields, w = .data e fields ∧ c.same e = true ∧ Value.equalAll fields gs = true := by
  have hnames : ∀ e : Name, e.same d = c.same e := by
    intro e
    rw [Name.same_comm c e, Name.same, Name.same, eq_of_beq same]
  cases w with
  | data e fields => simp [Value.equal, hnames, Value.data.injEq]
  | _ => simp [Value.equal]

mutual

/-- **The instances of a spelling are the values equal to the one
spelled.** -/
theorem Spells.isInstanceOf_iff (n : Node) {v : Value} (h : n.Spells v)
    (hv : v.isGround t = true) (w : Value) :
    w.IsInstanceOf (n.resolvedPattern t) ↔ w.equal v = true := by
  cases h with
  | @constant p l => exact isInstanceOf_patternLit_iff p l w
  | @bare p c d same =>
    obtain ⟨⟨known, -, hget, -⟩, -⟩ := Value.isGround_data_iff.1 hv
    rw [← t.get?_congr same] at hget
    -- A bare name of a constructor is resolved to one without sub-patterns.
    have hcontains : t.contains c = true := by rw [ConstructorTable.contains, hget]; rfl
    have hnone : ∀ ws, List.Forall₂ Value.IsInstanceOf ws [] ↔ Value.equalAll ws [] = true := by
      intro ws
      cases ws <;> simp [Value.equalAll]
    rw [resolvedPattern, if_pos hcontains, isInstanceOf_patternCtor_iff, equal_data_iff same]
    simp only [hnone]
  | @data p c d args fields same parts =>
    rw [resolvedPattern, isInstanceOf_patternCtor_iff, equal_data_iff same]
    simp only [areInstances_resolvedPatterns_iff args parts (Value.isGround_data_iff.1 hv).2]

theorem areInstances_resolvedPatterns_iff (ns : List Node) {vs : List Value}
    (h : List.Forall₂ Spells ns vs) (hvs : Value.areGround t vs = true) (ws : List Value) :
    List.Forall₂ Value.IsInstanceOf ws (resolvedPatterns t ns) ↔ Value.equalAll ws vs = true := by
  cases h with
  | nil => cases ws <;> simp [resolvedPatterns, Value.equalAll]
  | @cons n v ns vs hn hns =>
    obtain ⟨hv, hvs⟩ := Bool.and_eq_true_iff.1 hvs
    cases ws with
    | nil => simp [resolvedPatterns, Value.equalAll]
    | cons w ws =>
      rw [resolvedPatterns, List.forall₂_cons, Value.equalAll, Bool.and_eq_true,
        hn.isInstanceOf_iff n hv w, areInstances_resolvedPatterns_iff ns hns hvs ws]

end

/-- A spelling is resolved, and no variables come of it. -/
theorem Spells.resolvePattern_eq {n : Node} {v : Value} (h : n.Spells v)
    (hv : v.isGround t = true) :
    n.resolvePattern t [] = .ok (n.resolvedPattern t, []) := by
  obtain ⟨hagree, hvars⟩ := h.agreesWith n hv
  rw [resolvePattern_eq_ok_iff n .nil, hvars]
  exact ⟨hagree, .nil, rfl, rfl⟩

/-- **Matching with a spelling tests for equality** and binds nothing. -/
theorem Spells.matchPattern_eq {n : Node} {v w : Value} (h : n.Spells v)
    (hv : v.isGround t = true) (hw : w.isGround t = true) :
    (n.resolvedPattern t).matchPattern [] w = if w.equal v then some [] else none := by
  have hmatches := isSome_matchPattern_iff_of_fits (h.resolvePattern_eq hv)
    (Value.fits_of_isGround hw)
  rw [h.isInstanceOf_iff n hv w] at hmatches
  cases hmatch : (n.resolvedPattern t).matchPattern [] w with
  | none =>
    rw [hmatch] at hmatches
    rw [if_neg fun hequal => Bool.false_ne_true (hmatches.2 hequal)]
  | some bindings =>
    rw [hmatch] at hmatches
    have hplaces : (n.resolvedPattern t).places = [] := by
      rw [← List.map_eq_nil_iff (f := Prod.fst), names_places_resolvedPattern,
        (h.agreesWith n hv).2]
    have hbindings := matchPattern_eq_some _ hmatch
    rw [if_pos (hmatches.1 rfl), hbindings, hplaces]
    rfl

end Node

/-! ## The case -/

namespace Case

/-- **A case with a spelling and an arm for everything else tests for
equality.** For ground values it compiles, keeps the bodies of its arms, and
takes the first arm for values equal to the one spelled and the second for
all others, binding nothing. Equal values are the same ones if constructors
are words, as they are in a program text. -/
theorem select?_spelling_iff_equal {v w : Value} (hv : v.isGround t = true)
    (hw : w.isGround t = true) :
    (∃ pattern : Node, pattern.Spells v)
    ∧ (v.Worded → w.Worded → (w.equal v = true ↔ w = v))
    ∧ ∀ (pattern : Node), pattern.Spells v → ∀ (p q r : Option Position) (a b : Node),
        ∃ c, compile t [.arm p pattern a, .arm q (.patternWild r) b] = .ok c
          ∧ c.arms.map (·.body) = [a, b]
          ∧ c.select? w = some (if w.equal v then 0 else 1, []) := by
  refine ⟨v.exists_spells hv, v.equal_iff_eq_of_isGround w hv, ?_⟩
  intro pattern hpattern p q r a b
  have hcompile : compile t [.arm p pattern a, .arm q (.patternWild r) b]
      = .ok ((Case.empty.add (pattern.resolvedPattern t) a []).add (.patternWild r) b []) := by
    rw [compile, compileFrom, hpattern.resolvePattern_eq hv]
    rfl
  refine ⟨_, hcompile, rfl, ?_⟩
  set c := (Case.empty.add (pattern.resolvedPattern t) a []).add (.patternWild r) b []
  have hfirst : c.attempt? w 0 = if w.equal v then some (0, []) else none := by
    show ((pattern.resolvedPattern t).matchPattern [] w).bind (fun bindings => some (0, bindings))
      = _
    rw [hpattern.matchPattern_eq hv hw]
    cases w.equal v <;> rfl
  have hsecond : c.attempt? w 1 = some (1, []) := rfl
  rw [(listed_of_compile hcompile).select?_eq_firstMatch?]
  show [0, 1].findSome? (c.attempt? w) = _
  rw [List.findSome?_cons, List.findSome?_singleton, hfirst, hsecond]
  cases w.equal v <;> rfl

/-- A fork with two leaves, each spelled in another way. -/
def forkSpelling : Node :=
  .patternCtor none "Fork"
    [.patternVar none "Leaf", .patternLit none (.int 1), .patternCtor none "Leaf" []]

/-- A fork with two leaves around a value. -/
def forkAround (v : Value) : Value := .data "Fork" [.data "Leaf" [], v, .data "Leaf" []]

theorem select?_forkSpelling :
    (forkAround (.int 1)).isGround Node.treeTable = true
      ∧ (forkAround (.bool true)).isGround Node.treeTable = true
      ∧ ∃ c, compile Node.treeTable [.arm none forkSpelling (.unit none),
          .arm none (.patternWild none) (.unit none)] = .ok c
        ∧ c.select? (forkAround (.int 1)) = some (0, [])
        ∧ c.select? (forkAround (.bool true)) = some (1, []) := by
  have hint : (forkAround (.int 1)).isGround Node.treeTable = true := by cbv
  have hbool : (forkAround (.bool true)).isGround Node.treeTable = true := by cbv
  have hspells : forkSpelling.Spells (forkAround (.int 1)) :=
    .data rfl (.cons (.bare rfl) (.cons (.constant (l := .int 1)) (.cons (.data rfl .nil) .nil)))
  obtain ⟨c, hc, -, hsame⟩ :=
    (select?_spelling_iff_equal hint hint).2.2 _ hspells none none none (.unit none) (.unit none)
  obtain ⟨c', hc', -, hother⟩ :=
    (select?_spelling_iff_equal hint hbool).2.2 _ hspells none none none (.unit none) (.unit none)
  obtain rfl := Except.ok.inj (hc.symm.trans hc')
  exact ⟨hint, hbool, c, hc, hsame, hother⟩

end Case

end EmberLang
