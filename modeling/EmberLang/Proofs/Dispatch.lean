import EmberLang.Case
import EmberLang.Proofs.Tag
import Mathlib.Data.List.Forall2

/-!
# A dispatch chooses the first arm that matches

A compiled case tries only the arms that its dispatch lists for the tag of
a value. The rule of the language is plainer: of all arms the first one
that matches. The two agree, for every table of constructors, every case
that compiles and every value.

The invariant is about one tag at a time. While the arms are added, the
list that the dispatch gives for a tag holds, in order, exactly the arms
added so far that *admit* the tag: those that take any value and those
whose own tag is the same. It does not matter whether the tag has an entry
of its own or shares the fallback, nor which of several equal tags the
entry was made for, nor that some tags differ from themselves. An arm that
does not admit the tag of a value cannot match the value, so leaving it
out changes nothing.
-/

namespace EmberLang

namespace Dispatch

/-- The list that a table has for a tag, if it has an entry for it. -/
def slot? (table : List (Tag × List Nat)) (tag : Tag) : Option (List Nat) :=
  (table.find? fun entry => entry.1.same tag).map (·.2)

@[simp]
theorem slot?_nil (tag : Tag) : slot? [] tag = none := rfl

theorem slot?_cons (key : Tag) (indices : List Nat) (rest : List (Tag × List Nat)) (tag : Tag) :
    slot? ((key, indices) :: rest) tag
      = if key.same tag then some indices else slot? rest tag := by
  unfold slot?
  rw [List.find?_cons]
  cases key.same tag <;> rfl

theorem candidates_eq (d : Dispatch) (tag : Tag) :
    d.candidates tag = (slot? d.table tag).getD d.fallback := by
  unfold candidates slot?
  cases d.table.find? fun entry => entry.1.same tag <;> rfl

/-- An arm with a tag enters the list of that tag and no other. -/
theorem slot?_insert (key : Tag) (fallback : List Nat) (index : Nat)
    (table : List (Tag × List Nat)) (tag : Tag) :
    slot? (insert key fallback index table) tag
      = if key.same tag then some ((slot? table tag).getD fallback ++ [index])
        else slot? table tag := by
  induction table with
  | nil => rw [insert, slot?_cons]; rfl
  | cons entry rest ih =>
    obtain ⟨k, indices⟩ := entry
    rw [insert]
    by_cases hk : k.same key = true
    · rw [if_pos hk, slot?_cons, slot?_cons, Tag.same_congr hk tag]
      by_cases ht : key.same tag = true
      · simp only [if_pos ht, Option.getD_some]
      · simp only [if_neg ht]
    · rw [if_neg hk, slot?_cons, slot?_cons, ih]
      by_cases ht : k.same tag = true
      · -- the entry found is for another tag than the arm's
        have hne : ¬ key.same tag = true := fun h =>
          hk (Tag.same_trans ht (Tag.same_symm h))
        rw [if_pos ht, if_neg hne, if_pos ht]
      · rw [if_neg ht, if_neg ht]

/-- An arm that takes any value enters every list. -/
theorem slot?_map_append (index : Nat) (table : List (Tag × List Nat)) (tag : Tag) :
    slot? (table.map fun entry => (entry.1, entry.2 ++ [index])) tag
      = (slot? table tag).map (· ++ [index]) := by
  induction table with
  | nil => rfl
  | cons entry rest ih =>
    rw [List.map_cons, slot?_cons, slot?_cons, ih]
    split <;> rfl

/-- **What adding an arm does to the list of a tag**: the arm is put at its
end if it takes any value or asks for this tag, and else nothing
changes. -/
theorem candidates_add (d : Dispatch) (tag? : Option Tag) (index : Nat) (tag : Tag) :
    (d.add tag? index).candidates tag
      = if tag?.all (·.same tag) then d.candidates tag ++ [index] else d.candidates tag := by
  rw [candidates_eq, candidates_eq]
  cases tag? with
  | none =>
    show (slot? (d.table.map _) tag).getD (d.fallback ++ [index]) = _
    rw [slot?_map_append]
    cases slot? d.table tag <;> rfl
  | some key =>
    show (slot? (insert key d.fallback index d.table) tag).getD d.fallback = _
    rw [slot?_insert]
    cases h : key.same tag <;> simp [h]

end Dispatch

namespace CaseArm

/-- Whether values of a tag may match an arm. -/
def admits (tag : Tag) (arm : CaseArm) : Bool := arm.pattern.patternTag?.all (·.same tag)

end CaseArm

/-- **A pattern that matches a value admits its tag.** -/
theorem Node.patternTag?_of_matchPattern {pattern : Node} {v : Value}
    {start bindings : List (Name × Value)}
    (h : pattern.matchPattern start v = some bindings) :
    pattern.patternTag?.all (·.same v.tag) = true := by
  cases pattern with
  | patternLit p l =>
    rw [matchPattern] at h
    split at h
    · next k hk =>
      split at h
      · next hkl =>
        show (Tag.literal l).same v.tag = true
        unfold Value.tag
        rw [hk]
        exact Literal.same_symm hkl
      · exact absurd h (by simp)
    · exact absurd h (by simp)
  | patternCtor p c args =>
    cases v with
    | data d fields =>
      rw [matchPattern] at h
      split at h
      · next hcd => exact Tag.same_ofName hcd
      · exact absurd h (by simp)
    | _ => exact absurd h (by simp [matchPattern])
  | _ => rfl

namespace Case

/-- **What compiling keeps**: the arms are numbered from zero, and for each
tag the dispatch lists the numbers of those that admit it, in order. -/
structure Listed (c : Case) : Prop where
  /-- An arm's number is its place. -/
  index_eq : c.arms.map (·.index) = List.range c.arms.length
  /-- The dispatch leaves out only arms that do not admit the tag. -/
  candidates_eq : ∀ tag,
    c.dispatch.candidates tag = (c.arms.filter (CaseArm.admits tag)).map (·.index)

theorem listed_empty : Listed .empty where
  index_eq := rfl
  candidates_eq _ := rfl

theorem Listed.add {c : Case} (h : c.Listed) (pattern body : Node) (bindings : List Name) :
    (c.add pattern body bindings).Listed where
  index_eq := by
    show (c.arms ++ [_]).map _ = List.range (c.arms ++ [_]).length
    rw [List.map_append, h.index_eq, List.length_append, List.length_singleton, List.range_succ]
    rfl
  candidates_eq tag := by
    show (c.dispatch.add pattern.patternTag? c.arms.length).candidates tag
      = ((c.arms ++ [_]).filter (CaseArm.admits tag)).map _
    rw [Dispatch.candidates_add, h.candidates_eq, List.filter_append, List.map_append]
    cases hadmits : pattern.patternTag?.all (·.same tag) <;>
      simp [CaseArm.admits, hadmits]

/-- An arm as written is the arm as compiled: same pattern, resolved, and
same body. -/
def Compiled (t : ConstructorTable) (n : Node) (arm : CaseArm) : Prop :=
  ∃ p pattern, n = .arm p pattern arm.body
    ∧ pattern.resolvePattern t [] = .ok (arm.pattern, arm.bindings)

/-- **The run of the compiler**: from any case that is listed, the arms that
are compiled behind it keep it listed and correspond one by one to those
as written. -/
theorem compileFrom_ok {t : ConstructorTable} {done c : Case} {arms : List Node}
    (h : compileFrom t done arms = .ok c) (hdone : done.Listed) :
    c.Listed ∧ ∃ more, c.arms = done.arms ++ more ∧ List.Forall₂ (Compiled t) arms more := by
  induction arms generalizing done with
  | nil =>
    obtain rfl : done = c := Except.ok.inj h
    exact ⟨hdone, [], (List.append_nil _).symm, .nil⟩
  | cons n rest ih =>
    cases n with
    | arm p pattern body =>
      rw [compileFrom] at h
      cases hr : pattern.resolvePattern t [] with
      | error f => rw [hr] at h; exact absurd h (by simp [bind, Except.bind])
      | ok resolved =>
        obtain ⟨resolved, bindings⟩ := resolved
        rw [hr] at h
        obtain ⟨hc, more, harms, hmore⟩ := ih h (hdone.add resolved body bindings)
        refine ⟨hc, ⟨done.arms.length, resolved, body, bindings⟩ :: more, ?_,
          .cons ⟨p, pattern, rfl, hr⟩ hmore⟩
        rw [harms]
        show (done.arms ++ [_]) ++ more = _
        rw [List.append_assoc]
        rfl
    | _ => exact absurd h (by simp [compileFrom])

theorem listed_of_compile {t : ConstructorTable} {arms : List Node} {c : Case}
    (h : compile t arms = .ok c) : c.Listed :=
  (compileFrom_ok h listed_empty).1

theorem forall₂_compiled_of_compile {t : ConstructorTable} {arms : List Node} {c : Case}
    (h : compile t arms = .ok c) : List.Forall₂ (Compiled t) arms c.arms := by
  obtain ⟨_, more, harms, hmore⟩ := compileFrom_ok h listed_empty
  rwa [show c.arms = more from harms]

/-! ## Choosing an arm -/

/-- What an arm of a case makes of a value, found by its number. -/
theorem Listed.attempt?_index {c : Case} (h : c.Listed) (v : Value) {arm : CaseArm}
    (harm : arm ∈ c.arms) :
    c.attempt? v arm.index
      = (arm.pattern.matchPattern [] v).map fun bindings => (arm.index, bindings) := by
  obtain ⟨i, hi, rfl⟩ := List.mem_iff_getElem.1 harm
  have hindex : (c.arms[i]).index = i := by
    have := congrArg (·[i]?) h.index_eq
    simpa [hi] using this
  unfold attempt?
  rw [hindex, List.getElem?_eq_getElem hi]
  show ((c.arms[i]).pattern.matchPattern [] v).bind (fun bindings => some (i, bindings)) = _
  rw [Option.map_eq_bind]
  rfl

/-- An arm that does not admit the tag of a value does not match it. -/
theorem Listed.attempt?_of_not_admits {c : Case} (h : c.Listed) {v : Value} {arm : CaseArm}
    (harm : arm ∈ c.arms) (hadmits : arm.admits v.tag = false) :
    c.attempt? v arm.index = none := by
  rw [h.attempt?_index v harm, Option.map_eq_none_iff]
  cases hm : arm.pattern.matchPattern [] v with
  | none => rfl
  | some bindings =>
    have := Node.patternTag?_of_matchPattern hm
    exact absurd (this.symm.trans hadmits) (by simp)

/-- Leaving out what gives nothing does not change what is found
first. -/
theorem findSome?_filter_of_eq_none {α β : Type} {p : α → Bool} {f : α → Option β} {l : List α}
    (h : ∀ a ∈ l, p a = false → f a = none) : (l.filter p).findSome? f = l.findSome? f := by
  induction l with
  | nil => rfl
  | cons a l ih =>
    have hl := ih fun b hb => h b (List.mem_cons_of_mem _ hb)
    cases hp : p a with
    | true => rw [List.filter_cons_of_pos hp, List.findSome?_cons, List.findSome?_cons, hl]
    | false =>
      rw [List.filter_cons_of_neg (by simp [hp]), List.findSome?_cons,
        h a List.mem_cons_self hp, hl]

/-- What is found first among the numbers below `n`. -/
theorem findSome?_range_eq_some_iff {β : Type} {f : Nat → Option β} {n : Nat} {b : β} :
    (List.range n).findSome? f = some b ↔ ∃ i < n, f i = some b ∧ ∀ j < i, f j = none := by
  induction n with
  | zero => simp
  | succ n ih =>
    rw [List.range_succ, List.findSome?_append, Option.or_eq_some_iff, ih,
      List.findSome?_singleton, List.findSome?_eq_none_iff]
    constructor
    · rintro (⟨i, hi, hfound⟩ | ⟨hnone, hn⟩)
      · exact ⟨i, Nat.lt_succ_of_lt hi, hfound⟩
      · exact ⟨n, Nat.lt_succ_self n, hn, fun j hj => hnone j (List.mem_range.2 hj)⟩
    · rintro ⟨i, hi, hfound, hbefore⟩
      rcases Nat.lt_succ_iff_lt_or_eq.1 hi with hi | rfl
      · exact Or.inl ⟨i, hi, hfound, hbefore⟩
      · exact Or.inr ⟨fun j hj => hbefore j (List.mem_range.1 hj), hfound⟩

/-- **A listed case chooses as if every arm were tried in order.** -/
theorem Listed.select?_eq_firstMatch? {c : Case} (h : c.Listed) (v : Value) :
    c.select? v = c.firstMatch? v := by
  unfold select? firstMatch? candidates
  rw [h.candidates_eq, ← h.index_eq, List.findSome?_map, List.findSome?_map]
  exact findSome?_filter_of_eq_none fun arm harm => h.attempt?_of_not_admits harm

/-- **The arm at a place matches a value** with these bindings: its pattern,
resolved against the table, does. -/
def ArmMatches (t : ConstructorTable) (arms : List Node) (v : Value) (i : Nat)
    (bindings : List (Name × Value)) : Prop :=
  ∃ p pattern body resolved names, arms[i]? = some (.arm p pattern body)
    ∧ pattern.resolvePattern t [] = .ok (resolved, names)
    ∧ resolved.matchPattern [] v = some bindings

/-- Trying an arm of a compiled case is matching the arm as written. -/
theorem attempt?_eq_some_iff {t : ConstructorTable} {arms : List Node} {c : Case}
    (h : compile t arms = .ok c) (v : Value) (i j : Nat) (bindings : List (Name × Value)) :
    c.attempt? v i = some (j, bindings) ↔ i = j ∧ ArmMatches t arms v i bindings := by
  have hcompiled := forall₂_compiled_of_compile h
  have hlength := hcompiled.length_eq
  constructor
  · intro ha
    obtain ⟨arm, harm, ha⟩ := Option.bind_eq_some_iff.1 ha
    obtain ⟨b, hb, ha⟩ := Option.bind_eq_some_iff.1 ha
    obtain ⟨rfl, rfl⟩ := Prod.mk.inj (Option.some.inj ha)
    obtain ⟨hi, rfl⟩ := List.getElem?_eq_some_iff.1 harm
    obtain ⟨p, pattern, hn, hr⟩ := hcompiled.get (hlength ▸ hi) hi
    exact ⟨rfl, p, pattern, _, _, _, List.getElem?_eq_some_iff.2 ⟨hlength ▸ hi, hn⟩, hr, hb⟩
  · rintro ⟨rfl, p, pattern, body, resolved, names, hi, hr, hm⟩
    obtain ⟨hi, hn⟩ := List.getElem?_eq_some_iff.1 hi
    have hi' : i < c.arms.length := hlength ▸ hi
    obtain ⟨p', pattern', hn', hr'⟩ := hcompiled.get hi hi'
    obtain ⟨-, rfl, -⟩ := Node.arm.inj (hn.symm.trans hn')
    obtain ⟨rfl, -⟩ := Prod.mk.inj (Except.ok.inj (hr.symm.trans hr'))
    refine Option.bind_eq_some_iff.2 ⟨c.arms[i], List.getElem?_eq_getElem hi', ?_⟩
    exact Option.bind_eq_some_iff.2 ⟨bindings, hm, rfl⟩

theorem attempt?_eq_none_iff {t : ConstructorTable} {arms : List Node} {c : Case}
    (h : compile t arms = .ok c) (v : Value) (i : Nat) :
    c.attempt? v i = none ↔ ∀ bindings, ¬ ArmMatches t arms v i bindings := by
  rw [Option.eq_none_iff_forall_ne_some]
  constructor
  · intro hnone bindings hm
    exact hnone (i, bindings) ((attempt?_eq_some_iff h v i i bindings).2 ⟨rfl, hm⟩)
  · rintro hnot ⟨j, bindings⟩ ha
    exact hnot bindings ((attempt?_eq_some_iff h v i j bindings).1 ha).2

/-- What the dispatch chooses matches. -/
theorem armMatches_of_select? {t : ConstructorTable} {arms : List Node} {c : Case}
    (h : compile t arms = .ok c) {v : Value} {i : Nat} {bindings : List (Name × Value)}
    (hselect : c.select? v = some (i, bindings)) : ArmMatches t arms v i bindings := by
  obtain ⟨k, -, hk⟩ := List.exists_of_findSome?_eq_some hselect
  obtain ⟨rfl, hm⟩ := (attempt?_eq_some_iff h v k i bindings).1 hk
  exact hm

/-- No arm stands behind the last one. -/
theorem ArmMatches.lt_length {t : ConstructorTable} {arms : List Node} {v : Value} {i : Nat}
    {bindings : List (Name × Value)} (h : ArmMatches t arms v i bindings) : i < arms.length := by
  obtain ⟨_, _, _, _, _, hi, _⟩ := h
  exact (List.getElem?_eq_some_iff.1 hi).1

/-- **The dispatch of a compiled case chooses the first arm that matches**,
with its bindings, and it chooses none if and only if no arm matches –
for every table, every case that compiles and every value. -/
theorem select?_iff_first_arm {t : ConstructorTable} {arms : List Node} {c : Case}
    (h : compile t arms = .ok c) (v : Value) :
    (∀ i bindings, c.select? v = some (i, bindings) ↔
      ArmMatches t arms v i bindings ∧ ∀ j < i, ∀ others, ¬ ArmMatches t arms v j others)
    ∧ (c.select? v = none ↔ ∀ i bindings, ¬ ArmMatches t arms v i bindings) := by
  have hlength : arms.length = c.arms.length := (forall₂_compiled_of_compile h).length_eq
  rw [(listed_of_compile h).select?_eq_firstMatch?]
  unfold firstMatch?
  constructor
  · intro i bindings
    rw [findSome?_range_eq_some_iff]
    constructor
    · rintro ⟨k, -, hk, hbefore⟩
      obtain ⟨rfl, hm⟩ := (attempt?_eq_some_iff h v k i bindings).1 hk
      exact ⟨hm, fun j hj => (attempt?_eq_none_iff h v j).1 (hbefore j hj)⟩
    · rintro ⟨hm, hbefore⟩
      exact ⟨i, hlength ▸ hm.lt_length, (attempt?_eq_some_iff h v i i bindings).2 ⟨rfl, hm⟩,
        fun j hj => (attempt?_eq_none_iff h v j).2 (hbefore j hj)⟩
  · rw [List.findSome?_eq_none_iff]
    constructor
    · intro hnone i bindings hm
      have hi := List.mem_range.2 (hlength ▸ hm.lt_length)
      exact (attempt?_eq_none_iff h v i).1 (hnone i hi) bindings hm
    · intro hnot i _
      exact (attempt?_eq_none_iff h v i).2 (hnot i)

/-- Arms for two numbers with one for anything between them: a value of
the later number is taken by the arm in the middle, though the last one
matches it as well. -/
theorem select?_arm_between :
    ∃ arms c, compile .empty arms = .ok c ∧ c.select? (.int 2) = some (1, [(.word "x", .int 2)])
      ∧ ArmMatches .empty arms (.int 2) 2 [] := by
  have h : compile .empty [.arm none (.patternLit none (.int 1)) (.unit none),
      .arm none (.patternVar none "x") (.unit none),
      .arm none (.patternLit none (.int 2)) (.unit none)] = .ok _ := rfl
  refine ⟨_, _, h, ((select?_iff_first_arm h (.int 2)).1 1 _).2 ⟨?_, ?_⟩, ?_⟩
  · exact ⟨none, _, _, _, _, rfl, rfl, rfl⟩
  · rintro j hj others ⟨p, pattern, body, resolved, names, hi, hr, hm⟩
    obtain rfl : j = 0 := Nat.lt_one_iff.1 hj
    obtain ⟨-, rfl, -⟩ := Node.arm.inj (Option.some.inj hi)
    obtain ⟨rfl, -⟩ := Prod.mk.inj (Except.ok.inj hr)
    exact absurd hm (by simp [Node.matchPattern, Value.literal?, Literal.same])
  · exact ⟨none, _, _, _, _, rfl, rfl, rfl⟩

end Case

end EmberLang
