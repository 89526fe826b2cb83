import EmberLang.Host.Result
import EmberLang.Proofs.Arities

/-!
# Matching and being an instance

A pattern describes the values of a certain shape, its instances, and names
some of their parts. Matching is meant to find out whether a value is an
instance, and to give the named parts.

For data as declared this is so: a value matches a resolved pattern if and
only if it is an instance of it, and a match binds the names of the
pattern, each to the part at its place. But the host may give back data
with any number of fields, and nobody counts them. Such data can match
without being an instance, and then names of the pattern stay unbound
(`Node.matchPattern_shortFork`). The main result is for all values: the
instances of a pattern are the values that match it and have, wherever the
pattern looks, as many fields as it has sub-patterns.
-/

namespace EmberLang

variable {t : ConstructorTable}

/-- The discipline of arities allows only data as declared. -/
theorem asDeclared_arities : (arities t).AsDeclared t := fun _ _ h => h

namespace Node

/-- **In data as declared, what matches is an instance.** -/
theorem isSome_matchPattern_iff_of_fits {pattern resolved : Node} {names : List Name}
    (hr : pattern.resolvePattern t [] = .ok (resolved, names)) {v : Value} (hv : t.Fits v) :
    (resolved.matchPattern [] v).isSome = true ↔ v.IsInstanceOf resolved := by
  constructor
  · intro hmatch
    obtain ⟨bindings, hmatch⟩ := Option.isSome_iff_exists.1 hmatch
    exact isInstanceOf_of_kept asDeclared_arities hr (Value.kept_arities_iff.2 hv) hmatch
  · intro hinstance
    exact ((Value.isInstanceOf_iff [] resolved v).1 hinstance).1

/-- **Matching and being an instance**, for a pattern that is resolved and
any value. The value is an instance if and only if it matches and has as
many fields as the pattern asks for; in data as declared, matching is
enough. What a match binds is the parts of the value at the places of the
variables, as far as it has them; an instance has them all, and the names
bound are those of the arm, which are distinct. -/
theorem isInstanceOf_iff_matchPattern {pattern resolved : Node} {names : List Name}
    (hr : pattern.resolvePattern t [] = .ok (resolved, names)) (v : Value) :
    (v.IsInstanceOf resolved ↔
      (resolved.matchPattern [] v).isSome = true ∧ resolved.countsFields v = true)
    ∧ (t.Fits v → ((resolved.matchPattern [] v).isSome = true ↔ v.IsInstanceOf resolved))
    ∧ Name.Distinct names ∧ resolved.places.map (·.1) = names
    ∧ ∀ bindings, resolved.matchPattern [] v = some bindings →
        bindings = v.partsAt resolved.places
        ∧ (v.IsInstanceOf resolved → bindings.map (·.1) = names
            ∧ List.Forall₂ (fun e b => b.1 = e.1 ∧ v.part? e.2 = some b.2)
                resolved.places bindings) := by
  obtain ⟨-, hdistinct, hresolved, hnames⟩ := (resolvePattern_eq_ok_iff pattern .nil).1 hr
  have hplaces : resolved.places.map (·.1) = names := by
    rw [hresolved, names_places_resolvedPattern, hnames, List.nil_append]
  refine ⟨Value.isInstanceOf_iff [] resolved v, isSome_matchPattern_iff_of_fits hr,
    hnames ▸ hdistinct, hplaces, fun bindings hmatch => ⟨resolved.matchPattern_eq_some hmatch, ?_⟩⟩
  intro hinstance
  exact ⟨(hinstance.names_bindings hmatch).trans hplaces, hinstance.forall₂_bindings hmatch⟩

/-- The constructors of trees with numbers at their forks. -/
def treeTable : ConstructorTable := ⟨[("Tree", [⟨"Leaf", "Tree", 0⟩, ⟨"Fork", "Tree", 3⟩])]⟩

/-- A fork whose right side is a fork again, of which two numbers and one
tree are named. -/
def forksPattern : Node :=
  patternCtor none "Fork"
    [patternVar none "Leaf", patternVar none "x",
      patternCtor none "Fork" [patternWild none, patternVar none "y", patternVar none "r"]]

/-- An instance of it. -/
def forks : Value :=
  .data "Fork" [.data "Leaf" [], .int 1, .data "Fork" [.data "Leaf" [], .int 2, .data "Leaf" []]]

theorem matchPattern_forks :
    ∃ resolved names, forksPattern.resolvePattern treeTable [] = .ok (resolved, names)
      ∧ names = ["x", "y", "r"] ∧ Name.Distinct names ∧ forks.IsInstanceOf resolved
      ∧ resolved.matchPattern [] forks
          = some [(.word "x", .int 1), (.word "y", .int 2), (.word "r", .data "Leaf" [])]
      ∧ forks.part? [2, 1] = some (.int 2) := by
  have hr : forksPattern.resolvePattern treeTable []
      = .ok (forksPattern.resolvedPattern treeTable, ["x", "y", "r"]) := by cbv
  have h := isInstanceOf_iff_matchPattern hr forks
  have hmatch : (forksPattern.resolvedPattern treeTable).matchPattern [] forks
      = some [(.word "x", .int 1), (.word "y", .int 2), (.word "r", .data "Leaf" [])] := by cbv
  have hinstance := h.1.2 ⟨by rw [hmatch]; rfl, by cbv⟩
  exact ⟨_, _, hr, rfl, h.2.2.1, hinstance, hmatch, rfl⟩

/-- A fork with one field, as the host may give it back. -/
def shortFork : Value := .data "Fork" [.data "Leaf" []]

/-- **Short data matches without being an instance**, and names of the
pattern stay unbound: the host gives back a fork with one field, and the
pattern for forks takes it. -/
theorem matchPattern_shortFork :
    ∃ resolved, (HostResult.value shortFork).toValue "make" none = .ok shortFork
      ∧ (patternCtor none "Fork" [patternVar none "l", patternVar none "x", patternVar none "r"]
          ).resolvePattern treeTable [] = .ok (resolved, ["l", "x", "r"])
      ∧ resolved.matchPattern [] shortFork = some [(.word "l", .data "Leaf" [])]
      ∧ ¬ shortFork.IsInstanceOf resolved := by
  refine ⟨_, rfl, rfl, rfl, ?_⟩
  rintro (_ | _ | _ | ⟨-, shapes⟩)
  cases shapes.length_eq

end Node

end EmberLang
