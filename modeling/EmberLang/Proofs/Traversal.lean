import EmberLang.Proofs.Outline

/-!
# Every node is visited once, and parents first

A walk keeps a stack of nodes that are still to be visited. What comes of it
is the preorder of the tree, which is defined by recursion: a node, then the
preorders of its parts, where plain values and types count for nothing.

One and the same node can stand in a tree several times, so what a walk
visits are the places of a tree and not its nodes. A place is given by the
way to it from the root: at each node on the way, the number of the part to
go to. The walk visits the places that hold nodes in the lexical order of
their ways (`Node.exists_itinerary`), so it comes to each of them once, and
to every place before those below it.
-/

namespace EmberLang

namespace Node

/-! ## Parts and places -/

/-- **The parts of a node**, in the order of its declaration: nodes, and
plain values and types in the place of nodes. -/
def parts : Node → List Node
  | program _ declarations body => declarations ++ [body]
  | externDecl _ _ _ paramTypes returnType => paramTypes ++ [returnType]
  | dataDecl _ _ _ constructors => constructors
  | constructorDecl _ _ fieldTypes => fieldTypes
  | typeDecl _ _ _ aliased => [aliased]
  | param _ _ paramType => [paramType]
  | funDecl _ _ _ params body returnType => params ++ [body, returnType]
  | call _ callee args => callee :: args
  | intrinsicCall _ _ args => args
  | directiveCall _ _ args => args
  | construct _ _ args => args
  | arm _ pattern body => [pattern, body]
  | caseOf _ scrutinee arms => scrutinee :: arms
  | letIn _ _ value body valueType => [value, body, valueType]
  | seq _ first rest => [first, rest]
  | lambda _ _ body => [body]
  | block _ declarations body => declarations ++ [body]
  | patternCtor _ _ args => args
  | _ => []

theorem parts_of_not_isNode {n : Node} (h : n.isNode = false) : n.parts = [] := by
  cases n with
  | atom a => rfl
  | typeSpec t => rfl
  | _ => cases h

/-- **A node comes first, then its parts in order**, and what is no node
counts for nothing. -/
theorem preorder_eq_parts (n : Node) :
    n.preorder = if n.isNode then n :: preorderAll n.parts else [] := by
  cases n <;> simp [preorder, parts, isNode, preorderAll, preorderAll_append]

theorem weight_lt_of_mem_parts {n m : Node} (h : m ∈ n.parts) : m.weight < n.weight := by
  have hall {ns : List Node} (hm : m ∈ ns) : m.weight ≤ weightAll ns := by
    obtain ⟨before, after, rfl⟩ := List.append_of_mem hm
    rw [weightAll_append, weightAll]
    omega
  have hparts : weightAll n.parts < n.weight := by
    cases n <;> simp only [parts, weight, weightAll, weightAll_append] <;> omega
  exact (hall h).trans_lt hparts

/-- **What stands at a place of a tree**, if there is such a place. -/
def at? : Node → List Nat → Option Node
  | n, [] => some n
  | n, i :: place => n.parts[i]?.bind fun m => m.at? place

/-- What stands at a place of one of several trees, the first number of the
way being that of the tree. -/
def atAny? (ns : List Node) : List Nat → Option Node
  | [] => none
  | i :: place => ns[i]?.bind fun n => n.at? place

theorem atAny?_modifyHead (n : Node) (ns : List Node) (place : List Nat) :
    atAny? (n :: ns) (place.modifyHead (· + 1)) = atAny? ns place := by
  cases place <;> rfl

/-! ## Itineraries -/

/-- **An itinerary**: places in lexical order, all those that hold a node,
with the nodes that stand there. -/
structure Itinerary (look : List Nat → Option Node) (places : List (List Nat))
    (visited : List Node) : Prop where
  /-- The nodes. -/
  visits : places.map look = visited.map some
  /-- The order. -/
  ordered : places.Pairwise (· < ·)
  /-- All places that hold a node, and no others. -/
  complete : ∀ place, place ∈ places ↔ ∃ n, look place = some n ∧ n.isNode = true

namespace Itinerary

variable {look : List Nat → Option Node} {places : List (List Nat)} {visited : List Node}

theorem ne_nil {ns : List Node} (h : Itinerary (atAny? ns) places visited) {place : List Nat}
    (hplace : place ∈ places) : place ≠ [] := by
  rintro rfl
  obtain ⟨n, hn, -⟩ := (h.complete []).1 hplace
  cases hn

/-- Nothing is to be visited in no tree. -/
theorem nil : Itinerary (atAny? []) [] [] where
  visits := rfl
  ordered := .nil
  complete place := by
    cases place <;> simp [atAny?]

theorem modifyHead_lt {a b : List Nat} (h : a < b) :
    a.modifyHead (· + 1) < b.modifyHead (· + 1) := by
  cases a with
  | nil =>
    cases b with
    | nil => exact h
    | cons j b => exact List.nil_lt_cons ..
  | cons i a =>
    cases b with
    | nil => exact absurd h (List.not_lt_nil _)
    | cons j b =>
      rw [List.modifyHead_cons, List.modifyHead_cons, List.cons_lt_cons_iff,
        Nat.add_lt_add_iff_right, Nat.add_right_cancel_iff]
      exact List.cons_lt_cons_iff.1 h

/-- **One tree after another.** -/
theorem cons {n : Node} {ns : List Node} {places' : List (List Nat)} {visited' : List Node}
    (h : Itinerary n.at? places visited) (h' : Itinerary (atAny? ns) places' visited') :
    Itinerary (atAny? (n :: ns))
      (places.map (0 :: ·) ++ places'.map (List.modifyHead (· + 1))) (visited ++ visited') where
  visits := by
    rw [List.map_append, List.map_append, ← h.visits, ← h'.visits, List.map_map, List.map_map]
    congr 1
    exact List.map_congr_left fun place _ => atAny?_modifyHead n ns place
  ordered := by
    refine List.pairwise_append.2 ⟨?_, ?_, ?_⟩
    · refine List.pairwise_map.2 (h.ordered.imp fun hlt => ?_)
      exact List.cons_lt_cons_iff.2 (.inr ⟨rfl, hlt⟩)
    · exact List.pairwise_map.2 (h'.ordered.imp modifyHead_lt)
    · intro a ha b hb
      obtain ⟨a, -, rfl⟩ := List.mem_map.1 ha
      obtain ⟨b, hmem, rfl⟩ := List.mem_map.1 hb
      obtain ⟨j, b, rfl⟩ := List.exists_cons_of_ne_nil (h'.ne_nil hmem)
      exact List.cons_lt_cons_iff.2 (.inl j.succ_pos)
  complete place := by
    rw [List.mem_append, List.mem_map, List.mem_map]
    -- The first number of the way says which tree the place is in.
    match place with
    | [] =>
      refine iff_of_false ?_ (by rintro ⟨m, ⟨⟩, -⟩)
      rintro (⟨a, -, ⟨⟩⟩ | ⟨b, hb, hnil⟩)
      exact h'.ne_nil hb (List.modifyHead_eq_nil_iff.1 hnil)
    | 0 :: place =>
      refine Iff.trans ⟨?_, fun hp => .inl ⟨place, hp, rfl⟩⟩ (h.complete place)
      rintro (⟨a, ha, ⟨⟩⟩ | ⟨b, hb, hb0⟩)
      · exact ha
      · cases b <;> cases hb0
    | (i + 1) :: place =>
      refine Iff.trans ⟨?_, fun hp => .inr ⟨i :: place, hp, rfl⟩⟩ (h'.complete (i :: place))
      rintro (⟨a, ha, ⟨⟩⟩ | ⟨b, hb, hbi⟩)
      cases b with
      | nil => cases hbi
      | cons j b =>
        cases hbi
        exact hb

/-- **A node, and then its parts.** -/
theorem node {n : Node} (hn : n.isNode = true) (h : Itinerary (atAny? n.parts) places visited) :
    Itinerary n.at? ([] :: places) (n :: visited) where
  visits := by
    rw [List.map_cons, List.map_cons, ← h.visits]
    refine congrArg (some n :: ·) (List.map_congr_left fun place hplace => ?_)
    obtain ⟨i, place, rfl⟩ := List.exists_cons_of_ne_nil (h.ne_nil hplace)
    rfl
  ordered := by
    refine List.pairwise_cons.2 ⟨fun place hplace => ?_, h.ordered⟩
    obtain ⟨i, place, rfl⟩ := List.exists_cons_of_ne_nil (h.ne_nil hplace)
    exact List.nil_lt_cons ..
  complete place := by
    cases place with
    | nil => exact iff_of_true List.mem_cons_self ⟨n, rfl, hn⟩
    | cons i place =>
      rw [List.mem_cons, or_iff_right (List.cons_ne_nil i place)]
      exact h.complete (i :: place)

/-- What is no node is not visited. -/
theorem of_not_isNode {n : Node} (hn : n.isNode = false) : Itinerary n.at? [] [] where
  visits := rfl
  ordered := .nil
  complete place := by
    refine iff_of_false List.not_mem_nil ?_
    rintro ⟨m, hm, hnode⟩
    cases place with
    | nil =>
      cases hm
      rw [hn] at hnode
      cases hnode
    | cons i place =>
      rw [at?, parts_of_not_isNode hn] at hm
      cases hm

/-- **Each place is visited once.** -/
theorem nodup (h : Itinerary look places visited) : places.Nodup :=
  h.ordered.imp fun hlt => ne_of_lt hlt

/-- **A place is visited before those below it.** -/
theorem parents_first (h : Itinerary look places visited) :
    places.Pairwise fun a b => ¬ b <+: a :=
  h.ordered.imp fun hlt hbelow => hbelow.le hlt

end Itinerary

/-- Trees with itineraries, one after the other. -/
theorem exists_itinerary_all {ns : List Node}
    (h : ∀ m ∈ ns, ∃ places, Itinerary m.at? places m.preorder) :
    ∃ places, Itinerary (atAny? ns) places (preorderAll ns) := by
  induction ns with
  | nil => exact ⟨[], .nil⟩
  | cons m ns ih =>
    obtain ⟨⟨first, hfirst⟩, hns⟩ := List.forall_mem_cons.1 h
    obtain ⟨rest, hrest⟩ := ih hns
    exact ⟨_, hfirst.cons hrest⟩

/-- **The preorder of a tree is an itinerary.** The induction is on the
weight of the tree, of which each part has less. -/
theorem exists_itinerary (n : Node) : ∃ places, Itinerary n.at? places n.preorder := by
  induction hw : n.weight using Nat.strong_induction_on generalizing n with
  | h w ih =>
    rw [preorder_eq_parts]
    split
    · next hn =>
      obtain ⟨places, h⟩ := exists_itinerary_all fun m (hm : m ∈ n.parts) =>
        ih m.weight (hw ▸ weight_lt_of_mem_parts hm) m rfl
      exact ⟨_, h.node hn⟩
    · next hn => exact ⟨[], .of_not_isNode (by simpa using hn)⟩

/-- **A walk visits every node once, and parents first.** The walk of a tree
is its preorder, which is a node and then the preorders of its parts, where
what is no node counts for nothing. It visits places of the tree, and those
are the places that hold a node: each of them once, each before the places
below it, and all in the lexical order of the ways to them. -/
theorem walk_visits_once (root : Node) (h : root.isNode = true) :
    root.walk = root.preorder
      ∧ (∀ n : Node, n.preorder = if n.isNode then n :: n.parts.flatMap preorder else [])
      ∧ ∃ places : List (List Nat), places.map root.at? = root.walk.map some
        ∧ (∀ place, place ∈ places ↔ ∃ n, root.at? place = some n ∧ n.isNode = true)
        ∧ places.Nodup ∧ places.Pairwise (fun a b => ¬ b <+: a) ∧ places.Pairwise (· < ·) := by
  have hwalk := walk_eq_preorder h
  refine ⟨hwalk, fun n => ?_, ?_⟩
  · rw [preorder_eq_parts, preorderAll_eq_flatMap]
  · obtain ⟨places, hplaces⟩ := root.exists_itinerary
    rw [hwalk]
    exact ⟨places, hplaces.visits, hplaces.complete, hplaces.nodup, hplaces.parents_first,
      hplaces.ordered⟩

/-- A call with a plain value among its arguments, and one node in two
places. -/
def oddCall : Node :=
  call none (var none "f")
    [atom (.int 1), var none "x", letIn none "y" (var none "x") (unit none) absent]

/-- The plain values in it are passed over, and the node that stands in two
places is visited twice. -/
theorem walk_oddCall_visits_once :
    oddCall.isNode = true
      ∧ oddCall.walk = [oddCall, var none "f", var none "x",
        letIn none "y" (var none "x") (unit none) absent, var none "x", unit none]
      ∧ ∃ places : List (List Nat), places.map oddCall.at? = oddCall.walk.map some
        ∧ places.Nodup ∧ places.Pairwise (fun a b => ¬ b <+: a) := by
  obtain ⟨hwalk, -, places, hvisits, -, hnodup, hparents, -⟩ := walk_visits_once oddCall rfl
  exact ⟨rfl, hwalk, places, hvisits, hnodup, hparents⟩

end Node

end EmberLang
