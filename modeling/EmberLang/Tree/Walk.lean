import EmberLang.Error
import EmberLang.Tree

/-!
# Walking a tree

`Node.children` lists the nodes directly below a node, in the order of
its parts, and passes over the plain values and types among them. A walk
visits a node before the nodes below it, and these in order.

There are two ways to say this. `preorder` says it by recursion on the
tree. `walk` says it with a stack of nodes still to visit, which needs no
room that grows with the depth of the tree. Programs use the second.
-/

namespace EmberLang.Node

/-- The nodes among the parts of a node. -/
def nodesOf (parts : List Node) : List Node := parts.filter isNode

/-- **The nodes directly below a node**, in the order of its parts. -/
def children : Node → List Node
  | program _ declarations body => nodesOf declarations ++ nodesOf [body]
  | externDecl _ _ _ paramTypes returnType => nodesOf paramTypes ++ nodesOf [returnType]
  | dataDecl _ _ _ constructors => nodesOf constructors
  | constructorDecl _ _ fieldTypes => nodesOf fieldTypes
  | typeDecl _ _ _ aliased => nodesOf [aliased]
  | param _ _ paramType => nodesOf [paramType]
  | funDecl _ _ _ params body returnType => nodesOf params ++ nodesOf [body, returnType]
  | call _ callee args => nodesOf (callee :: args)
  | intrinsicCall _ _ args => nodesOf args
  | directiveCall _ _ args => nodesOf args
  | construct _ _ args => nodesOf args
  | arm _ pattern body => nodesOf [pattern, body]
  | caseOf _ scrutinee arms => nodesOf (scrutinee :: arms)
  | letIn _ _ value body valueType => nodesOf [value, body, valueType]
  | seq _ first rest => nodesOf [first, rest]
  | lambda _ _ body => nodesOf [body]
  | block _ declarations body => nodesOf declarations ++ nodesOf [body]
  | patternCtor _ _ args => nodesOf args
  | _ => []

mutual

/-- **The nodes of a tree in preorder**, by recursion on the tree; what
is no node counts for nothing. -/
def preorder : Node → List Node
  | atom _ => []
  | typeSpec _ => []
  | program p ds b => program p ds b :: (preorderAll ds ++ preorder b)
  | externDecl p n tps pts r => externDecl p n tps pts r :: (preorderAll pts ++ preorder r)
  | dataDecl p n tps cs => dataDecl p n tps cs :: preorderAll cs
  | constructorDecl p n fts => constructorDecl p n fts :: preorderAll fts
  | typeDecl p n tps t => typeDecl p n tps t :: preorder t
  | param p n t => param p n t :: preorder t
  | funDecl p n tps ps b r =>
    funDecl p n tps ps b r :: (preorderAll ps ++ (preorder b ++ preorder r))
  | literal p v => [literal p v]
  | unit p => [unit p]
  | var p n => [var p n]
  | call p c as => call p c as :: (preorder c ++ preorderAll as)
  | intrinsicCall p op as => intrinsicCall p op as :: preorderAll as
  | directiveCall p n as => directiveCall p n as :: preorderAll as
  | construct p c as => construct p c as :: preorderAll as
  | arm p t b => arm p t b :: (preorder t ++ preorder b)
  | caseOf p s as => caseOf p s as :: (preorder s ++ preorderAll as)
  | letIn p n v b t => letIn p n v b t :: (preorder v ++ (preorder b ++ preorder t))
  | seq p f r => seq p f r :: (preorder f ++ preorder r)
  | lambda p ps b => lambda p ps b :: preorder b
  | block p ds b => block p ds b :: (preorderAll ds ++ preorder b)
  | patternVar p n => [patternVar p n]
  | patternWild p => [patternWild p]
  | patternLit p v => [patternLit p v]
  | patternCtor p c as => patternCtor p c as :: preorderAll as

/-- The nodes of several trees, one after the other. -/
def preorderAll : List Node → List Node
  | [] => []
  | n :: ns => preorder n ++ preorderAll ns

end

mutual

/-- The number of nodes of a tree, counting plain values and types as
well. -/
def weight : Node → Nat
  | program _ ds b => 1 + weightAll ds + weight b
  | externDecl _ _ _ pts r => 1 + weightAll pts + weight r
  | dataDecl _ _ _ cs => 1 + weightAll cs
  | constructorDecl _ _ fts => 1 + weightAll fts
  | typeDecl _ _ _ t => 1 + weight t
  | param _ _ t => 1 + weight t
  | funDecl _ _ _ ps b r => 1 + weightAll ps + weight b + weight r
  | call _ c as => 1 + weight c + weightAll as
  | intrinsicCall _ _ as => 1 + weightAll as
  | directiveCall _ _ as => 1 + weightAll as
  | construct _ _ as => 1 + weightAll as
  | arm _ t b => 1 + weight t + weight b
  | caseOf _ s as => 1 + weight s + weightAll as
  | letIn _ _ v b t => 1 + weight v + weight b + weight t
  | seq _ f r => 1 + weight f + weight r
  | lambda _ _ b => 1 + weight b
  | block _ ds b => 1 + weightAll ds + weight b
  | patternCtor _ _ as => 1 + weightAll as
  | _ => 1

/-- The number of nodes of several trees. -/
def weightAll : List Node → Nat
  | [] => 0
  | n :: ns => weight n + weightAll ns

end

theorem weight_pos (n : Node) : 0 < n.weight := by
  cases n <;> simp only [weight] <;> omega

theorem weightAll_append (ns ms : List Node) :
    weightAll (ns ++ ms) = weightAll ns + weightAll ms := by
  induction ns with
  | nil => simp [weightAll]
  | cons n ns ih => simp [weightAll, ih]; omega

theorem weightAll_nodesOf_le (ns : List Node) : weightAll (nodesOf ns) ≤ weightAll ns := by
  induction ns with
  | nil => simp [nodesOf]
  | cons n ns ih =>
    unfold nodesOf at ih ⊢
    rw [List.filter_cons]
    split <;> simp only [weightAll] <;> omega

/-- **The nodes below a node weigh less than the node.** -/
theorem weightAll_children_lt (n : Node) : weightAll n.children < n.weight := by
  cases n <;> simp only [children, weight, weightAll_append, weightAll] <;>
    grind [weightAll_nodesOf_le, weightAll]

/-- The walk's loop: `seen` holds the nodes visited so far, the last one
first, and the stack those still to visit. -/
def walkLoop (seen : List Node) (stack : List Node) : List Node :=
  match stack with
  | [] => seen.reverse
  | n :: rest => walkLoop (n :: seen) (n.children ++ rest)
termination_by weightAll stack
decreasing_by
  have := weightAll_children_lt n
  simp only [weightAll_append, weightAll]
  omega

/-- **The walk of a tree**: every node before the nodes below it. -/
def walk (root : Node) : List Node := walkLoop [] [root]

/-- The walk from a root that may be anything. A type has nothing below
it; a plain value cannot be walked. -/
def walk? (root : Node) : Except Failure (List Node) :=
  match root with
  | atom _ => .error (.shape .notANode)
  | _ => .ok root.walk

end EmberLang.Node
