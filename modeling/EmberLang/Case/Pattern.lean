import EmberLang.Value.Tag

/-!
# Patterns

A pattern is first resolved against the table of constructors. A bare
name that is a constructor becomes a pattern for that constructor; any
other bare name is a variable, and no variable may occur twice. A
constructor must be known and have as many sub-patterns as it takes
fields.

A resolved pattern is then matched with values. Sub-patterns and fields
are paired from the left as far as both go: a value from a host may have
more or fewer fields than its constructor takes.
-/

namespace EmberLang.Node

mutual

/-- **Resolves a pattern.** `names` are the variables to its left; the
result adds its own. What is no pattern stays as it is. -/
def resolvePattern (t : ConstructorTable) (names : List Name) :
    Node → Except Failure (Node × List Name)
  | patternVar p name => do
    name.check
    match t.get? name with
    | some c =>
      if c.arity = 0 then .ok (patternCtor p name [], names)
      else .error (.of (.arity name.text c.arity 0) p)
    | none =>
      if names.any (·.same name) then .error (.of (.duplicateBinding name.text) p)
      else .ok (patternVar p name, names ++ [name])
  | patternCtor p c args => do
    let known ← t.lookup c p
    if args.length = known.arity then
      let (args, names) ← resolvePatterns t names args
      return (patternCtor p c args, names)
    else .error (.of (.arity c.text known.arity args.length) p)
  | n => .ok (n, names)

/-- Resolves several patterns, from the left. -/
def resolvePatterns (t : ConstructorTable) (names : List Name) :
    List Node → Except Failure (List Node × List Name)
  | [] => .ok ([], names)
  | n :: ns => do
    let (n, names) ← resolvePattern t names n
    let (ns, names) ← resolvePatterns t names ns
    return (n :: ns, names)

end

mutual

/-- **Matches a value with a resolved pattern.** The result adds the
bindings of its variables to those made so far. -/
def matchPattern (bindings : List (Name × Value)) :
    Node → Value → Option (List (Name × Value))
  | patternWild _, _ => some bindings
  | patternVar _ name, v => some (bindings ++ [(name, v)])
  | patternLit _ l, v =>
    match v.literal? with
    | some k => if k.same l then some bindings else none
    | none => none
  | patternCtor _ c args, .data d fields =>
    if c.same d then matchPatterns bindings args fields else none
  | _, _ => none

/-- Matches fields with sub-patterns, as far as both go. -/
def matchPatterns (bindings : List (Name × Value)) :
    List Node → List Value → Option (List (Name × Value))
  | n :: ns, v :: vs =>
    match matchPattern bindings n v with
    | some bindings => matchPatterns bindings ns vs
    | none => none
  | _, _ => some bindings

end

/-- **The tag that a resolved pattern asks for**, none if it takes values
of any tag. -/
def patternTag? : Node → Option Tag
  | patternCtor _ c _ => some (.ofName c)
  | patternLit _ l => some (.literal l)
  | _ => none

end EmberLang.Node
