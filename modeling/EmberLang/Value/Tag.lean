import EmberLang.Value

/-!
# Tags

What a case looks at first: the constructor of a data value, or the kind
and the contents of a constant. A constructor whose name is an integer
has the tag of that integer, so that arms for the one are also tried for
the other; they look again at what they are given. Unit and closures have no pattern of
their own and share the tags of constructors of these names, which
matches nothing that a pattern would not look at again.

Reals are compared as numbers, so the two zeros are one tag, and what is
not a number is equal to no tag.
-/

namespace EmberLang

/-- **A tag.** -/
inductive Tag where
  /-- A constructor, or what else has a name. -/
  | named (name : Name)
  /-- A constant. -/
  | literal (value : Literal)

namespace Literal

/-- **Whether two constants are of one kind and equal.** -/
def same : Literal → Literal → Bool
  | int m, int n => m == n
  | real x, real y => x == y
  | bool a, bool b => a == b
  | char s, char t => s == t
  | _, _ => false

end Literal

namespace Tag

/-- **The tag of a name.** -/
def ofName (name : Name) : Tag :=
  match name.key? with
  | some (.int n) => .literal (.int n)
  | _ => .named name

/-- Whether two tags are the same. -/
def same : Tag → Tag → Bool
  | named m, named n => m.same n
  | literal a, literal b => a.same b
  | _, _ => false

end Tag

namespace Value

/-- **The tag of a value.** -/
def tag (v : Value) : Tag :=
  match v.literal? with
  | some l => .literal l
  | none => .ofName v.typeName

end Value

end EmberLang
