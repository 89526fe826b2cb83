/-!
# JSON values

Integers and reals are kept apart: `1` and `1.0` are different numbers
for a saved tree, whose literals have kinds. The members of an object
keep the order in which they were written.
-/

namespace EmberLang

/-- **A JSON value.** -/
inductive Json where
  /-- `null`. -/
  | null
  /-- `true` or `false`. -/
  | bool (b : Bool)
  /-- A number written without fraction and exponent. -/
  | int (n : Int)
  /-- Any other number. -/
  | real (x : Float)
  /-- A string. -/
  | str (s : String)
  /-- An array. -/
  | arr (items : List Json)
  /-- An object, its members in order. -/
  | obj (members : List (String × Json))
  deriving Inhabited

namespace Json

/-- The member of a list of members with the given key. -/
def member? (key : String) : List (String × Json) → Option Json
  | [] => none
  | (k, v) :: rest => if k = key then some v else member? key rest

/-- The member of an object with the given key; other values have no
members. -/
def get? (key : String) : Json → Option Json
  | obj members => member? key members
  | _ => none

/-- Puts a member into an object: in the place of the member with the
same key, and else at the end. -/
def insertMember (key : String) (value : Json) : List (String × Json) → List (String × Json)
  | [] => [(key, value)]
  | (k, v) :: rest => if k = key then (k, value) :: rest else (k, v) :: insertMember key value rest

end Json

end EmberLang
