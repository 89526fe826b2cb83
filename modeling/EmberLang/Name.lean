import EmberLang.Json.Coerce

/-!
# Names

In a program text a name is a word. A saved tree may hold any JSON value
in the place of a name, and loading it does not object: such a name can
be carried along, saved again and written into a line as its text. What
it is good for beyond that depends on its kind.

* Whatever is no array and no object can be bound and looked up. Numbers
  that are equal are then one name, and a truth value is a number: `1`,
  `1.0` and `true` are one name. `Name.key?` is what names are told apart
  by and `Name.same` compares them.
* Only words can be listed with commas between them.

For words all this comes to equality of strings, see `Name.same_word`.
-/

namespace EmberLang

/-- **A name.** -/
inductive Name where
  /-- A word, as in a program text. -/
  | word (s : String)
  /-- Any other value in the place of a name. -/
  | other (datum : Json)
  deriving Inhabited

namespace Name

instance : Coe String Name := ⟨word⟩

/-! ## Names as JSON and as text -/

/-- The name that a JSON value stands for. -/
def ofJson : Json → Name
  | .str s => word s
  | j => other j

/-- **A name as JSON.** -/
def toJson : Name → Json
  | word s => .str s
  | other j => j

@[simp]
theorem toJson_ofJson (j : Json) : (ofJson j).toJson = j := by cases j <;> rfl

@[simp]
theorem ofJson_toJson_word (s : String) : ofJson (word s).toJson = word s := rfl

/-- **The text of a name**, as it stands in a line. -/
def text : Name → String
  | word s => s
  | other j => j.toText

/-- A name as data, a word between quotes. -/
def shown (n : Name) : String := n.toJson.shown

/-- Whether a name is the given word. -/
def isWord (s : String) : Name → Bool
  | word t => t == s
  | other _ => false

/-- Whether a name counts as missing: the empty word does, and so does
any value that counts as false. -/
def isBlank (n : Name) : Bool := !n.toJson.toBool

/-- Checks that a name is a word. -/
def needWord : Name → Except Failure Unit
  | word _ => .ok ()
  | other _ => .error (.shape .unfitName)

/-- **Words with commas between them.** -/
def commas (names : List Name) : Except Failure String := do
  names.forM needWord
  return ", ".intercalate (names.map text)

/-! ## Names that are looked up -/

/-- What names are told apart by. -/
inductive Key where
  /-- A word. -/
  | word (s : String)
  /-- Nothing. -/
  | null
  /-- An integer. -/
  | int (n : Int)
  /-- A real number that is no integer, by its bits. -/
  | real (bits : UInt64)
  deriving DecidableEq, Repr

/-- **The key of a name**, `none` for arrays and objects. -/
def key? : Name → Option Key
  | word s => some (.word s)
  | other .null => some .null
  | other (.bool b) => some (.int (if b then 1 else 0))
  | other (.int n) => some (.int n)
  | other (.real x) =>
    match Decimal.integer? x with
    | some n => some (.int n)
    | none => some (.real x.toBits)
  | other (.str s) => some (.word s)
  | other (.arr _) => none
  | other (.obj _) => none

/-- Checks that a name can be looked up. -/
def check (n : Name) : Except Failure Unit :=
  if n.key?.isSome then .ok () else .error (.shape .unfitName)

/-- **Whether two names are the same.** -/
def same (m n : Name) : Bool := m.key? == n.key?

@[simp]
theorem check_word (s : String) : (word s).check = .ok () := rfl

@[simp]
theorem same_word (s t : String) : (word s).same (word t) = (s == t) := by
  rw [Bool.eq_iff_iff]
  simp [same, key?]

@[simp]
theorem same_self (n : Name) : n.same n = true := by simp [same]

theorem same_comm (m n : Name) : m.same n = n.same m := by
  rw [Bool.eq_iff_iff, same, same, beq_iff_eq, beq_iff_eq]
  exact eq_comm

theorem same_trans {l m n : Name} (h : l.same m = true) (h' : m.same n = true) :
    l.same n = true := by
  unfold same at h h' ⊢
  rw [eq_of_beq h, eq_of_beq h', beq_self_eq_true]

/-- Names that are the same are the same as the same names. -/
theorem same_congr {m n : Name} (h : m.same n = true) (x : Name) : x.same m = x.same n := by
  unfold same at h ⊢
  rw [eq_of_beq h]

end Name

end EmberLang
