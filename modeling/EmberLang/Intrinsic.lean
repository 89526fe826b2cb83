import EmberLang.Host.Result

/-!
# Intrinsics

The operations behind `@iadd` and its like. An intrinsic has a name, a
number of operands, and one kind of constants that all its operands must
have; it works on the contents of its operands. A table of intrinsics can
be extended by the host, which may also replace an entry: the new one
takes the old one's place.

The order of the checks is fixed: first that the name is known, then the
number of the operands, then their kinds from the left. Only then does
the operation run. A division by zero is an error of the program; any
other failure of an operation is its own.
-/

namespace EmberLang

/-- What an operation comes to. -/
inductive Computed where
  /-- A result. -/
  | result (r : HostResult)
  /-- A division by zero. -/
  | byZero
  /-- A failure of its own. -/
  | failed (fault : HostFault)

/-- **An intrinsic.** -/
structure Intrinsic where
  /-- Its name, without the sign. -/
  name : String
  /-- The number of its operands. -/
  arity : Nat
  /-- The kind of its operands. -/
  operand : LiteralKind
  /-- The operation, on as many constants of the kind as it takes. -/
  compute : List Literal → Computed

/-- **A table of intrinsics**, in the order in which their names first
came. -/
structure IntrinsicTable where
  /-- The entries. -/
  entries : List Intrinsic

namespace IntrinsicTable

/-- The table without entries. -/
def empty : IntrinsicTable := ⟨[]⟩

/-- The names of the intrinsics, in order. -/
def names (t : IntrinsicTable) : List String := t.entries.map (·.name)

/-- The number of intrinsics. -/
def size (t : IntrinsicTable) : Nat := t.entries.length

/-- The intrinsic with the given name. -/
def get? (t : IntrinsicTable) (name : String) : Option Intrinsic :=
  t.entries.find? (·.name == name)

/-- Whether the name is that of an intrinsic. -/
def contains (t : IntrinsicTable) (name : String) : Bool := (t.get? name).isSome

/-- Whether a tree names an intrinsic. All names of intrinsics are
words. -/
def knows (t : IntrinsicTable) : Name → Bool
  | .word name => t.contains name
  | .other _ => false

/-- Puts an intrinsic in the place of one with the same name, and else
at the end. -/
def put (i : Intrinsic) : List Intrinsic → List Intrinsic
  | [] => [i]
  | j :: rest => if j.name = i.name then i :: rest else j :: put i rest

/-- Adds an intrinsic, or replaces the one with its name. -/
def insert (t : IntrinsicTable) (i : Intrinsic) : IntrinsicTable := ⟨put i t.entries⟩

/-- The intrinsic that was added is the one found by its name. -/
@[simp]
theorem get?_insert_self (t : IntrinsicTable) (i : Intrinsic) :
    (t.insert i).get? i.name = some i := by
  unfold get? insert
  induction t.entries with
  | nil => simp [put]
  | cons j rest ih =>
    unfold put
    by_cases h : j.name = i.name
    · simp [h]
    · simp [h, ih]

/-- **Registers an operation** for operands of the kind with the given
name, which must be one of the four. -/
def register (t : IntrinsicTable) (name : String) (arity : Nat) (operand : String)
    (compute : List Literal → Computed) : Except Failure IntrinsicTable :=
  match LiteralKind.ofName? operand with
  | some kind => .ok (t.insert ⟨name, arity, kind, compute⟩)
  | none => .error .operandKind

/-- The contents of the operands, which must all be of one kind; `index`
counts those before. -/
def operands (name : String) (kind : LiteralKind) (position : Option Position) (index : Nat) :
    List Value → Except Failure (List Literal)
  | [] => .ok []
  | v :: vs =>
    let refusal := Failure.of
      (.typeMismatch (.operand name (index + 1) kind.name v.typeName.text)) position
    match v.literal? with
    | some l =>
      if l.kind = kind then do return l :: (← operands name kind position (index + 1) vs)
      else .error refusal
    | none => .error refusal

/-- **Applies an intrinsic.** -/
def apply (t : IntrinsicTable) (name : String) (args : List Value) (position : Option Position) :
    Except Failure Value :=
  match t.get? name with
  | none => .error (.of (.unknownIntrinsic name t.names) position)
  | some i =>
    if args.length = i.arity then do
      match i.compute (← operands name i.operand position 0 args) with
      | .result r => r.toValue ("@" ++ name) position
      | .byZero => .error (.of (.divisionByZero name) position)
      | .failed fault => .error (.host fault)
    else .error (.of (.intrinsicArity name i.arity args.length) position)

/-- Applies the intrinsic that a tree names. All names of intrinsics are
words. -/
def applyNamed (t : IntrinsicTable) (op : Name) (args : List Value) (position : Option Position) :
    Except Failure Value :=
  match op with
  | .word name => t.apply name args position
  | .other _ => do
    op.check
    .error (.of (.unknownIntrinsic op.text t.names) position)

end IntrinsicTable

end EmberLang
