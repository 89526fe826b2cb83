import EmberLang.Intrinsic

/-!
# The standard intrinsics

Arithmetic and comparison of integers and of reals, and the three
connectives. Division of integers rounds toward zero, and the remainder
has the sign of the dividend. Reals follow the standard for binary
arithmetic, except that a division by zero is an error.
-/

namespace EmberLang

namespace Intrinsic

/-- An operation on two integers. -/
def onInts (name : String) (f : Int → Int → Computed) : Intrinsic where
  name := name
  arity := 2
  operand := .int
  compute
    | [.int a, .int b] => f a b
    | _ => .failed .wrongKind

/-- An operation on two reals. -/
def onReals (name : String) (f : Float → Float → Computed) : Intrinsic where
  name := name
  arity := 2
  operand := .real
  compute
    | [.real a, .real b] => f a b
    | _ => .failed .wrongKind

/-- An operation on two truth values. -/
def onBools (name : String) (f : Bool → Bool → Bool) : Intrinsic where
  name := name
  arity := 2
  operand := .bool
  compute
    | [.bool a, .bool b] => .result (.bool (f a b))
    | _ => .failed .wrongKind

/-- An arithmetic operation on two integers. -/
def intOp (name : String) (f : Int → Int → Int) : Intrinsic :=
  onInts name fun a b => .result (.int (f a b))

/-- A division of two integers, by what is not zero. -/
def intDivision (name : String) (f : Int → Int → Int) : Intrinsic :=
  onInts name fun a b => if b = 0 then .byZero else .result (.int (f a b))

/-- **The quotient of two integers**: that of their magnitudes, and
negative if just one of the two is. -/
def quotient (a b : Int) : Int :=
  let q : Int := a.natAbs / b.natAbs
  if decide (a < 0) ≠ decide (b < 0) then -q else q

/-- What the quotient leaves of the dividend. -/
def remainder (a b : Int) : Int := a - b * quotient a b

/-- A comparison of two integers. -/
def intTest (name : String) (f : Int → Int → Bool) : Intrinsic :=
  onInts name fun a b => .result (.bool (f a b))

/-- An arithmetic operation on two reals. -/
def realOp (name : String) (f : Float → Float → Float) : Intrinsic :=
  onReals name fun a b => .result (.real (f a b))

/-- A comparison of two reals. -/
def realTest (name : String) (f : Float → Float → Bool) : Intrinsic :=
  onReals name fun a b => .result (.bool (f a b))

/-- The negation of an integer. -/
def intNegation : Intrinsic where
  name := "ineg"
  arity := 1
  operand := .int
  compute
    | [.int a] => .result (.int (-a))
    | _ => .failed .wrongKind

/-- The division of two reals. -/
def realDivision : Intrinsic :=
  onReals "rdiv" fun a b => if Decimal.isZero b then .byZero else .result (.real (a / b))

/-- The negation of a truth value. -/
def boolNegation : Intrinsic where
  name := "bnot"
  arity := 1
  operand := .bool
  compute
    | [.bool a] => .result (.bool (!a))
    | _ => .failed .wrongKind

end Intrinsic

namespace IntrinsicTable

open Intrinsic

/-- **The standard table.** -/
def standard : IntrinsicTable where
  entries := [
    intOp "iadd" (· + ·), intOp "isub" (· - ·), intOp "imul" (· * ·),
    intDivision "idiv" quotient, intDivision "irem" remainder, intNegation,
    realOp "radd" (· + ·), realOp "rsub" (· - ·), realOp "rmul" (· * ·), realDivision,
    intTest "icmpeq" (· == ·), intTest "icmpne" (· != ·),
    intTest "icmpgr" fun a b => b < a, intTest "icmpge" fun a b => b ≤ a,
    intTest "icmpls" fun a b => a < b, intTest "icmple" fun a b => a ≤ b,
    realTest "rcmpeq" (· == ·), realTest "rcmpne" (· != ·),
    realTest "rcmpgr" fun a b => b < a, realTest "rcmpge" fun a b => b ≤ a,
    realTest "rcmpls" fun a b => a < b, realTest "rcmple" fun a b => a ≤ b,
    onBools "band" (· && ·), onBools "bor" (· || ·), boolNegation]

end IntrinsicTable

end EmberLang
