/-!
# Floating-point numbers as integers times powers of two

Everything exact about a real number of the language – its shortest
decimal text, its integer part, whether it is a zero or an infinity –
is read off its representation `± m · 2 ^ q` with natural `m` and
integer `q`. This module takes a `Float` apart into that form.
-/

namespace EmberLang.Decimal

/-- What a floating-point number denotes. -/
inductive Magnitude where
  /-- Not a number. -/
  | nan
  /-- An infinity. -/
  | infinite
  /-- The number `mantissa · 2 ^ exponent`, zero included. -/
  | finite (mantissa : Nat) (exponent : Int)
  deriving DecidableEq, Repr

/-- Whether the sign bit is set. -/
def isNegative (x : Float) : Bool := x.toBits >>> 63 == 1

/-- **The magnitude of a floating-point number**, from its exponent and
fraction bits. The exponent field zero holds the subnormal numbers,
which have no implicit leading bit. -/
def magnitude (x : Float) : Magnitude :=
  let field := ((x.toBits >>> 52) &&& 0x7ff).toNat
  let fraction := (x.toBits &&& 0xfffffffffffff).toNat
  if field = 0x7ff then (if fraction = 0 then .infinite else .nan)
  else if field = 0 then .finite fraction (-1074)
  else .finite (fraction + Nat.pow 2 52) (field - 1075)

/-- The integer part of `m · 2 ^ q`: truncation drops the fraction. -/
def integerPart (m : Nat) (q : Int) : Nat :=
  if 0 ≤ q then m <<< q.toNat else m >>> (-q).toNat

/-- Whether a real number is one of the two zeros. -/
def isZero (x : Float) : Bool :=
  match magnitude x with
  | .finite 0 _ => true
  | _ => false

end EmberLang.Decimal
