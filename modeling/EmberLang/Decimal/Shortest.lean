import EmberLang.Decimal.Binary

/-!
# The shortest decimal that reads back

A positive number `v = m · 2 ^ q` is what every real of a whole interval
rounds to: the points nearer to `v` than to its neighbours, and the two
end points as well when `m` is even, since a tie goes to the even
mantissa. Any decimal in that interval reads back as `v`.

`shortest` looks for the decimal of the fewest digits there. On the grid
of decimals with `k` digits only the two neighbours of `v` need a test:
if any point of the grid lies in the interval, one of them does. The
first `k` with a hit wins, of two hits the nearer one, and a tie goes to
the even digit. Seventeen digits always suffice.

All comparisons are between natural numbers: a number is kept as a
quotient and the denominators are multiplied out.
-/

namespace EmberLang.Decimal

/-- A non-negative rational number, not in lowest terms. -/
structure Quotient where
  /-- The numerator. -/
  num : Nat
  /-- The denominator, which is never zero here. -/
  den : Nat

namespace Quotient

/-- `n · 2 ^ e`. -/
def scale2 (n : Nat) (e : Int) : Quotient :=
  if 0 ≤ e then ⟨n <<< e.toNat, 1⟩ else ⟨n, 1 <<< (-e).toNat⟩

/-- `n · 10 ^ e`. -/
def scale10 (n : Nat) (e : Int) : Quotient :=
  if 0 ≤ e then ⟨n * Nat.pow 10 e.toNat, 1⟩ else ⟨n, Nat.pow 10 (-e).toNat⟩

/-- The exact order of two quotients. -/
def compare (a b : Quotient) : Ordering :=
  Ord.compare (a.num * b.den) (b.num * a.den)

/-- The largest `n` with `n · 10 ^ e ≤ a`. -/
def floor10 (a : Quotient) (e : Int) : Nat :=
  if 0 ≤ e then a.num / (a.den * Nat.pow 10 e.toNat)
  else a.num * Nat.pow 10 (-e).toNat / a.den

end Quotient

/-- **The reals that round to one floating-point number**, with the
number itself. -/
structure Interval where
  /-- The lower end. -/
  low : Quotient
  /-- The number. -/
  value : Quotient
  /-- The upper end. -/
  high : Quotient
  /-- Whether the ends belong to the interval. -/
  closed : Bool

namespace Interval

/-- The interval of `m · 2 ^ q`. Below a power of two the neighbour is
only half as far away, except at the smallest exponent. -/
def around (m : Nat) (q : Int) : Interval where
  low := .scale2 (4 * m - if m = Nat.pow 2 52 && -1074 < q then 1 else 2) (q - 2)
  value := .scale2 (4 * m) (q - 2)
  high := .scale2 (4 * m + 2) (q - 2)
  closed := m % 2 == 0

/-- Whether a quotient lies in the interval. -/
def contains (i : Interval) (a : Quotient) : Bool :=
  match i.low.compare a, a.compare i.high with
  | .lt, .lt => true
  | .gt, _ => false
  | _, .gt => false
  | _, _ => i.closed

/-- The neighbour of the value on the grid of multiples of `10 ^ e` that
lies in the interval, the nearer one if both do. -/
def gridPoint? (i : Interval) (e : Int) : Option Nat :=
  let below := i.value.floor10 e
  let above := below + 1
  match i.contains (.scale10 below e), i.contains (.scale10 above e) with
  | false, false => none
  | true, false => some below
  | false, true => some above
  | true, true =>
    -- twice the value against the sum of the two neighbours
    match (Quotient.mk (2 * i.value.num) i.value.den).compare (.scale10 (below + above) e) with
    | .lt => some below
    | .gt => some above
    | .eq => some (if below % 2 = 0 then below else above)

end Interval

/-- The exponent `e` with `10 ^ e ≤ m · 2 ^ q < 10 ^ (e + 1)`, for
positive `m`: an estimate from the binary exponent, mended by at most
one step in either direction. -/
def decimalExponent (m : Nat) (q : Int) : Int :=
  let v := Quotient.scale2 m q
  let guess := (m.log2 + q) * 30103 / 100000
  if v.compare (.scale10 1 guess) == .lt then guess - 1
  else if v.compare (.scale10 1 (guess + 1)) == .lt then guess
  else guess + 1

/-- The search for the fewest digits: `fuel` grids are left to try, and
the next one has the step `10 ^ e`. -/
def shortestFrom (i : Interval) : (fuel : Nat) → (e : Int) → Nat × Int
  | 0, e => (i.value.floor10 e, e)
  | fuel + 1, e =>
    match i.gridPoint? e with
    | some n => (n, e)
    | none => shortestFrom i fuel (e - 1)

/-- **The shortest decimal that reads back**: `(n, e)` with
`n · 10 ^ e` in the interval of `m · 2 ^ q`, for positive `m`. -/
def shortest (m : Nat) (q : Int) : Nat × Int :=
  shortestFrom (.around m q) 17 (decimalExponent m q)

end EmberLang.Decimal
