import EmberLang.Intrinsic

/-!
# Further operations

Operations that a host may register under names of its choice: the
larger and the smaller of some operands, characters and their code
points, joining of characters, division that rounds down, conversion to
reals, and three that hardly look at their operands. They are not tied to
a kind of operands; each says for itself what it does with constants it
has no use for.
-/

namespace EmberLang.Intrinsic

/-- An integer or a truth value as a number. -/
def number? : Literal → Option Int
  | .int n => some n
  | .bool b => some (if b then 1 else 0)
  | _ => none

/-- Whether one constant is less than another of its kind. Characters are
ordered by code points. -/
def less : Literal → Literal → Bool
  | .int a, .int b => a < b
  | .real a, .real b => a < b
  | .bool a, .bool b => !a && b
  | .char a, .char b => a < b
  | _, _ => false

/-- The first operand that no other one beats. -/
def champion (beats : Literal → Literal → Bool) : List Literal → Computed
  | [] => .failed .badValue
  | l :: ls => .result (.ofLiteral (ls.foldl (fun best k => if beats k best then k else best) l))

/-- The code point of a character. -/
def codePoint : List Literal → Computed
  | [.char s] =>
    match s.toList with
    | [c] => .result (.int c.toNat)
    | _ => .failed .wrongKind
  | _ => .failed .wrongKind

/-- The character with a code point. -/
def characterOf : List Literal → Computed
  | [l] =>
    match number? l with
    | some n =>
      if 0 ≤ n && n < 0x110000 then .result (.text (Char.ofNat n.toNat).toString)
      else .failed .badValue
    | none => .failed .wrongKind
  | _ => .failed .wrongKind

/-- Characters joined to one text. -/
def joined (done : String) : List Literal → Computed
  | [] => .result (.text done)
  | .char s :: ls => joined (done ++ s) ls
  | _ :: _ => .failed .wrongKind

/-- The remainder of a division of finite reals that rounds toward
zero, which is always exact. -/
def realRemainder (a b : Float) : Float :=
  match Decimal.magnitude a, Decimal.magnitude b with
  | .finite m q, .finite n r =>
    let e := min q r
    let rest := (m <<< (q - e).toNat) % (n <<< (r - e).toNat)
    let x := Float.scaleB (Float.ofNat rest) e
    if Decimal.isNegative a then -x else x
  | .finite _ _, .infinite => a
  | _, _ => 0 / 0

/-- The quotient of two reals, rounded down. -/
def realFloor (a b : Float) : Float :=
  let m := realRemainder a b
  let d := (a - m) / b
  let d := if !Decimal.isZero m && (b < 0) != (m < 0) then d - 1 else d
  if Decimal.isZero d then
    if Decimal.isNegative (a / b) then -0.0 else 0.0
  else
    let f := d.floor
    if d - f > 0.5 then f + 1 else f

/-- The quotient of two numbers, rounded down. -/
def floored : List Literal → Computed
  | [.real a, .real b] => if Decimal.isZero b then .byZero else .result (.real (realFloor a b))
  | [k, l] =>
    match number? k, number? l with
    | some a, some b => if b = 0 then .byZero else .result (.int (Int.fdiv a b))
    | _, _ => .failed .wrongKind
  | _ => .failed .wrongKind

/-- A constant as a real. -/
def asReal : List Literal → Computed
  | [.real x] => .result (.real x)
  | [.char s] =>
    match Decimal.readReal s.toList with
    | some x => .result (.real x)
    | none => .failed .badValue
  | [l] =>
    match (number? l).bind Decimal.realOfInt with
    | some x => .result (.real x)
    | none => .failed .outOfRange
  | _ => .failed .wrongKind

/-- The first operand. -/
def first : List Literal → Computed
  | [] => .failed .noArgument
  | l :: _ => .result (.ofLiteral l)

/-- **The operation with the given name.** -/
def extra? : String → Option (List Literal → Computed)
  | "max" => some (champion fun k best => less best k)
  | "min" => some (champion less)
  | "ord" => some codePoint
  | "chr" => some characterOf
  | "concat" => some (joined "")
  | "none" => some fun _ => .result .nothing
  | "id" => some first
  | "floordiv" => some floored
  | "toreal" => some asReal
  | "nargs" => some fun ls => .result (.int ls.length)
  | _ => none

end EmberLang.Intrinsic
