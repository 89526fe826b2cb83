import EmberLang.Decimal.Numeral
import EmberLang.Decimal.Shortest

/-!
# Real numbers and their decimal text

`realText` writes a real with the fewest digits that read back, in one
of two layouts: positional for numbers of ordinary size, which always
shows a point, and scientific otherwise. `readReal` reads the decimals
of a program text and those typed by a person, who may also write
underscores, name an infinity, or use the digits of another script.
-/

namespace EmberLang.Decimal

/-- **How the text of a real is laid out.** -/
structure RealLayout where
  /-- The smallest decimal exponent written positionally. -/
  positionalFrom : Int
  /-- The smallest larger exponent written scientifically again. -/
  positionalBelow : Int
  /-- The least number of digits of a written exponent. -/
  exponentDigits : Nat

/-- Reals are positional from `10 ^ -4` on and below `10 ^ 16`, and an
exponent has at least two digits. -/
def realLayout : RealLayout := ⟨-4, 16, 2⟩

/-- Digits with a point after the first `k`; the point is never first or
last, zeros fill up. -/
def positional (ds : List Char) (k : Int) : List Char :=
  if k ≤ 0 then '0' :: '.' :: List.replicate (-k).toNat '0' ++ ds
  else
    let whole := ds.take k.toNat ++ List.replicate (k.toNat - ds.length) '0'
    match ds.drop k.toNat with
    | [] => whole ++ ['.', '0']
    | fraction => whole ++ '.' :: fraction

/-- Digits with a point after the first one, if there are more, and the
exponent with its sign. -/
def scientific (layout : RealLayout) (ds : List Char) (e : Int) : List Char :=
  let exponent := Nat.toDigits 10 e.natAbs
  let lead := match ds with
    | d :: [] => [d]
    | d :: rest => d :: '.' :: rest
    | [] => []
  lead ++ 'e' :: (if e < 0 then '-' else '+')
    :: List.replicate (layout.exponentDigits - exponent.length) '0' ++ exponent

/-- The digits of a decimal without the zeros at its end. -/
def significantDigits (n : Nat) : List Char :=
  ((Nat.toDigits 10 n).reverse.dropWhile (· == '0')).reverse

/-- The text of a positive finite number. -/
def magnitudeText (m : Nat) (q : Int) : List Char :=
  let (n, e) := shortest m q
  let ds := significantDigits n
  -- the exponent of the leading digit
  let lead := e + ((Nat.toDigits 10 n).length : Int) - 1
  if realLayout.positionalFrom ≤ lead && lead < realLayout.positionalBelow then
    positional ds (lead + 1)
  else scientific realLayout ds lead

/-- **The text of a real number.** -/
def realText (x : Float) : String :=
  match magnitude x with
  | .nan => "nan"
  | .infinite => if isNegative x then "-inf" else "inf"
  | .finite m q =>
    let body := if m = 0 then ['0', '.', '0'] else magnitudeText m q
    String.ofList (if isNegative x then '-' :: body else body)

/-! ## Reading -/

/-- `± n · 10 ^ e`, rounded to the nearest floating-point number. -/
def ofDecimal (negative : Bool) (n : Nat) (e : Int) : Float :=
  let x := Float.ofScientific n (e < 0) e.natAbs
  if negative then -x else x

/-- The exponent part of a decimal, all of the remaining text: nothing,
or a mark, an optional sign and digits. -/
def readExponent : List Char → Option Int
  | [] => some 0
  | mark :: cs =>
    let (negative, ds) := splitSign cs
    if (mark = 'e' || mark = 'E') && !ds.isEmpty && ds.all Char.isDigit then
      some (signed negative (ofDigits (ds.map asciiDigit)))
    else none

/-- A decimal without sign: digits with at most one point among or
around them, and an optional exponent. -/
def readUnsigned (negative : Bool) (cs : List Char) : Option Float := do
  let whole := cs.takeWhile Char.isDigit
  let (fraction, rest) := match cs.dropWhile Char.isDigit with
    | '.' :: more => (more.takeWhile Char.isDigit, more.dropWhile Char.isDigit)
    | more => ([], more)
  if whole.isEmpty && fraction.isEmpty then none
  let e ← readExponent rest
  return ofDecimal negative (ofDigits ((whole ++ fraction).map asciiDigit)) (e - fraction.length)

/-- The same text with ASCII digits for the digits of other scripts. -/
def asciiDigits (cs : List Char) : List Char :=
  cs.map fun c => match Text.digitValue? c with
    | some d => Nat.digitChar d
    | none => c

/-- The text without its underscores, each of which must stand between
two digits; `before` tells whether a digit comes before. -/
def dropUnderscores (before : Bool) : List Char → Option (List Char)
  | [] => some []
  | '_' :: cs =>
    match cs with
    | d :: _ => if before && d.isDigit then dropUnderscores false cs else none
    | [] => none
  | c :: cs => (dropUnderscores c.isDigit cs).map (c :: ·)

/-- **Reads a real number**, `none` when the text is none. -/
def readReal (text : List Char) : Option Float := do
  let (negative, body) := splitSign (asciiDigits (Text.trimNumeral text))
  let name := String.ofList (body.map Char.toLower)
  if name = "inf" || name = "infinity" then
    return if negative then -(1.0 / 0.0) else 1.0 / 0.0
  if name = "nan" then return 0.0 / 0.0
  readUnsigned negative (← dropUnderscores false body)

/-- **The real nearest to an integer**, `none` beyond the largest finite
one. -/
def realOfInt (n : Int) : Option Float :=
  let x := ofDecimal (n < 0) n.natAbs 0
  match magnitude x with
  | .finite _ _ => some x
  | _ => none

/-- **The integer that a real number is**, if it is one. -/
def integer? (x : Float) : Option Int :=
  match magnitude x with
  | .finite m q =>
    if 0 ≤ q || m % Nat.pow 2 (-q).toNat = 0 then some (signed (isNegative x) (integerPart m q))
    else none
  | _ => none

/-- What cutting off the fraction of a real gives. -/
inductive Truncation where
  /-- The integer part. -/
  | int (n : Int)
  /-- An infinity has no integer part. -/
  | infinite
  /-- Neither has what is no number. -/
  | nan

/-- The integer part of a real number. -/
def truncate (x : Float) : Truncation :=
  match magnitude x with
  | .finite m q => .int (signed (isNegative x) (integerPart m q))
  | .infinite => .infinite
  | .nan => .nan

end EmberLang.Decimal
