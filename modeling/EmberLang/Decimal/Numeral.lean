import EmberLang.Text.Blank
import EmberLang.Text.DecimalDigit

/-!
# Integers and their decimal text

Integers of the language are unbounded, their *text* is not: a numeral
of more than `maxDigits` digits is neither read nor written. The limit
is on the text only – arithmetic on larger integers goes on, and fails
no earlier than where a result has to be shown.

There are two readers. `readDigits` reads the plain numeral that the
scanner has already recognised. `readTyped` reads what a person or
another program has typed: blanks around it, either sign, the digits of
any script, and single underscores between digits.
-/

namespace EmberLang.Decimal

/-- **The largest number of digits a numeral may have.** The sign is no
digit, leading zeros are. -/
def maxDigits : Nat := 4300

/-- The value of a list of digits, the most significant first. -/
def ofDigits (ds : List Nat) : Nat :=
  ds.foldl (fun n d => 10 * n + d) 0

/-- The value of an ASCII digit. -/
def asciiDigit (c : Char) : Nat := c.toNat - '0'.toNat

/-- Whether an integer has a text, that is, at most `maxDigits`
digits. -/
def isPrintable (n : Int) : Bool := n.natAbs < Nat.pow 10 maxDigits

/-- **The decimal text of an integer**, `none` when it would be too
long. -/
def intText? (n : Int) : Option String :=
  if isPrintable n then some (toString n) else none

/-- A leading minus sign, and what follows it. -/
def splitMinus : List Char → Bool × List Char
  | '-' :: cs => (true, cs)
  | cs => (false, cs)

/-- A leading sign of either kind, and what follows it. -/
def splitSign : List Char → Bool × List Char
  | '-' :: cs => (true, cs)
  | '+' :: cs => (false, cs)
  | cs => (false, cs)

/-- An integer from its sign and its magnitude. -/
def signed (negative : Bool) (n : Nat) : Int :=
  if negative then -n else n

/-- **Reads a plain numeral**: an optional minus sign and ASCII digits,
which the caller vouches for. Only its length can be at fault. -/
def readDigits (text : String) : Option Int :=
  let (negative, ds) := splitMinus text.toList
  if ds.length ≤ maxDigits then some (signed negative (ofDigits (ds.map asciiDigit))) else none

/-- The digits of a typed numeral: at least one digit, with single
underscores allowed between two digits. -/
def digitRun : List Char → Option (List Nat)
  | [] => none
  | [c] => (Text.digitValue? c).map ([·])
  | c :: '_' :: cs => do return (← Text.digitValue? c) :: (← digitRun cs)
  | c :: cs => do return (← Text.digitValue? c) :: (← digitRun cs)

/-- **Reads a typed numeral**, `none` when the text is no numeral or has
too many digits. -/
def readTyped (cs : List Char) : Option Int := do
  let (negative, body) := splitSign (Text.trimNumeral cs)
  let ds ← digitRun body
  if ds.length ≤ maxDigits then some (signed negative (ofDigits ds)) else none

end EmberLang.Decimal
