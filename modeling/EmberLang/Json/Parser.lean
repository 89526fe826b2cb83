import EmberLang.Decimal.Real
import EmberLang.Error
import EmberLang.Json

/-!
# Reading JSON text

Reading is by recursive descent on the characters. A number is an
integer when it has neither fraction nor exponent; the three names that
the writer gives to reals that are no numbers are read back. When an
object has two members with one key, the later value takes the place of
the earlier one.

Every value takes at least one character, so the number of characters
bounds the depth of the descent.
-/

namespace EmberLang.Json

/-- The text without the blanks it begins with. -/
def skipBlanks (cs : List Char) : List Char :=
  cs.dropWhile fun c => c == ' ' || c == '\t' || c == '\n' || c == '\r'

/-- The value of a digit in base sixteen. -/
def hexValue? (c : Char) : Option Nat :=
  if c.isDigit then some (c.toNat - '0'.toNat)
  else if 'a' ≤ c && c ≤ 'f' then some (c.toNat - 'a'.toNat + 10)
  else if 'A' ≤ c && c ≤ 'F' then some (c.toNat - 'A'.toNat + 10)
  else none

/-- The value of four digits in base sixteen. -/
def hex4? (a b c d : Char) : Option Nat := do
  return (((← hexValue? a) * 16 + (← hexValue? b)) * 16 + (← hexValue? c)) * 16 + (← hexValue? d)

/-- The character with a code point; a surrogate that has lost its
partner becomes the replacement character. -/
def charOf (n : Nat) : Char :=
  if 0xd800 ≤ n && n ≤ 0xdfff then '�' else Char.ofNat n

/-- The character of an escape of one letter. -/
def unescape? : Char → Option Char
  | '"' => some '"'
  | '\\' => some '\\'
  | '/' => some '/'
  | 'b' => some '\x08'
  | 'f' => some '\x0c'
  | 'n' => some '\n'
  | 'r' => some '\r'
  | 't' => some '\t'
  | _ => none

/-- The rest of a string, after its opening quote; `done` holds the
characters read so far, the last one first, and `high` the upper half of
a surrogate pair that waits for the lower one. -/
def stringRest (done : List Char) (high : Option Nat) :
    List Char → Except Failure (String × List Char)
  | '"' :: rest => .ok (String.ofList (settled done high).reverse, rest)
  | '\\' :: 'u' :: a :: b :: c :: d :: rest =>
    match hex4? a b c d with
    | none => .error .badJson
    | some n =>
      match high with
      | some h =>
        if 0xdc00 ≤ n && n ≤ 0xdfff then
          stringRest (Char.ofNat (0x10000 + (h - 0xd800) * 0x400 + (n - 0xdc00)) :: done) none rest
        else if 0xd800 ≤ n && n ≤ 0xdbff then stringRest (charOf h :: done) (some n) rest
        else stringRest (charOf n :: charOf h :: done) none rest
      | none =>
        if 0xd800 ≤ n && n ≤ 0xdbff then stringRest done (some n) rest
        else stringRest (charOf n :: done) none rest
  | '\\' :: e :: rest =>
    match unescape? e with
    | some c => stringRest (c :: settled done high) none rest
    | none => .error .badJson
  | c :: rest =>
    if c.toNat < 0x20 || c = '\\' then .error .badJson
    else stringRest (c :: settled done high) none rest
  | [] => .error .badJson
where
  /-- What has been read once a waiting half is known to stay alone. -/
  settled (done : List Char) : Option Nat → List Char
    | some h => charOf h :: done
    | none => done

/-- The digits a number begins with: a zero stands alone. -/
def wholePart : List Char → List Char
  | '0' :: _ => ['0']
  | cs => cs.takeWhile Char.isDigit

/-- A fraction with its point, if there is one, and the rest. -/
def fractionPart : List Char → List Char × List Char
  | '.' :: cs =>
    if (cs.takeWhile Char.isDigit).isEmpty then ([], '.' :: cs)
    else ('.' :: cs.takeWhile Char.isDigit, cs.dropWhile Char.isDigit)
  | cs => ([], cs)

/-- An exponent with its mark, if there is one, and the rest. -/
def exponentPart : List Char → List Char × List Char
  | mark :: cs =>
    if mark = 'e' || mark = 'E' then
      let sign := (cs.take 1).filter fun c => c = '+' || c = '-'
      let ds := (cs.drop sign.length).takeWhile Char.isDigit
      if ds.isEmpty then ([], mark :: cs)
      else (mark :: sign ++ ds, cs.drop (sign.length + ds.length))
    else ([], mark :: cs)
  | [] => ([], [])

/-- A number: an optional minus sign, digits without a leading zero, and
an optional fraction and exponent. -/
def number (cs : List Char) : Except Failure (Json × List Char) :=
  let (negative, body) := Decimal.splitMinus cs
  let whole := wholePart body
  let (fraction, afterFraction) := fractionPart (body.drop whole.length)
  let (exponent, rest) := exponentPart afterFraction
  if whole.isEmpty then .error .badJson
  else if fraction.isEmpty && exponent.isEmpty then
    if whole.length ≤ Decimal.maxDigits then
      .ok (.int (Decimal.signed negative (Decimal.ofDigits (whole.map Decimal.asciiDigit))), rest)
    else .error .numeralTooLong
  else
    match Decimal.readUnsigned negative (whole ++ fraction ++ exponent) with
    | some x => .ok (.real x, rest)
    | none => .error .badJson

/-- A value that is no container and no string: a name or a number. -/
def plain : List Char → Except Failure (Json × List Char)
  | 'n' :: 'u' :: 'l' :: 'l' :: rest => .ok (.null, rest)
  | 't' :: 'r' :: 'u' :: 'e' :: rest => .ok (.bool true, rest)
  | 'f' :: 'a' :: 'l' :: 's' :: 'e' :: rest => .ok (.bool false, rest)
  | 'N' :: 'a' :: 'N' :: rest => .ok (.real (0.0 / 0.0), rest)
  | 'I' :: 'n' :: 'f' :: 'i' :: 'n' :: 'i' :: 't' :: 'y' :: rest => .ok (.real (1.0 / 0.0), rest)
  | '-' :: 'I' :: 'n' :: 'f' :: 'i' :: 'n' :: 'i' :: 't' :: 'y' :: rest =>
    .ok (.real (-(1.0 / 0.0)), rest)
  | cs => number cs

mutual

/-- A value, at most `fuel` levels deep. -/
def value : (fuel : Nat) → List Char → Except Failure (Json × List Char)
  | 0, _ => .error .badJson
  | _ + 1, '"' :: rest => do
    let (s, rest) ← stringRest [] none rest
    return (.str s, rest)
  | fuel + 1, '[' :: rest =>
    match skipBlanks rest with
    | ']' :: rest => .ok (.arr [], rest)
    | rest => do
      let (items, rest) ← arrayItems fuel rest
      return (.arr items, rest)
  | fuel + 1, '\x7b' :: rest =>
    match skipBlanks rest with
    | '\x7d' :: rest => .ok (.obj [], rest)
    | rest => do
      let (members, rest) ← objectMembers fuel [] rest
      return (.obj members, rest)
  | _ + 1, cs => plain cs

/-- The items of an array, up to its closing bracket. -/
def arrayItems : (fuel : Nat) → List Char → Except Failure (List Json × List Char)
  | 0, _ => .error .badJson
  | fuel + 1, cs => do
    let (item, rest) ← value fuel cs
    match skipBlanks rest with
    | ',' :: rest =>
      let (items, rest) ← arrayItems fuel (skipBlanks rest)
      return (item :: items, rest)
    | ']' :: rest => return ([item], rest)
    | _ => .error .badJson

/-- The members of an object, up to its closing brace; `done` holds those
before. -/
def objectMembers : (fuel : Nat) → List (String × Json) → List Char →
    Except Failure (List (String × Json) × List Char)
  | 0, _, _ => .error .badJson
  | fuel + 1, done, '"' :: cs => do
    let (key, rest) ← stringRest [] none cs
    match skipBlanks rest with
    | ':' :: rest =>
      let (item, rest) ← value fuel (skipBlanks rest)
      match skipBlanks rest with
      | ',' :: rest => objectMembers fuel (insertMember key item done) (skipBlanks rest)
      | '\x7d' :: rest => return (insertMember key item done, rest)
      | _ => .error .badJson
    | _ => .error .badJson
  | _ + 1, _, _ => .error .badJson

end

/-- **Reads a JSON text**, which holds one value and nothing else. -/
def parse (text : String) : Except Failure Json := do
  let (j, rest) ← value (text.length + 1) (skipBlanks text.toList)
  if (skipBlanks rest).isEmpty then return j else .error .badJson

end EmberLang.Json
