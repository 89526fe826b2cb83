import EmberLang.Text.Printable

/-!
# Quoted texts

How a piece of text is shown inside a message: between quotes, on one
line, with every character that would not show written as an escape.

The quote is the single one, unless the text holds single quotes and no
double one; then nothing inside needs an escape if the double quote is
taken. Of the control characters only newline, carriage return and tab
have a short escape; the rest are written by their code point in the
shortest of three widths.
-/

namespace EmberLang.Text

/-- `n` in base sixteen with small letters, padded with zeros to the
given width. -/
def hexPadded (width n : Nat) : List Char :=
  let digits := Nat.toDigits 16 n
  List.replicate (width - digits.length) '0' ++ digits

/-- How one character is written inside the quotes `q`. -/
def escapeChar (q c : Char) : List Char :=
  if c = q || c = '\\' then ['\\', c]
  else if c = '\n' then ['\\', 'n']
  else if c = '\r' then ['\\', 'r']
  else if c = '\t' then ['\\', 't']
  else if isPrintable c then [c]
  else if c.toNat < 0x100 then '\\' :: 'x' :: hexPadded 2 c.toNat
  else if c.toNat < 0x10000 then '\\' :: 'u' :: hexPadded 4 c.toNat
  else '\\' :: 'U' :: hexPadded 8 c.toNat

/-- The quote a text is written in. -/
def quoteFor (cs : List Char) : Char :=
  if cs.contains '\'' && !cs.contains '"' then '"' else '\''

/-- **The quoted form of a text.** -/
def quoted (s : String) : String :=
  let q := quoteFor s.toList
  String.ofList (q :: s.toList.flatMap (escapeChar q) ++ [q])

end EmberLang.Text
