/-!
# Blank characters

The blanks at the ends of a line typed by a person: the characters that
Unicode gives the property of white space, together with the four
information separators `U+001C` to `U+001F`. Around a numeral the
separators do not count as blanks. The blanks of a *program text* are a
much smaller set and belong to the scanner.
-/

namespace EmberLang.Text

/-- Whether a character is one of the four information separators. -/
def isSeparator (c : Char) : Bool := 0x1c ≤ c.toNat && c.toNat ≤ 0x1f

/-- **Whether a character is blank around a numeral.** -/
def isNumeralBlank (c : Char) : Bool :=
  let n := c.toNat
  (0x09 ≤ n && n ≤ 0x0d) || n == 0x20 || n == 0x85 || n == 0xa0 || n == 0x1680
    || (0x2000 ≤ n && n ≤ 0x200a) || n == 0x2028 || n == 0x2029 || n == 0x202f || n == 0x205f
    || n == 0x3000

/-- **Whether a character is blank at an end of a line.** -/
def isBlank (c : Char) : Bool := isNumeralBlank c || isSeparator c

/-- The text without the characters of a class at its two ends. -/
def trim (blank : Char → Bool) (cs : List Char) : List Char :=
  ((cs.dropWhile blank).reverse.dropWhile blank).reverse

/-- The text without the blanks at its two ends. -/
def trimBlanks (cs : List Char) : List Char := trim isBlank cs

/-- A numeral without the blanks around it. -/
def trimNumeral (cs : List Char) : List Char := trim isNumeralBlank cs

end EmberLang.Text
