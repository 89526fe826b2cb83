import EmberLang.Position
import EmberLang.Text.Quoted

/-!
# Tokens

A program text is a sequence of lexemes with blanks and comments
between them. Six families of lexemes carry a text of their own: names,
the two kinds of numerals, characters, and the names of intrinsics and
directives, which begin with a sigil. All others are fixed: the keywords
and the punctuation marks.

A `Lexeme` keeps just what its family leaves open, so that `Lexeme.text`
gives back the characters it was read from.
-/

namespace EmberLang

/-- The reserved words. -/
inductive Keyword where
  | kwExtern | kwData | kwType | kwFun | kwFn | kwCase | kwOf | kwLet | kwIn | kwBegin | kwEnd
  | kwTrue | kwFalse
  deriving DecidableEq, Repr

/-- The punctuation marks. -/
inductive Mark where
  | fatArrow | arrow | bar | comma | leftParen | rightParen | leftBracket | rightBracket
  | leftBrace | rightBrace | colon | equal | semicolon
  deriving DecidableEq, Repr

/-- **A lexeme**: what a token says, wherever it stands. -/
inductive Lexeme where
  /-- A name that is no keyword. -/
  | ident (name : String)
  /-- An integer numeral, with its minus sign if it has one. -/
  | int (numeral : String)
  /-- A numeral with a fraction or an exponent. -/
  | real (numeral : String)
  /-- A character: what stands between its quotes. -/
  | char (inner : String)
  /-- The name of an intrinsic, without its `@`. -/
  | intrinsic (op : String)
  /-- The name of a directive, without its `#`. -/
  | directive (name : String)
  /-- A keyword. -/
  | keyword (k : Keyword)
  /-- A punctuation mark. -/
  | mark (m : Mark)
  deriving DecidableEq, Repr

/-- **A token**: a lexeme and where it begins. -/
structure Token where
  /-- What the token says. -/
  lexeme : Lexeme
  /-- The position of its first character. -/
  position : Position
  deriving DecidableEq, Repr

namespace Keyword

/-- How a keyword is written. -/
def text : Keyword → String
  | kwExtern => "extern"
  | kwData => "data"
  | kwType => "type"
  | kwFun => "fun"
  | kwFn => "fn"
  | kwCase => "case"
  | kwOf => "of"
  | kwLet => "let"
  | kwIn => "in"
  | kwBegin => "begin"
  | kwEnd => "end"
  | kwTrue => "true"
  | kwFalse => "false"

/-- All keywords. -/
def all : List Keyword :=
  [kwExtern, kwData, kwType, kwFun, kwFn, kwCase, kwOf, kwLet, kwIn, kwBegin, kwEnd, kwTrue,
    kwFalse]

/-- The keyword a word spells, if it spells one. -/
def ofText? (word : String) : Option Keyword := all.find? fun k => k.text == word

end Keyword

namespace Mark

/-- How a mark is written. -/
def text : Mark → String
  | fatArrow => "=>"
  | arrow => "->"
  | bar => "|"
  | comma => ","
  | leftParen => "("
  | rightParen => ")"
  | leftBracket => "["
  | rightBracket => "]"
  | leftBrace => "\x7b"
  | rightBrace => "\x7d"
  | colon => ":"
  | equal => "="
  | semicolon => ";"

end Mark

namespace Lexeme

/-- **The characters of a lexeme.** -/
def text : Lexeme → String
  | ident name => name
  | int numeral => numeral
  | real numeral => numeral
  | char inner => "'" ++ inner ++ "'"
  | intrinsic op => "@" ++ op
  | directive name => "#" ++ name
  | keyword k => k.text
  | mark m => m.text

/-- The name of a lexeme's family. A keyword or a mark is a family of its
own, named by its text. -/
def family : Lexeme → String
  | ident _ => "IDENT"
  | int _ => "INT"
  | real _ => "REAL"
  | char _ => "CHAR"
  | intrinsic _ => "INTRINSIC"
  | directive _ => "DIRECTIVE"
  | keyword k => k.text
  | mark m => m.text

/-- **How a message names the lexeme it found.** Where the family says
less than the text, both are given. -/
def describe (l : Lexeme) : String :=
  match l with
  | keyword _ | mark _ => Text.quoted l.text
  | _ => s!"{l.family} {Text.quoted l.text}"

end Lexeme

end EmberLang
