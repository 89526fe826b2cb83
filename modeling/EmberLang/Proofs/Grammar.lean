import EmberLang.Proofs.Positions
import EmberLang.Proofs.Spelling

/-!
# The grammar

What a text means is given by a grammar: `Derives` says which lexemes can
be read as which phrase, and which tree the phrase is. The trees are
without positions. The productions are those of the language's
specification, each with the tree it builds. Where the specification is
written with repetition and options, so are they: a production takes a
list of phrases with their trees (`Spelled`) and puts their lexemes
together.

Some points are settled here that a list of productions leaves open.

* An expression is a primary one with lists of arguments after it, and
  each list is the argument of all that stands before it.
* A local definition is the last item of its sequence: the sequence that
  it holds is all that follows.
* An underscore is a pattern of its own, and no name in a pattern.
* A bar may stand before the first constructor of a data type and before
  no other, beside the bars between them.

The reader of programs lets two things pass that the grammar does not
have: a function without a name whose body is an expression without
braces, and a local definition as a primary expression. The grammar that
has these as well is the *lenient* one.
-/

namespace EmberLang

/-- Lexemes with what they are read as. -/
abbrev Spelled (α : Type) := List Lexeme × α

/-- The lexemes of several phrases. -/
abbrev spellings {α : Type} (items : List (Spelled α)) : List (List Lexeme) := items.map Prod.fst

/-- What several phrases are read as. -/
abbrev trees {α : Type} (items : List (Spelled α)) : List α := items.map Prod.snd

/-- A mark that may be left out. -/
def optionalMark (present : Bool) (m : Mark) : List Lexeme := if present then [.mark m] else []

namespace Lexeme

/-- **The literal that a lexeme is**, however long its numeral. -/
def literal? : Lexeme → Option Literal
  | int numeral =>
    let (negative, ds) := Decimal.splitMinus numeral.toList
    some (.int (Decimal.signed negative (Decimal.ofDigits (ds.map Decimal.asciiDigit))))
  | real numeral => some (.real ((Decimal.readReal numeral.toList).getD 0))
  | char inner => some (.ofCharInner inner)
  | keyword .kwTrue => some (.bool true)
  | keyword .kwFalse => some (.bool false)
  | _ => none

/-- The number of digits of an integer numeral; other lexemes have
none. -/
def digitCount : Lexeme → Nat
  | int numeral => (Decimal.splitMinus numeral.toList).2.length
  | _ => 0

end Lexeme

/-! ## Types and patterns -/

/-- **The types that lexemes can be read as.** -/
inductive TypeSpec.Derives : List Lexeme → TypeSpec → Prop
  | named (n : String) : Derives [.ident n] (.mk n [])
  | applied (n : String) {items : List (Spelled TypeSpec)} (nonempty : items ≠ [])
      (args : ∀ i ∈ items, Derives i.1 i.2) :
      Derives (.ident n :: bracketed (spellings items)) (.mk n (trees items))
  | unit : Derives [.mark .leftParen, .mark .rightParen] .unit
  | function {items : List (Spelled TypeSpec)} {ls : List Lexeme} {t : TypeSpec}
      (params : ∀ i ∈ items, Derives i.1 i.2) (result : Derives ls t) :
      Derives (.keyword .kwFun :: parenthesized (spellings items) ++ .mark .arrow :: ls)
        (.function (trees items) t)

namespace Node

/-- **The patterns that lexemes can be read as.** -/
inductive DerivesPattern : List Lexeme → Node → Prop
  | wild : DerivesPattern [.ident "_"] (patternWild none)
  | literal {l : Lexeme} {v : Literal} (value : l.literal? = some v) :
      DerivesPattern [l] (patternLit none v)
  | var {n : String} (name : n ≠ "_") : DerivesPattern [.ident n] (patternVar none n)
  | constructor {n : String} {items : List (Spelled Node)} (name : n ≠ "_")
      (args : ∀ i ∈ items, DerivesPattern i.1 i.2) :
      DerivesPattern (.ident n :: parenthesized (spellings items))
        (patternCtor none n (trees items))

/-! ## Parts of declarations -/

/-- A type after one of some marks, or nothing. -/
inductive DerivesAfter (marks : List Mark) : List Lexeme → Node → Prop
  | absent : DerivesAfter marks [] absent
  | typed {m : Mark} {ls : List Lexeme} {t : TypeSpec} (mark : m ∈ marks)
      (type : TypeSpec.Derives ls t) : DerivesAfter marks (.mark m :: ls) (typeSpec t)

/-- A parameter: a name with a type or without one. -/
inductive DerivesParam : List Lexeme → Node → Prop
  | named (n : String) {ls : List Lexeme} {t : Node} (type : DerivesAfter [.colon] ls t) :
      DerivesParam (.ident n :: ls) (param none n t)

/-- A constructor with the types of its fields, in parentheses or in
brackets. -/
inductive DerivesConstructor : List Lexeme → Node → Prop
  | plain (n : String) : DerivesConstructor [.ident n] (constructorDecl none n [])
  | inParens (n : String) {items : List (Spelled TypeSpec)} (nonempty : items ≠ [])
      (fields : ∀ i ∈ items, TypeSpec.Derives i.1 i.2) :
      DerivesConstructor (.ident n :: parenthesized (spellings items))
        (constructorDecl none n ((trees items).map typeSpec))
  | inBrackets (n : String) {items : List (Spelled TypeSpec)} (nonempty : items ≠ [])
      (fields : ∀ i ∈ items, TypeSpec.Derives i.1 i.2) :
      DerivesConstructor (.ident n :: bracketed (spellings items))
        (constructorDecl none n ((trees items).map typeSpec))

/-- How a declaration begins: its keyword, its name and the names of its
type parameters. -/
def heading (k : Keyword) (n : String) (params : List String) : List Lexeme :=
  .keyword k :: .ident n :: typeParamLexemes (params.map Name.word)

/-! ## Expressions and declarations -/

/-- **The kinds of phrases** that hold each other. -/
inductive Phrase where
  /-- A declaration. Foreign functions are declared in a program, not in a
  block. -/
  | declaration (foreign : Bool)
  /-- What stands after the parameters of a declared function. -/
  | funBody
  /-- An expression that is no call of an expression. -/
  | primary
  /-- An expression. -/
  | expression
  /-- An arm of a case. -/
  | arm
  /-- A sequence in braces, or an expression without them where it is
  allowed. -/
  | body (bare : Bool)
  /-- A local definition with the sequence it reaches over. -/
  | letItem
  /-- A sequence of expressions. -/
  | sequence
  /-- A whole program. -/
  | program

/-- **The trees that lexemes can be read as**, phrase by phrase, in the
grammar of the language or in the lenient one. -/
inductive Derives (lenient : Bool) : Phrase → List Lexeme → Node → Prop
  | externDecl (n : String) (tps : List String) {items : List (Spelled TypeSpec)}
      {ls : List Lexeme} {t : TypeSpec} (params : ∀ i ∈ items, TypeSpec.Derives i.1 i.2)
      (result : TypeSpec.Derives ls t) :
      Derives lenient (.declaration true)
        (heading .kwExtern n tps ++ .mark .colon :: .keyword .kwFun
          :: parenthesized (spellings items) ++ .mark .arrow :: ls ++ [Lexeme.mark .semicolon])
        (externDecl none n (tps.map Name.word) ((trees items).map typeSpec) (typeSpec t))
  | dataDecl (foreign : Bool) (n : String) (tps : List String) (bar semicolon : Bool)
      {first : Spelled Node} {rest : List (Spelled Node)}
      (constructors : ∀ i ∈ first :: rest, DerivesConstructor i.1 i.2) :
      Derives lenient (.declaration foreign)
        (heading .kwData n tps ++ .mark .equal :: optionalMark bar .bar ++ first.1
          ++ rest.flatMap (fun i => .mark .bar :: i.1)
          ++ .keyword .kwEnd :: optionalMark semicolon .semicolon)
        (dataDecl none n (tps.map Name.word) (trees (first :: rest)))
  | typeDecl (foreign : Bool) (n : String) (tps : List String) {ls : List Lexeme} {t : TypeSpec}
      (type : TypeSpec.Derives ls t) :
      Derives lenient (.declaration foreign)
        (heading .kwType n tps ++ .mark .equal :: ls ++ [Lexeme.mark .semicolon])
        (typeDecl none n (tps.map Name.word) (typeSpec t))
  | funDecl (foreign : Bool) (n : String) (tps : List String) (semicolon : Bool)
      {items : List (Spelled Node)} {rs bs : List Lexeme} {r b : Node}
      (params : ∀ i ∈ items, DerivesParam i.1 i.2) (result : DerivesAfter [.arrow, .colon] rs r)
      (body : Derives lenient .funBody bs b) :
      Derives lenient (.declaration foreign)
        (heading .kwFun n tps ++ parenthesized (spellings items) ++ rs ++ bs
          ++ optionalMark semicolon .semicolon)
        (funDecl none n (tps.map Name.word) (trees items) b r)
  | funBraced {ls : List Lexeme} {n : Node} (body : Derives lenient .sequence ls n) :
      Derives lenient .funBody
        (.mark .fatArrow :: .mark .leftBrace :: ls ++ [Lexeme.mark .rightBrace]) n
  | funEqual {ls : List Lexeme} {n : Node} (body : Derives lenient .expression ls n) :
      Derives lenient .funBody (.mark .equal :: ls) n
  | literal {l : Lexeme} {v : Literal} (value : l.literal? = some v) :
      Derives lenient .primary [l] (literal none v)
  | unit : Derives lenient .primary [.mark .leftParen, .mark .rightParen] (unit none)
  | grouped {ls : List Lexeme} {n : Node} (inner : Derives lenient .expression ls n) :
      Derives lenient .primary (.mark .leftParen :: ls ++ [Lexeme.mark .rightParen]) n
  | var (n : String) : Derives lenient .primary [.ident n] (var none n)
  | intrinsicCall (op : String) {items : List (Spelled Node)}
      (args : ∀ i ∈ items, Derives lenient .expression i.1 i.2) :
      Derives lenient .primary (.intrinsic op :: parenthesized (spellings items))
        (intrinsicCall none op (trees items))
  | directiveCall (name : String) {items : List (Spelled Node)}
      (args : ∀ i ∈ items, Derives lenient .expression i.1 i.2) :
      Derives lenient .primary (.directive name :: parenthesized (spellings items))
        (directiveCall none name (trees items))
  | caseOf {ls : List Lexeme} {n : Node} {items : List (Spelled Node)} (nonempty : items ≠ [])
      (scrutinee : Derives lenient .expression ls n)
      (arms : ∀ i ∈ items, Derives lenient .arm i.1 i.2) :
      Derives lenient .primary
        (.keyword .kwCase :: ls ++ .keyword .kwOf :: (spellings items).flatten
          ++ [Lexeme.keyword .kwEnd])
        (caseOf none n (trees items))
  | lambda {items : List (Spelled Node)} {ls : List Lexeme} {n : Node}
      (params : ∀ i ∈ items, DerivesParam i.1 i.2) (body : Derives lenient (.body lenient) ls n) :
      Derives lenient .primary
        (.keyword .kwFn :: parenthesized (spellings items) ++ .mark .fatArrow :: ls)
        (lambda none ((trees items).filterMap name?) n)
  | grouping {ls : List Lexeme} {n : Node} (body : Derives lenient .sequence ls n) :
      Derives lenient .primary (.keyword .kwBegin :: ls ++ [Lexeme.keyword .kwEnd]) n
  | block {items : List (Spelled Node)} {ls : List Lexeme} {n : Node}
      (declarations : ∀ i ∈ items, Derives lenient (.declaration false) i.1 i.2)
      (body : Derives lenient .sequence ls n) :
      Derives lenient .primary
        (.keyword .kwBegin :: (spellings items).flatten ++ .keyword .kwIn :: ls
          ++ [Lexeme.keyword .kwEnd])
        (block none (trees items) n)
  | letPrimary {ls : List Lexeme} {n : Node} (allowed : lenient = true)
      (definition : Derives lenient .letItem ls n) : Derives lenient .primary ls n
  | primary {ls : List Lexeme} {n : Node} (only : Derives lenient .primary ls n) :
      Derives lenient .expression ls n
  | call {ls : List Lexeme} {n : Node} {items : List (Spelled Node)}
      (callee : Derives lenient .expression ls n)
      (args : ∀ i ∈ items, Derives lenient .expression i.1 i.2) :
      Derives lenient .expression (ls ++ parenthesized (spellings items))
        (call none n (trees items))
  | arm {ps ls : List Lexeme} {p n : Node} (pattern : DerivesPattern ps p)
      (body : Derives lenient (.body true) ls n) :
      Derives lenient .arm (.mark .bar :: ps ++ .mark .fatArrow :: ls) (arm none p n)
  | braced {bare : Bool} {ls : List Lexeme} {n : Node} (body : Derives lenient .sequence ls n) :
      Derives lenient (.body bare) (.mark .leftBrace :: ls ++ [Lexeme.mark .rightBrace]) n
  | bare {ls : List Lexeme} {n : Node} (body : Derives lenient .expression ls n) :
      Derives lenient (.body true) ls n
  | letItem (name : String) {ts vs ls : List Lexeme} {t v n : Node}
      (type : DerivesAfter [.colon] ts t) (value : Derives lenient .expression vs v)
      (body : Derives lenient .sequence ls n) :
      Derives lenient .letItem
        (.keyword .kwLet :: .ident name :: ts ++ .mark .equal :: vs ++ .mark .semicolon :: ls)
        (letIn none name v n t)
  | definition {ls : List Lexeme} {n : Node} (only : Derives lenient .letItem ls n) :
      Derives lenient .sequence ls n
  | last (semicolon : Bool) {ls : List Lexeme} {n : Node}
      (item : Derives lenient .expression ls n) :
      Derives lenient .sequence (ls ++ optionalMark semicolon .semicolon) n
  | more {ls ms : List Lexeme} {n m : Node} (item : Derives lenient .expression ls n)
      (rest : Derives lenient .sequence ms m) :
      Derives lenient .sequence (ls ++ .mark .semicolon :: ms) (seq none n m)
  | program {items : List (Spelled Node)} {ls : List Lexeme} {n : Node}
      (declarations : ∀ i ∈ items, Derives lenient (.declaration true) i.1 i.2)
      (body : Derives lenient .sequence ls n) :
      Derives lenient .program
        (.keyword .kwBegin :: (spellings items).flatten ++ .keyword .kwIn :: ls
          ++ [Lexeme.keyword .kwEnd])
        (program none (trees items) n)

end Node

end EmberLang
