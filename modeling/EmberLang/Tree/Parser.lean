import EmberLang.Token.Scanner
import EmberLang.Tree

/-!
# From tokens to a tree

Reading is by recursive descent with one token of lookahead, except that
after `begin` the second token tells a block of declarations from a
sequence. A reader takes tokens from the front of a list; when it cannot
go on it stops with what it needed and the tokens that were left, so
that the first of these is the token at fault.

## Levels

A phrase within a phrase is read one *level* further in. The number of
levels is bounded, which both keeps a hostile text from using up all
room and makes the readers total: the readers of a level are built from
those of the next one in, and at level zero there are none. Reading a
list of phrases side by side costs no level; only what is nested does.
A call of a call is nested too, and a sequence is an item and, one level
in, the sequence of the items after it.
-/

namespace EmberLang

/-- **Why a reader stopped.** The list holds the tokens not yet read. -/
inductive Stuck where
  /-- One of the named things was needed. -/
  | unexpected (expected : List String) (rest : List Token)
  /-- No levels are left. -/
  | tooDeep (rest : List Token)
  /-- A numeral has too many digits. -/
  | numeralTooLong
  deriving DecidableEq, Repr

/-- A reader of phrases: it takes tokens from the front. -/
abbrev Parser := StateT (List Token) (Except Stuck)

namespace Parser

/-! ## Single tokens -/

/-- Stops, naming what was needed. -/
def needed {α : Type} (expected : List String) : Parser α :=
  fun ts => .error (.unexpected expected ts)

/-- Stops for want of levels. -/
def tooDeep {α : Type} : Parser α := fun ts => .error (.tooDeep ts)

/-- The next lexeme, which stays where it is. -/
def peek : Parser (Option Lexeme) := fun ts => .ok (ts.head?.map Token.lexeme, ts)

/-- The lexeme after the next. -/
def peekSecond : Parser (Option Lexeme) := fun ts => .ok ((ts.drop 1).head?.map Token.lexeme, ts)

/-- Whether the next lexeme is the given one. -/
def isNext (l : Lexeme) : Parser Bool :=
  fun ts => .ok (ts.head?.map Token.lexeme == some l, ts)

/-- The position of the next token, and no more. -/
def here : Parser (Option Position) := fun ts => .ok (ts.head?.map Token.position, ts)

/-- Takes the next token, whatever it is. -/
def skip : Parser Unit := fun ts => .ok ((), ts.drop 1)

/-- **Takes the given lexeme** and gives its position. -/
def take (l : Lexeme) : Parser Position := fun ts =>
  match ts with
  | t :: rest => if t.lexeme = l then .ok (t.position, rest) else .error (.unexpected [l.family] ts)
  | [] => .error (.unexpected [l.family] ts)

/-- Takes a punctuation mark. -/
def mark (m : Mark) : Parser Position := take (.mark m)

/-- Takes a keyword. -/
def word (k : Keyword) : Parser Position := take (.keyword k)

/-- Takes a name, with its position. -/
def name : Parser (String × Position) := fun ts =>
  match ts with
  | ⟨.ident n, p⟩ :: rest => .ok ((n, p), rest)
  | _ => .error (.unexpected ["IDENT"] ts)

/-- Takes the mark if it comes next. -/
def optionalMark (m : Mark) : Parser Unit := do
  if ← isNext (.mark m) then let _ ← mark m

/-! ## Lists -/

/-- The loop of `many`. The list bounds the number of rounds. -/
def manyLoop {α : Type} (start : Lexeme → Bool) (step : Parser α) : List Token → Parser (List α)
  | [] => pure []
  | _ :: bound => do
    match ← peek with
    | some l =>
      if start l then
        let a ← step
        let as ← manyLoop start step bound
        return a :: as
      else return []
    | none => return []

/-- **Reads phrases as long as the next lexeme can start one.** Each
takes at least the lexeme it starts with, so there are no more phrases
than tokens. -/
def many {α : Type} (start : Lexeme → Bool) (step : Parser α) : Parser (List α) :=
  fun ts => manyLoop start step ts ts

/-- Phrases with commas between them, at least one. -/
def commaList {α : Type} (p : Parser α) : Parser (List α) := do
  let first ← p
  let rest ← many (· == .mark .comma) do
    let _ ← mark .comma
    p
  return first :: rest

/-- A list of phrases with commas between them and marks around them. -/
def enclosed {α : Type} (left right : Mark) (p : Parser α) : Parser (List α) := do
  let _ ← mark left
  let items ← commaList p
  let _ ← mark right
  return items

/-- A list in parentheses, which may be empty. -/
def parenthesized {α : Type} (p : Parser α) : Parser (List α) := do
  let _ ← mark .leftParen
  let items ← if ← isNext (.mark .rightParen) then pure [] else commaList p
  let _ ← mark .rightParen
  return items

/-! ## Literals -/

/-- The literal a lexeme is; `none` for the lexemes that are none. -/
def literal? : Lexeme → Option (Except Stuck Literal)
  | .int numeral => some <|
    match Decimal.readDigits numeral with
    | some n => .ok (.int n)
    | none => .error .numeralTooLong
  | .real numeral => some (.ok (.real ((Decimal.readReal numeral.toList).getD 0)))
  | .char inner => some (.ok (.ofCharInner inner))
  | .keyword .kwTrue => some (.ok (.bool true))
  | .keyword .kwFalse => some (.ok (.bool false))
  | _ => none

/-- Only a numeral of too many digits is a literal without a value. -/
theorem eq_numeralTooLong_of_literal? {l : Lexeme} {e : Stuck}
    (h : literal? l = some (.error e)) : e = .numeralTooLong := by
  unfold literal? at h
  split at h
  case h_1 =>
    split at h
    · cases h
    · cases h
      rfl
  all_goals cases h

/-! ## Types and patterns -/

/-- **A type**, given the reader of the types inside it. -/
def typeSpecIn (inner : Parser TypeSpec) : Parser TypeSpec := do
  match ← peek with
  | some (.keyword .kwFun) =>
    skip
    let params ← parenthesized inner
    let _ ← mark .arrow
    return .function params (← inner)
  | some (.mark .leftParen) =>
    skip
    let _ ← mark .rightParen
    return .unit
  | _ =>
    let (kind, _) ← name
    if ← isNext (.mark .leftBracket) then
      return .mk kind (← enclosed .leftBracket .rightBracket inner)
    else return .mk kind []

/-- **A pattern**, given the reader of the patterns inside it. -/
def patternIn (inner : Parser Node) : Parser Node := do
  let p ← here
  match (← peek).bind literal? with
  | some value =>
    skip
    return .patternLit p (← value)
  | none =>
    let (n, _) ← name
    if n = "_" then return .patternWild p
    else if ← isNext (.mark .leftParen) then return .patternCtor p n (← parenthesized inner)
    else return .patternVar p n

/-! ## Levels -/

/-- **The readers of one level.** -/
structure Level where
  /-- How many levels there are further in. -/
  room : Nat
  /-- Types. -/
  typeSpec : Parser TypeSpec
  /-- Patterns. -/
  pattern : Parser Node
  /-- Expressions. -/
  expression : Parser Node
  /-- Sequences of expressions. -/
  sequence : Parser Node

namespace Level

variable (inner : Level)

/-- A type as a part of a tree. -/
def typeNode : Parser Node := do return .typeSpec (← inner.typeSpec)

/-- A type after a colon, if there is a colon. -/
def typeAfterColon : Parser Node := do
  if ← isNext (.mark .colon) then
    let _ ← mark .colon
    inner.typeNode
  else return .absent

/-- A sequence in braces. -/
def braced : Parser Node := do
  let _ ← mark .leftBrace
  let body ← inner.sequence
  let _ ← mark .rightBrace
  return body

/-- The body of an arm or of a function without a name: a sequence in
braces, or an expression. -/
def body : Parser Node := do
  if ← isNext (.mark .leftBrace) then inner.braced else inner.expression

/-- A parameter: a name with an optional type. -/
def param : Parser Node := do
  let (n, p) ← name
  return .param p n (← inner.typeAfterColon)

/-! ### Declarations -/

/-- The type parameters of a declaration, in brackets. -/
def typeParams : Parser (List Name) := do
  if ← isNext (.mark .leftBracket) then
    enclosed .leftBracket .rightBracket do return (← name).1
  else return []

/-- The declaration of a foreign function, whose type must be a function
type. -/
def externDecl : Parser Node := do
  let p ← word .kwExtern
  let (n, _) ← name
  let tps ← typeParams
  let _ ← mark .colon
  if !(← isNext (.keyword .kwFun)) then needed [Keyword.kwFun.text]
  let signature ← inner.typeSpec
  let _ ← mark .semicolon
  let result := signature.result?.getD signature
  return .externDecl p n tps (signature.params.map .typeSpec) (.typeSpec result)

/-- A constructor of a data type, its fields in parentheses or in
brackets. -/
def constructorDecl : Parser Node := do
  let (n, p) ← name
  if ← isNext (.mark .leftParen) then
    return .constructorDecl p n (← enclosed .leftParen .rightParen inner.typeNode)
  else if ← isNext (.mark .leftBracket) then
    return .constructorDecl p n (← enclosed .leftBracket .rightBracket inner.typeNode)
  else return .constructorDecl p n []

/-- The declaration of a data type. A bar may stand before the first
constructor, and a semicolon after the end. -/
def dataDecl : Parser Node := do
  let p ← word .kwData
  let (n, _) ← name
  let tps ← typeParams
  let _ ← mark .equal
  optionalMark .bar
  let first ← inner.constructorDecl
  let rest ← many (· == .mark .bar) do
    let _ ← mark .bar
    inner.constructorDecl
  let _ ← word .kwEnd
  optionalMark .semicolon
  return .dataDecl p n tps (first :: rest)

/-- A name for a type. -/
def typeDecl : Parser Node := do
  let p ← word .kwType
  let (n, _) ← name
  let tps ← typeParams
  let _ ← mark .equal
  let t ← inner.typeNode
  let _ ← mark .semicolon
  return .typeDecl p n tps t

/-- The type of a function's result, after an arrow or a colon, if there
is one. -/
def resultType : Parser Node := do
  if (← isNext (.mark .arrow)) || (← isNext (.mark .colon)) then
    skip
    inner.typeNode
  else return .absent

/-- The body of a declared function: a sequence in braces after `=>`, or
an expression after `=`. -/
def funBody : Parser Node := do
  if ← isNext (.mark .fatArrow) then
    let _ ← mark .fatArrow
    inner.braced
  else if ← isNext (.mark .equal) then
    let _ ← mark .equal
    inner.expression
  else needed [Mark.fatArrow.text, Mark.equal.text]

/-- The declaration of a function. -/
def funDecl : Parser Node := do
  let p ← word .kwFun
  let (n, _) ← name
  let tps ← typeParams
  let params ← parenthesized inner.param
  let returnType ← inner.resultType
  let body ← inner.funBody
  optionalMark .semicolon
  return .funDecl p n tps params body returnType

/-- The keywords that declarations start with. -/
def declarationWords : List Keyword := [.kwExtern, .kwData, .kwType, .kwFun]

/-- The keywords that the declarations of a block start with: foreign
functions are declared for the whole program only. -/
def localWords : List Keyword := [.kwData, .kwType, .kwFun]

/-- A declaration. -/
def declaration : Parser Node := do
  match ← peek with
  | some (.keyword .kwExtern) => inner.externDecl
  | some (.keyword .kwData) => inner.dataDecl
  | some (.keyword .kwType) => inner.typeDecl
  | some (.keyword .kwFun) => inner.funDecl
  | _ => needed ((declarationWords ++ [Keyword.kwIn]).map Keyword.text)

/-- Declarations that start with the given keywords, up to and with
`in`. -/
def declarations (words : List Keyword) : Parser (List Node) := do
  let ds ← many (fun l => words.any fun k => l == .keyword k) inner.declaration
  if !(← isNext (.keyword .kwIn)) then needed ((words ++ [Keyword.kwIn]).map Keyword.text)
  let _ ← word .kwIn
  return ds

/-! ### Expressions -/

/-- Arguments in parentheses. -/
def arguments : Parser (List Node) := parenthesized inner.expression

/-- A local definition, which reaches over the rest of its sequence. -/
def letIn : Parser Node := do
  let p ← word .kwLet
  let (n, _) ← name
  let valueType ← inner.typeAfterColon
  let _ ← mark .equal
  let value ← inner.expression
  let _ ← mark .semicolon
  let body ← inner.sequence
  return .letIn p n value body valueType

/-- A function without a name. The types of its parameters are read and
dropped. -/
def lambda : Parser Node := do
  let p ← word .kwFn
  let params ← parenthesized inner.param
  let _ ← mark .fatArrow
  return .lambda p (params.filterMap Node.name?) (← inner.body)

/-- An arm of a case. -/
def arm : Parser Node := do
  let p ← mark .bar
  let pattern ← inner.pattern
  let _ ← mark .fatArrow
  return .arm p pattern (← inner.body)

/-- A choice by patterns, with at least one arm. -/
def caseOf : Parser Node := do
  let p ← word .kwCase
  let scrutinee ← inner.expression
  let _ ← word .kwOf
  if !(← isNext (.mark .bar)) then needed [Mark.bar.text]
  let arms ← many (· == .mark .bar) inner.arm
  let _ ← word .kwEnd
  return .caseOf p scrutinee arms

/-- Local declarations over a sequence. -/
def block : Parser Node := do
  let p ← word .kwBegin
  let ds ← inner.declarations localWords
  let body ← inner.sequence
  let _ ← word .kwEnd
  return .block p ds body

/-- Whether the lexeme after `begin` makes it a block. -/
def startsBlock : Option Lexeme → Bool
  | some (.keyword k) => (localWords ++ [Keyword.kwIn]).contains k
  | _ => false

/-- **An expression that is no call of an expression.** -/
def primary : Parser Node := do
  let p ← here
  let next ← peek
  match next.bind literal? with
  | some value =>
    skip
    return .literal p (← value)
  | none =>
    match next with
    | some (.ident n) =>
      skip
      return .var p n
    | some (.intrinsic op) =>
      skip
      return .intrinsicCall p op (← inner.arguments)
    | some (.directive n) =>
      skip
      return .directiveCall p n (← inner.arguments)
    | some (.mark .leftParen) =>
      skip
      if ← isNext (.mark .rightParen) then
        let _ ← mark .rightParen
        return .unit p
      else
        let e ← inner.expression
        let _ ← mark .rightParen
        return e
    | some (.keyword .kwCase) => inner.caseOf
    | some (.keyword .kwLet) => inner.letIn
    | some (.keyword .kwFn) => inner.lambda
    | some (.keyword .kwBegin) =>
      if startsBlock (← peekSecond) then inner.block
      else
        skip
        let body ← inner.sequence
        let _ ← word .kwEnd
        return body
    | _ => needed ["expression"]

/-- The argument lists after an expression: each makes what stands before
it the callee, one level further in. -/
def applications : (room : Nat) → Node → Parser Node
  | 0, callee => do
    if ← isNext (.mark .leftParen) then tooDeep else return callee
  | room + 1, callee => do
    if ← isNext (.mark .leftParen) then
      let p ← here
      let args ← inner.arguments
      applications room (.call (callee.position?.or p) callee args)
    else return callee

/-- **An expression**: a primary one and any number of argument lists. -/
def expressionIn : Parser Node := do
  let e ← inner.primary
  inner.applications inner.room e

/-- Whether an expression can start with the lexeme. -/
def startsExpression : Lexeme → Bool
  | .ident _ | .int _ | .real _ | .char _ | .intrinsic _ | .directive _ => true
  | .keyword k => [Keyword.kwTrue, .kwFalse, .kwCase, .kwLet, .kwFn, .kwBegin].contains k
  | .mark m => m = .leftParen

/-- **A sequence**: expressions with semicolons between them, and an
optional one at the end. A local definition is always the last item,
since the rest of the sequence belongs to it. -/
def sequenceIn : Parser Node := do
  if ← isNext (.keyword .kwLet) then inner.letIn
  else
    let first ← inner.expressionIn
    if ← isNext (.mark .semicolon) then
      let p ← mark .semicolon
      if (← peek).any startsExpression then
        return .seq p first (← inner.sequence)
      else return first
    else return first

end Level

/-- **The readers with a number of levels inside them.** -/
def level : Nat → Level
  | 0 => ⟨0, tooDeep, tooDeep, tooDeep, tooDeep⟩
  | n + 1 => {
      room := n + 1
      typeSpec := fun ts => typeSpecIn (level n).typeSpec ts
      pattern := fun ts => patternIn (level n).pattern ts
      expression := fun ts => (level n).expressionIn ts
      sequence := fun ts => (level n).sequenceIn ts }

/-- **A whole program**: declarations and a body, and nothing after
it. -/
def program (outer : Level) : Parser Node := do
  let p ← word .kwBegin
  let ds ← outer.declarations Level.declarationWords
  let body ← outer.sequence
  let _ ← word .kwEnd
  if (← peek).isSome then needed ["EOF"]
  return .program p ds body

end Parser

namespace Stuck

/-- The failure of reading a text, from where the reader stopped and
where the text ends. -/
def failure (stop : Position) : Stuck → Failure
  | unexpected expected rest =>
    match rest with
    | t :: _ => .of (.unexpectedToken expected t.lexeme.describe) t.position
    | [] => .of (.unexpectedToken expected "end of input") stop
  | tooDeep rest => .of .nestingTooDeep (some ((rest.head?.map Token.position).getD stop))
  | numeralTooLong => .numeralTooLong

end Stuck

/-- **Reads tokens as a program tree**, with names as they are
written. -/
def Node.ofTokens (levels : Nat) (s : Scanned) : Except Failure Node :=
  match (Parser.program (Parser.level levels)).run s.tokens with
  | .ok (p, _) => .ok p
  | .error stuck => .error (stuck.failure s.stop)

end EmberLang
