import EmberLang.Proofs.WellFormed

/-!
# The lexemes of a printed tree

A printed tree is scanned again, and what it is scanned as is told here
without its text: `programLexemes` follows the printer node by node and gives
lexemes where the printer gives strings, with the same parentheses and without
blanks and line ends.

A text **spells** lexemes if it reads as them before everything that breaks a
lexeme off, and it **closes** them if it does so before everything. The two
differ for texts like `x` and `=`, which a text after them could prolong. A
text that spells may only be followed by one that opens with a break, and the
rules of composition below say so; the printer never puts two words next to
each other.
-/

namespace EmberLang

open Scan (Breaks isBreak)

/-! ## Texts and lexemes -/

/-- The pieces of the text of a lexeme: the lexeme itself, if it is one. -/
def Lexeme.pieces (l : Lexeme) : List Scan.Piece := Scan.pieces l.text.toList

theorem Lexeme.pieces_of_isProper {l : Lexeme} (h : l.isProper = true) :
    l.pieces = [.lexeme l] := by
  have hpieces := Scan.pieces_lexeme h Scan.breaks_nil
  rw [List.append_nil, Scan.pieces_nil] at hpieces
  exact hpieces

/-- **A text spells lexemes** if it reads as them before every break. -/
def Spells (text : String) (ls : List Lexeme) : Prop :=
  ∀ r, Breaks r → Scan.pieces (text.toList ++ r) = ls.flatMap Lexeme.pieces ++ Scan.pieces r

/-- A text that spells lexemes whatever comes after it. -/
def Closes (text : String) (ls : List Lexeme) : Prop :=
  ∀ r, Scan.pieces (text.toList ++ r) = ls.flatMap Lexeme.pieces ++ Scan.pieces r

/-- Whether a text begins with a break. -/
def opens (text : String) : Bool := text.toList.head?.any isBreak

theorem breaks_of_opens {text : String} (h : opens text = true) (r : List Char) :
    Breaks (text.toList ++ r) := by
  unfold opens at h
  cases htext : text.toList with
  | nil =>
    rw [htext] at h
    cases h
  | cons c cs =>
    rw [htext] at h
    exact Scan.breaks_cons h (cs ++ r)

theorem opens_append {s : String} (h : opens s = true) (t : String) : opens (s ++ t) = true := by
  unfold opens at h ⊢
  rw [String.toList_append]
  cases hs : s.toList with
  | nil =>
    rw [hs] at h
    cases h
  | cons c cs =>
    rw [hs] at h
    exact h

namespace Closes

variable {s t : String} {ls ms : List Lexeme}

theorem spells (h : Closes s ls) : Spells s ls := fun r _ => h r

theorem congr (h : Closes s ls) (e : ls = ms) : Closes s ms := e ▸ h

theorem of_eq (h : Closes s ls) (e : t = s) : Closes t ls := e ▸ h

theorem append (hs : Closes s ls) (ht : Closes t ms) : Closes (s ++ t) (ls ++ ms) := by
  intro r
  rw [String.toList_append, List.append_assoc, hs, ht, List.flatMap_append, List.append_assoc]

/-- After a closed text anything may come. -/
theorem andThen (hs : Closes s ls) (ht : Spells t ms) : Spells (s ++ t) (ls ++ ms) := by
  intro r hr
  rw [String.toList_append, List.append_assoc, hs, ht r hr, List.flatMap_append,
    List.append_assoc]

theorem blank {c : Char} (h : Scan.isSpace c = true) : Closes (String.singleton c) [] := by
  intro r
  rw [String.toList_singleton]
  exact Scan.pieces_space h r

theorem mark {m : Mark} (h : m ≠ .equal) : Closes m.text [.mark m] := by
  intro r
  rw [Scan.pieces_mark h, List.flatMap_singleton,
    Lexeme.pieces_of_isProper (Lexeme.isProper_mark m), List.singleton_append]

theorem pad (indent : Nat) : Closes (Node.pad indent) [] := by
  intro r
  unfold Node.pad
  rw [String.toList_ofList]
  refine Scan.pieces_spaces (fun c hc => ?_) r
  rw [List.eq_of_mem_replicate hc]
  rfl

end Closes

namespace Spells

variable {s t : String} {ls ms : List Lexeme}

theorem empty : Spells "" [] := fun _ _ => rfl

theorem congr (h : Spells s ls) (e : ls = ms) : Spells s ms := e ▸ h

theorem of_eq (h : Spells s ls) (e : t = s) : Spells t ls := e ▸ h

/-- Where the second text is empty or begins with a break, both are
spelled. -/
theorem append (hs : Spells s ls) (ht : Spells t ms) (h : t = "" ∨ opens t = true) :
    Spells (s ++ t) (ls ++ ms) := by
  intro r hr
  have hbreaks : Breaks (t.toList ++ r) := by
    rcases h with rfl | h
    · exact hr
    · exact breaks_of_opens h r
  rw [String.toList_append, List.append_assoc, hs _ hbreaks, ht r hr, List.flatMap_append,
    List.append_assoc]

/-- A closed text that begins with a break closes what is before it. -/
theorem close (hs : Spells s ls) (ht : Closes t ms) (h : opens t = true) :
    Closes (s ++ t) (ls ++ ms) := by
  intro r
  rw [String.toList_append, List.append_assoc, hs _ (breaks_of_opens h r), ht r,
    List.flatMap_append, List.append_assoc]

theorem lexeme {l : Lexeme} (h : l.isProper = true) : Spells l.text [l] := by
  intro r hr
  rw [Scan.pieces_lexeme h hr, List.flatMap_singleton, Lexeme.pieces_of_isProper h,
    List.singleton_append]

theorem keyword (k : Keyword) : Spells k.text [.keyword k] :=
  lexeme (l := .keyword k) (Lexeme.isProper_keyword k)

end Spells

/-! ## The lexemes of a tree -/

/-- Lexemes of several phrases with commas between them. -/
def commaSeparated : List (List Lexeme) → List Lexeme
  | [] => []
  | ls :: rest => ls ++ rest.flatMap fun ms => .mark .comma :: ms

/-- Lexemes in parentheses. -/
def parenthesized (lss : List (List Lexeme)) : List Lexeme :=
  .mark .leftParen :: commaSeparated lss ++ [Lexeme.mark .rightParen]

/-- Lexemes in brackets. -/
def bracketed (lss : List (List Lexeme)) : List Lexeme :=
  .mark .leftBracket :: commaSeparated lss ++ [Lexeme.mark .rightBracket]

/-- The lexeme of a name. -/
def Name.lexeme (n : Name) : Lexeme := .ident n.text

namespace Literal

/-- What stands between the quotes of a character literal. -/
def charInner (s : String) : String :=
  match escapeOf? s with
  | some e => String.ofList ['\\', e]
  | none => s

/-- **The lexeme of a literal.** -/
def lexeme : Literal → Lexeme
  | int n => .int (toString n)
  | real x => .real (Decimal.realText x)
  | bool b => .keyword (if b then .kwTrue else .kwFalse)
  | char s => .char (charInner s)

end Literal

namespace TypeSpec

mutual

/-- **The lexemes of a type.** -/
def lexemes : TypeSpec → List Lexeme
  | mk kind args =>
    if kind.isWord "fun" then
      .keyword .kwFun :: parenthesized (lexemesAll args).dropLast
        ++ .mark .arrow :: (lexemesAll args).getLastD []
    else if kind.isWord "()" then [.mark .leftParen, .mark .rightParen]
    else if args.isEmpty then [kind.lexeme]
    else kind.lexeme :: bracketed (lexemesAll args)

/-- The lexemes of several types. -/
def lexemesAll : List TypeSpec → List (List Lexeme)
  | [] => []
  | t :: ts => lexemes t :: lexemesAll ts

end

theorem lexemesAll_eq_map (ts : List TypeSpec) : lexemesAll ts = ts.map lexemes := by
  induction ts with
  | nil => rfl
  | cons t ts ih => rw [lexemesAll, ih, List.map_cons]

end TypeSpec

namespace Node

/-- The lexemes of a type as a part of a tree. -/
def typeLexemes : Node → List Lexeme
  | typeSpec t => t.lexemes
  | _ => []

/-- The lexemes of a type after a mark, none if the type is absent. -/
def lexemesAfter (m : Mark) : Node → List Lexeme
  | typeSpec t => .mark m :: t.lexemes
  | _ => []

/-- The lexemes of type parameters. -/
def typeParamLexemes (names : List Name) : List Lexeme :=
  if names.isEmpty then [] else bracketed (names.map fun n => [n.lexeme])

/-- The lexemes of a parameter. -/
def paramLexemes : Node → List Lexeme
  | param _ name t => name.lexeme :: lexemesAfter .colon t
  | _ => []

/-- The lexemes of a constructor in the declaration of its type. -/
def constructorLexemes : Node → List Lexeme
  | constructorDecl _ name fieldTypes =>
    if fieldTypes.isEmpty then [name.lexeme]
    else name.lexeme :: parenthesized (fieldTypes.map typeLexemes)
  | _ => []

mutual

/-- **The lexemes of a pattern.** -/
def patternLexemes : Node → List Lexeme
  | patternWild _ => [.ident "_"]
  | patternVar _ name => [name.lexeme]
  | patternLit _ v => [v.lexeme]
  | patternCtor _ c args => c.lexeme :: parenthesized (patternsLexemes args)
  | _ => []

/-- The lexemes of several patterns. -/
def patternsLexemes : List Node → List (List Lexeme)
  | [] => []
  | n :: ns => patternLexemes n :: patternsLexemes ns

end

theorem patternsLexemes_eq_map (ns : List Node) : patternsLexemes ns = ns.map patternLexemes := by
  induction ns with
  | nil => rfl
  | cons n ns ih => rw [patternsLexemes, ih, List.map_cons]

/-- The lexemes around a sequence in a place. -/
def Place.around (ls : List Lexeme) : Place → List Lexeme
  | operand => .keyword .kwBegin :: ls ++ [.keyword .kwEnd]
  | body => .mark .leftBrace :: ls ++ [.mark .rightBrace]
  | items => ls

/-- A lambda in the place of a callee is put in parentheses. -/
def calleeLexemes (callee : Node) (ls : List Lexeme) : List Lexeme :=
  match callee with
  | lambda .. => .mark .leftParen :: ls ++ [.mark .rightParen]
  | _ => ls

mutual

/-- **The lexemes of an expression** in a place. -/
def lexemes (place : Place) : Node → List Lexeme
  | letIn _ name value body t =>
    place.around (.keyword .kwLet :: name.lexeme :: lexemesAfter .colon t
      ++ .mark .equal :: lexemes .operand value ++ .mark .semicolon :: lexemes .items body)
  | seq _ first rest =>
    place.around (lexemes .operand first ++ .mark .semicolon :: lexemes .items rest)
  | literal _ v => [v.lexeme]
  | unit _ => [.mark .leftParen, .mark .rightParen]
  | var _ name => [name.lexeme]
  | call _ callee args =>
    calleeLexemes callee (lexemes .operand callee) ++ parenthesized (lexemesAll args)
  | intrinsicCall _ op args => .intrinsic op.text :: parenthesized (lexemesAll args)
  | directiveCall _ name args => .directive name.text :: parenthesized (lexemesAll args)
  | caseOf _ scrutinee arms =>
    .keyword .kwCase :: lexemes .operand scrutinee ++ .keyword .kwOf
      :: (armsLexemes arms).flatten ++ [.keyword .kwEnd]
  | lambda _ params body =>
    .keyword .kwFn :: parenthesized (params.map fun n => [n.lexeme])
      ++ .mark .fatArrow :: lexemes .body body
  | block _ ds body =>
    .keyword .kwBegin :: (declarationsLexemes ds).flatten
      ++ .keyword .kwIn :: lexemes .items body ++ [.keyword .kwEnd]
  | _ => []

/-- The lexemes of several expressions. -/
def lexemesAll : List Node → List (List Lexeme)
  | [] => []
  | n :: ns => lexemes .operand n :: lexemesAll ns

/-- The lexemes of an arm. -/
def armLexemes : Node → List Lexeme
  | arm _ pattern body =>
    .mark .bar :: patternLexemes pattern ++ .mark .fatArrow :: lexemes .body body
  | _ => []

/-- The lexemes of several arms. -/
def armsLexemes : List Node → List (List Lexeme)
  | [] => []
  | n :: ns => armLexemes n :: armsLexemes ns

/-- **The lexemes of a declaration.** -/
def declarationLexemes : Node → List Lexeme
  | externDecl _ name tps paramTypes returnType =>
    .keyword .kwExtern :: name.lexeme :: typeParamLexemes tps ++ .mark .colon :: .keyword .kwFun
      :: parenthesized (paramTypes.map typeLexemes) ++ .mark .arrow :: typeLexemes returnType
      ++ [.mark .semicolon]
  | dataDecl _ name tps constructors =>
    .keyword .kwData :: name.lexeme :: typeParamLexemes tps
      ++ .mark .equal :: constructors.flatMap (fun c => .mark .bar :: constructorLexemes c)
      ++ [.keyword .kwEnd, .mark .semicolon]
  | typeDecl _ name tps t =>
    .keyword .kwType :: name.lexeme :: typeParamLexemes tps ++ .mark .equal :: typeLexemes t
      ++ [.mark .semicolon]
  | funDecl _ name tps params body returnType =>
    .keyword .kwFun :: name.lexeme :: typeParamLexemes tps
      ++ parenthesized (params.map paramLexemes) ++ lexemesAfter .arrow returnType
      ++ .mark .fatArrow :: .mark .leftBrace :: lexemes .items body ++ [.mark .rightBrace]
  | _ => []

/-- The lexemes of several declarations. -/
def declarationsLexemes : List Node → List (List Lexeme)
  | [] => []
  | n :: ns => declarationLexemes n :: declarationsLexemes ns

end

theorem lexemesAll_eq_map (ns : List Node) : lexemesAll ns = ns.map (lexemes .operand) := by
  induction ns with
  | nil => rfl
  | cons n ns ih => rw [lexemesAll, ih, List.map_cons]

theorem armsLexemes_eq_map (ns : List Node) : armsLexemes ns = ns.map armLexemes := by
  induction ns with
  | nil => rfl
  | cons n ns ih => rw [armsLexemes, ih, List.map_cons]

theorem declarationsLexemes_eq_map (ns : List Node) :
    declarationsLexemes ns = ns.map declarationLexemes := by
  induction ns with
  | nil => rfl
  | cons n ns ih => rw [declarationsLexemes, ih, List.map_cons]

/-- **The lexemes of a program.** -/
def programLexemes : Node → List Lexeme
  | program _ ds body =>
    .keyword .kwBegin :: (declarationsLexemes ds).flatten
      ++ .keyword .kwIn :: lexemes .items body ++ [.keyword .kwEnd]
  | _ => []

end Node

end EmberLang
