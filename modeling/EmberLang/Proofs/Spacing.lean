import EmberLang.Proofs.LexemesDecide
import EmberLang.Proofs.LexicalRules

/-!
# The spacing of a text has no meaning

Between two tokens of a text there may be nothing, a blank, or pages of
comments. What fills the room has no meaning: a text in which the same
tokens stand in the same order, each two of them parted by something, is
scanned to the same tokens at other places, and so it is the same program.
The parts that are laid out need not be single tokens (`Spells.laidOut`).

The room between two tokens must not become empty, since `a b` is not `ab`.
If there is anything in it, then it begins with a blank or with the `/` of
a comment, and no token goes on with one of these.
-/

namespace EmberLang

open scoped Computability
open Scan

namespace Rule

/-! ## What fills the room between tokens -/

/-- A block comment with one end only: its last two characters. -/
def comment : Language Char := {w | Shortest blockComment w []}

/-- One blank, a comment with the newline that ends it, or a block
comment. -/
def filling : Language Char := oneOf isSpace + lineComment * only '\n' + comment

/-- **What fills the room between tokens**: any number of blanks and
comments. -/
def filler : Language Char := filling∗

theorem blank_mem_filling {c : Char} (hc : isSpace c = true) : [c] ∈ filling :=
  .inl (.inl ⟨c, hc, rfl⟩)

theorem lineComment_mem_filling {u : List Char} (hu : ∀ c ∈ u, (c != '\n') = true) :
    '/' :: '/' :: (u ++ ['\n']) ∈ filling := by
  have hline : '/' :: '/' :: u ∈ lineComment :=
    mem_oneOf_mul.2 ⟨'/', _, rfl, mem_oneOf_mul.2 ⟨'/', u, rfl, mem_kstar_oneOf.2 hu, rfl⟩, rfl⟩
  exact .inl (.inr (Language.append_mem_mul hline ⟨'\n', rfl, rfl⟩))

/-- What is taken whole as the rest of a block comment makes one. -/
theorem comment_mem_filling {u : List Char} (hu : commentEnd u = some (u, [])) :
    '/' :: '*' :: u ∈ filling := .inr (shortest_of_commentEnd hu)

/-- A block comment is skipped, and no more than it. -/
theorem gap?_comment {w : List Char} (hw : w ∈ comment) (r : List Char) :
    gap? (w ++ r) = some (w, r) := by
  obtain ⟨u, ds, hds, hu, hlen⟩ := prefix_of_mem_blockComment hw.mem (List.prefix_append w r)
  obtain ⟨s, hs, hle⟩ := commentEnd_le hu
  have hgap : gap? (w ++ r) = some ('/' :: '*' :: s.1, s.2) := by
    rw [hds, gap?, hs, Option.map_some]
  have hsplit : w ++ r = ('/' :: '*' :: s.1) ++ s.2 := by
    rw [hds, commentEnd_eq hs]
    rfl
  -- what is skipped is a comment no longer than this one, and there is no shorter one
  have hlength : ('/' :: '*' :: s.1).length ≤ w.length := by
    simp only [List.length_cons]
    omega
  have hpre : '/' :: '*' :: s.1 <+: w :=
    List.prefix_of_prefix_length_le ⟨s.2, hsplit.symm⟩ (List.prefix_append w r) hlength
  have heq : '/' :: '*' :: s.1 = w :=
    hpre.eq_of_length_le (hw.shortest _ (shortest_of_commentEnd hs).mem (by rwa [List.append_nil]))
  rw [heq] at hsplit hgap
  rw [hgap, List.append_cancel_left hsplit]

/-- A comment to the end of its line is skipped up to the newline. -/
theorem gap?_lineComment {w : List Char} (hw : w ∈ lineComment) (r : List Char) :
    gap? (w ++ '\n' :: r) = some (w, '\n' :: r) := by
  obtain ⟨c, v, hc, hv, rfl⟩ := mem_oneOf_mul.1 hw
  obtain ⟨d, u, hd, hu, rfl⟩ := mem_oneOf_mul.1 hv
  rw [beq_iff_eq.1 hc, beq_iff_eq.1 hd]
  have hsplit : splitWhile (· != '\n') (u ++ '\n' :: r) = (u, '\n' :: r) := by
    rw [splitWhile_append, splitWhile_of_all (mem_kstar_oneOf.1 hu)]
    · rfl
    · rintro - c ⟨⟩
      rfl
  show some ('/' :: '/' :: (splitWhile (· != '\n') (u ++ '\n' :: r)).1,
    (splitWhile (· != '\n') (u ++ '\n' :: r)).2) = _
  rw [hsplit]

/-- **What fills the room has no pieces.** -/
theorem pieces_filling {w : List Char} (hw : w ∈ filling) (r : List Char) :
    pieces (w ++ r) = pieces r := by
  rcases hw with (⟨c, hc, rfl⟩ | hw) | hw
  · exact pieces_space hc r
  · obtain ⟨v, hv, _, ⟨c, hc, rfl⟩, rfl⟩ := Language.mem_mul.1 hw
    rw [beq_iff_eq.1 hc, List.append_assoc, List.singleton_append,
      pieces_of_gap (gap?_lineComment hv r), pieces_space (by decide)]
  · rw [pieces_of_gap (gap?_comment hw r)]

theorem pieces_filler {w : List Char} (hw : w ∈ filler) (r : List Char) :
    pieces (w ++ r) = pieces r := by
  obtain ⟨ws, rfl, hws⟩ := Language.mem_kstar.1 hw
  clear hw
  induction ws with
  | nil => rfl
  | cons v ws ih =>
    obtain ⟨hv, hws⟩ := List.forall_mem_cons.1 hws
    rw [List.flatten_cons, List.append_assoc, pieces_filling hv]
    exact ih hws

theorem isBreak_of_isSpace {c : Char} (h : isSpace c = true) : isBreak c = true := by
  simp only [isSpace, Bool.or_eq_true, beq_iff_eq] at h
  rcases h with (((rfl | rfl) | rfl) | rfl) | rfl <;> decide

/-- A blank and the beginning of a comment end a lexeme. -/
theorem isBreak_of_mem_filling {w : List Char} (hw : w ∈ filling) :
    ∃ c v, w = c :: v ∧ isBreak c = true := by
  have hslash {L : Language Char} (hw : w ∈ only '/' * L) :
      ∃ c v, w = c :: v ∧ isBreak c = true := by
    obtain ⟨c, v, hc, -, rfl⟩ := mem_oneOf_mul.1 hw
    exact ⟨c, v, rfl, beq_iff_eq.1 hc ▸ by decide⟩
  rcases hw with (⟨c, hc, rfl⟩ | hw) | hw
  · exact ⟨c, [], rfl, isBreak_of_isSpace hc⟩
  · rw [lineComment, mul_assoc] at hw
    exact hslash hw
  · exact hslash hw.mem

end Rule

/-! ## Parts laid out -/

/-- **Whether a text is nothing but blanks and comments.** -/
def IsFiller (text : String) : Prop := text.toList ∈ Rule.filler

namespace IsFiller

variable {text : String}

theorem empty : IsFiller "" := Language.nil_mem_kstar _

/-- One blank or comment. -/
theorem of_mem_filling {w : List Char} (hw : w ∈ Rule.filling) (htext : text.toList = w) :
    IsFiller text :=
  Language.mem_kstar.2 ⟨[w], by simp [htext], by simpa using hw⟩

theorem append {text' : String} (h : IsFiller text) (h' : IsFiller text') :
    IsFiller (text ++ text') := by
  unfold IsFiller Rule.filler at *
  rw [String.toList_append, ← kstar_mul_kstar]
  exact Language.append_mem_mul h h'

theorem closes (h : IsFiller text) : Closes text [] := Rule.pieces_filler h

/-- What parts two lexemes ends the first. -/
theorem eq_empty_or_opens (h : IsFiller text) : text = "" ∨ opens text = true := by
  obtain ⟨ws, htext, hws⟩ := Language.mem_kstar.1 h
  cases ws with
  | nil => exact .inl (String.toList_eq_nil_iff.1 htext)
  | cons w ws =>
    obtain ⟨c, v, rfl, hc⟩ := Rule.isBreak_of_mem_filling (hws w List.mem_cons_self)
    right
    rw [opens, htext]
    exact hc

end IsFiller

/-- **Parts laid out as a text**: each stands there as it is, and between
each two neighbours is something. -/
inductive LaidOut : List String → String → Prop
  | nil : LaidOut [] ""
  | single (part : String) : LaidOut [part] part
  | cons (part : String) {next : String} {parts : List String} {gap rest : String}
      (hgap : IsFiller gap) (hne : gap ≠ "") (h : LaidOut (next :: parts) rest) :
      LaidOut (part :: next :: parts) (part ++ gap ++ rest)

/-- **What is laid out spells what its parts spell**, by induction on the
parts: each is read where it stands, since the gap after it ends its last
lexeme. -/
theorem Spells.laidOut {parts : List String} {lss : List (List Lexeme)}
    (hparts : List.Forall₂ Spells parts lss) {text : String} (h : LaidOut parts text) :
    Spells text lss.flatten := by
  induction h generalizing lss with
  | nil =>
    cases hparts
    exact Spells.empty
  | single part =>
    obtain ⟨ls, _, hpart, hnil, rfl⟩ := List.forall₂_cons_left_iff.1 hparts
    cases hnil
    rwa [List.flatten_singleton]
  | @cons part next parts gap rest hgap hne _ ih =>
    obtain ⟨ls, lss, hpart, hrest, rfl⟩ := List.forall₂_cons_left_iff.1 hparts
    have hopens : opens gap = true := hgap.eq_empty_or_opens.resolve_left hne
    exact ((hpart.close hgap.closes hopens).andThen (ih hrest)).congr (by simp)

/-- There may be something before and after the parts. -/
theorem Spells.between {text before after : String} {ls : List Lexeme} (h : Spells text ls)
    (hbefore : IsFiller before) (hafter : IsFiller after) :
    Spells (before ++ text ++ after) ls :=
  ((hbefore.closes.andThen h).append hafter.closes.spells hafter.eq_empty_or_opens).congr
    (List.append_nil ls)

/-- **Spacing has no meaning.** Take a text that can be scanned, and lay out
its lexemes anew: with anything between each two of them, and anything or
nothing before the first and after the last. The text that results can be
scanned and has the same lexemes. Hence both are read, with any number of
frames, to programs that are equal up to positions, or both are refused for
the same cause. -/
theorem scan_laidOut {text text' : String} {s : Scanned} (hs : scan text = .ok s)
    (htext' : LaidOut (s.tokens.map fun t => t.lexeme.text) text') {before after : String}
    (hbefore : IsFiller before) (hafter : IsFiller after) :
    ∃ s', scan (before ++ text' ++ after) = .ok s'
      ∧ s'.tokens.map Token.lexeme = s.tokens.map Token.lexeme
      ∧ ∀ frames, Agree Node.Alike (Node.ofSource text frames)
          (Node.ofSource (before ++ text' ++ after) frames) := by
  have hproper : ∀ t ∈ s.tokens, t.lexeme.isProper = true :=
    fun t ht => (proper_of_scan hs t ht).1
  have hparts : List.Forall₂ Spells (s.tokens.map fun t => t.lexeme.text)
      (s.tokens.map fun t => [t.lexeme]) := by
    rw [List.forall₂_map_left_iff, List.forall₂_map_right_iff, List.forall₂_same]
    exact fun t ht => Spells.lexeme (hproper t ht)
  have hspells : Spells (before ++ text' ++ after) (s.tokens.map Token.lexeme) :=
    ((Spells.laidOut hparts htext').between hbefore hafter).congr
      (List.flatMap_def.symm.trans List.map_eq_flatMap.symm)
  obtain ⟨s', hs', hlexemes⟩ := hspells.scan (by simpa [allProper] using hproper)
  exact ⟨s', hs', hlexemes, Node.agree_ofSource hs hs' hlexemes⟩

/-- A text with little room in it. -/
def tightText : String := "begin in f(-1)end"

/-- The same lexemes with more room between them. -/
def wideText : String := "/* f */begin\n// in\nin\tf/**/( -1 //\n)\nend"

/-- The lexemes of both. -/
def callLexemes : List Lexeme :=
  [.keyword .kwBegin, .keyword .kwIn, .ident "f", .mark .leftParen, .int "-1", .mark .rightParen,
    .keyword .kwEnd]

/-- The second of two texts with the same lexemes is scanned and read as the
first is. -/
theorem scan_wideText :
    ∃ s s', scan tightText = .ok s ∧ s.tokens.map Token.lexeme = callLexemes
      ∧ scan wideText = .ok s' ∧ s'.tokens.map Token.lexeme = callLexemes
      ∧ Agree Node.Alike (Node.ofSource tightText 1000) (Node.ofSource wideText 1000) := by
  have hs : scan tightText = .ok
      ⟨[⟨.keyword .kwBegin, ⟨1, 1⟩⟩, ⟨.keyword .kwIn, ⟨1, 7⟩⟩, ⟨.ident "f", ⟨1, 10⟩⟩,
        ⟨.mark .leftParen, ⟨1, 11⟩⟩, ⟨.int "-1", ⟨1, 12⟩⟩, ⟨.mark .rightParen, ⟨1, 14⟩⟩,
        ⟨.keyword .kwEnd, ⟨1, 15⟩⟩], ⟨1, 18⟩⟩ := by cbv
  have hblank {gap : String} (c : Char) (hc : isSpace c = true) (hgap : gap.toList = [c]) :
      IsFiller gap := .of_mem_filling (Rule.blank_mem_filling hc) hgap
  have hcomment {gap : String} (u : List Char) (hu : commentEnd u = some (u, []))
      (hgap : gap.toList = '/' :: '*' :: u) : IsFiller gap :=
    .of_mem_filling (Rule.comment_mem_filling hu) hgap
  have hline {gap : String} (u : List Char) (hu : ∀ c ∈ u, (c != '\n') = true)
      (hgap : gap.toList = '/' :: '/' :: (u ++ ['\n'])) : IsFiller gap :=
    .of_mem_filling (Rule.lineComment_mem_filling hu) hgap
  have hlaid : LaidOut (callLexemes.map Lexeme.text)
      ("begin" ++ ("\n" ++ "// in\n") ++ ("in" ++ "\t" ++ ("f" ++ "/**/" ++ ("(" ++ " "
        ++ ("-1" ++ (" " ++ "//\n") ++ (")" ++ "\n" ++ "end")))))) :=
    .cons _ ((hblank '\n' rfl rfl).append (hline [' ', 'i', 'n'] (by simp) rfl)) (by decide)
    (.cons _ (hblank '\t' rfl rfl) (by decide)
    (.cons _ (hcomment ['*', '/'] rfl rfl) (by decide)
    (.cons _ (hblank ' ' rfl rfl) (by decide)
    (.cons _ ((hblank ' ' rfl rfl).append (hline [] (by simp) rfl)) (by decide)
    (.cons _ (hblank '\n' rfl rfl) (by decide) (.single _))))))
  have hbefore : IsFiller "/* f */" := hcomment [' ', 'f', ' ', '*', '/'] rfl rfl
  obtain ⟨s', hs', hlexemes, hagree⟩ := scan_laidOut hs hlaid hbefore .empty
  have htext : "/* f */"
      ++ ("begin" ++ ("\n" ++ "// in\n") ++ ("in" ++ "\t" ++ ("f" ++ "/**/" ++ ("(" ++ " "
        ++ ("-1" ++ (" " ++ "//\n") ++ (")" ++ "\n" ++ "end")))))) ++ "" = wideText := by
    decide +kernel
  rw [htext] at hs' hagree
  exact ⟨_, s', hs, rfl, hs', hlexemes, hagree 1000⟩

end EmberLang
