import EmberLang.Error
import EmberLang.Token

/-!
# From text to tokens

At each place of a program text there is at most one thing to read: a
run of blanks, a comment, or a lexeme. Which one it is shows in the
first character or two, and it then extends as far as its rule allows –
a name over all letters, digits, underscores and quotes, a numeral over
its fraction and exponent if these are complete, a block comment to the
first `*/`.

Every rule is a function that splits the text into what it takes and the
rest. `scan` applies them until the text is used up or nothing fits, and
counts positions on the way.
-/

namespace EmberLang

namespace Scan

/-- A text split into what a rule takes and what it leaves. -/
abbrev Split := List Char × List Char

/-- The blanks of a program text. -/
def isSpace (c : Char) : Bool :=
  c == ' ' || c == '\t' || c == '\x0c' || c == '\r' || c == '\n'

/-- A character that may begin a name. -/
def isNameStart (c : Char) : Bool := c.isAlpha || c == '_'

/-- A character that may continue the name of an intrinsic or a
directive. -/
def isNamePart (c : Char) : Bool := c.isAlphanum || c == '_'

/-- A character that may continue an identifier. -/
def isIdentPart (c : Char) : Bool := isNamePart c || c == '\''

/-- The longest first part all of whose characters satisfy `p`. -/
def splitWhile (p : Char → Bool) (cs : List Char) : Split :=
  (cs.takeWhile p, cs.dropWhile p)

/-- The rest of a block comment, up to and with the first `*/`. -/
def commentEnd : List Char → Option Split
  | [] => none
  | [_] => none
  | '*' :: '/' :: cs => some (['*', '/'], cs)
  | c :: cs => (commentEnd cs).map fun s => (c :: s.1, s.2)

/-- Digits, at least one. -/
def digits1 (cs : List Char) : Option Split :=
  if (splitWhile Char.isDigit cs).1 = [] then none else some (splitWhile Char.isDigit cs)

/-- An exponent: its mark, an optional sign, and digits. -/
def exponent : List Char → Option Split
  | mark :: cs =>
    if mark = 'e' || mark = 'E' then
      match cs with
      | sign :: ds =>
        if sign = '+' || sign = '-' then
          (digits1 ds).map fun s => (mark :: sign :: s.1, s.2)
        else (digits1 cs).map fun s => (mark :: s.1, s.2)
      | [] => none
    else none
  | [] => none

/-- What makes a numeral real, after its digits: a fraction with an
optional exponent, or an exponent alone. -/
def realTail : List Char → Option Split
  | '.' :: cs =>
    (digits1 cs).map fun fraction =>
      match exponent fraction.2 with
      | some e => ('.' :: fraction.1 ++ e.1, e.2)
      | none => ('.' :: fraction.1, fraction.2)
  | cs => exponent cs

/-- A numeral whose minus sign, if any, has been read. -/
def numeral (sign : List Char) (cs : List Char) : Option (Lexeme × List Char) :=
  (digits1 cs).map fun whole =>
    match realTail whole.2 with
    | some tail => (.real (String.ofList (sign ++ whole.1 ++ tail.1)), tail.2)
    | none => (.int (String.ofList (sign ++ whole.1)), whole.2)

/-- The characters that may follow a backslash between quotes. -/
def escapable : List Char := ['n', 'r', 't', '0', '\\', '\'']

/-- A character, after its opening quote. -/
def character : List Char → Option (Lexeme × List Char)
  | '\\' :: c :: '\'' :: cs =>
    if escapable.contains c then some (.char (String.ofList ['\\', c]), cs) else none
  | c :: '\'' :: cs =>
    if c = '\'' || c = '\\' || c = '\n' then none else some (.char (String.ofList [c]), cs)
  | _ => none

/-- The name after a sigil. -/
def sigilName (lexeme : String → Lexeme) : List Char → Option (Lexeme × List Char)
  | c :: cs =>
    if isNameStart c then
      let s := splitWhile isNamePart cs
      some (lexeme (String.ofList (c :: s.1)), s.2)
    else none
  | [] => none

/-- A word: a keyword if it spells one exactly, and a name otherwise. -/
def word (cs : List Char) : Lexeme :=
  match Keyword.ofText? (String.ofList cs) with
  | some k => .keyword k
  | none => .ident (String.ofList cs)

/-- The mark a text begins with. The longer mark wins. -/
def mark? : List Char → Option (Mark × List Char)
  | '=' :: '>' :: cs => some (.fatArrow, cs)
  | '-' :: '>' :: cs => some (.arrow, cs)
  | '|' :: cs => some (.bar, cs)
  | ',' :: cs => some (.comma, cs)
  | '(' :: cs => some (.leftParen, cs)
  | ')' :: cs => some (.rightParen, cs)
  | '[' :: cs => some (.leftBracket, cs)
  | ']' :: cs => some (.rightBracket, cs)
  | '\x7b' :: cs => some (.leftBrace, cs)
  | '\x7d' :: cs => some (.rightBrace, cs)
  | ':' :: cs => some (.colon, cs)
  | '=' :: cs => some (.equal, cs)
  | ';' :: cs => some (.semicolon, cs)
  | _ => none

/-- **The gap a text begins with**: a run of blanks or one comment. -/
def gap? : List Char → Option Split
  | '/' :: '/' :: cs =>
    let s := splitWhile (· != '\n') cs
    some ('/' :: '/' :: s.1, s.2)
  | '/' :: '*' :: cs => (commentEnd cs).map fun s => ('/' :: '*' :: s.1, s.2)
  | c :: cs =>
    if isSpace c then
      let s := splitWhile isSpace cs
      some (c :: s.1, s.2)
    else none
  | [] => none

/-- **The lexeme a text begins with**, and the rest. -/
def lexeme? : List Char → Option (Lexeme × List Char)
  | [] => none
  | c :: cs =>
    if isNameStart c then
      let s := splitWhile isIdentPart cs
      some (word (c :: s.1), s.2)
    else if c.isDigit then numeral [] (c :: cs)
    else if c = '\'' then character cs
    else if c = '@' then sigilName .intrinsic cs
    else if c = '#' then sigilName .directive cs
    else
      match mark? (c :: cs) with
      | some (m, rest) => some (.mark m, rest)
      | none => if c = '-' then numeral ['-'] cs else none

/-! ## What a rule takes, and what it leaves

Each rule splits the text it is given: what it takes, followed by what it
leaves, is that text again, and it takes something. This is why the
scanner loses nothing and why it ends. -/

theorem splitWhile_eq (p : Char → Bool) (cs : List Char) :
    (splitWhile p cs).1 ++ (splitWhile p cs).2 = cs :=
  List.takeWhile_append_dropWhile

theorem commentEnd_eq {cs : List Char} {s : Split} (h : commentEnd cs = some s) :
    cs = s.1 ++ s.2 := by
  fun_induction commentEnd cs generalizing s with
  | case1 => simp at h
  | case2 => simp at h
  | case3 cs => simp at h; subst h; rfl
  | case4 c cs _ _ ih =>
    obtain ⟨t, ht, rfl⟩ := Option.map_eq_some_iff.1 h
    simpa using ih ht

theorem digits1_eq {cs : List Char} {s : Split} (h : digits1 cs = some s) :
    cs = s.1 ++ s.2 ∧ s.1 ≠ [] := by
  have e := splitWhile_eq Char.isDigit cs
  unfold digits1 at h
  split at h
  · simp at h
  · next hne =>
    obtain rfl := Option.some.inj h
    exact ⟨e.symm, hne⟩

theorem exponent_eq {cs : List Char} {s : Split} (h : exponent cs = some s) :
    cs = s.1 ++ s.2 := by
  unfold exponent at h
  split at h
  · split at h
    · split at h
      · split at h
        · obtain ⟨t, ht, rfl⟩ := Option.map_eq_some_iff.1 h
          simpa using (digits1_eq ht).1
        · obtain ⟨t, ht, rfl⟩ := Option.map_eq_some_iff.1 h
          simpa using (digits1_eq ht).1
      · simp at h
    · simp at h
  · simp at h

theorem realTail_eq {cs : List Char} {s : Split} (h : realTail cs = some s) :
    cs = s.1 ++ s.2 := by
  unfold realTail at h
  split at h
  · obtain ⟨t, ht, rfl⟩ := Option.map_eq_some_iff.1 h
    have e := (digits1_eq ht).1
    split
    · next e' he => simp [e, exponent_eq he]
    · simp [e]
  · exact exponent_eq h

theorem numeral_eq {sign cs : List Char} {l : Lexeme} {rest : List Char}
    (h : numeral sign cs = some (l, rest)) :
    sign ++ cs = l.text.toList ++ rest ∧ l.text.toList ≠ [] := by
  obtain ⟨whole, hw, e⟩ := Option.map_eq_some_iff.1 h
  obtain ⟨hcs, hne⟩ := digits1_eq hw
  split at e
  · next tail ht =>
    obtain ⟨rfl, rfl⟩ := Prod.mk.inj e
    have := realTail_eq ht
    simp_all [Lexeme.text]
  · obtain ⟨rfl, rfl⟩ := Prod.mk.inj e
    simp_all [Lexeme.text]

theorem character_eq {cs : List Char} {l : Lexeme} {rest : List Char}
    (h : character cs = some (l, rest)) :
    '\'' :: cs = l.text.toList ++ rest ∧ l.text.toList ≠ [] := by
  unfold character at h
  split at h
  · split at h
    · obtain ⟨rfl, rfl⟩ := Prod.mk.inj (Option.some.inj h)
      simp [Lexeme.text]
    · simp at h
  · split at h
    · simp at h
    · obtain ⟨rfl, rfl⟩ := Prod.mk.inj (Option.some.inj h)
      simp [Lexeme.text]
  · simp at h

theorem sigilName_eq {lexeme : String → Lexeme} {cs : List Char} {l : Lexeme} {rest : List Char}
    (h : sigilName lexeme cs = some (l, rest)) :
    ∃ name : String, l = lexeme name ∧ cs = name.toList ++ rest := by
  unfold sigilName at h
  split at h
  · next c cs =>
    split at h
    · obtain ⟨rfl, rfl⟩ := Prod.mk.inj (Option.some.inj h)
      exact ⟨_, rfl, by simp [splitWhile_eq]⟩
    · simp at h
  · simp at h

theorem word_text (cs : List Char) : (word cs).text = String.ofList cs := by
  unfold word
  split
  · next k hk =>
    have := List.find?_some hk
    simpa [Lexeme.text] using this
  · rfl

theorem mark?_eq {cs : List Char} {m : Mark} {rest : List Char} (h : mark? cs = some (m, rest)) :
    cs = m.text.toList ++ rest ∧ m.text.toList ≠ [] := by
  unfold mark? at h
  split at h
  case h_14 => cases h
  all_goals
    obtain ⟨rfl, rfl⟩ := Prod.mk.inj (Option.some.inj h)
    simp [Mark.text]

/-- **A gap is a first part of the text**, and not empty. -/
theorem gap?_eq {cs : List Char} {s : Split} (h : gap? cs = some s) :
    cs = s.1 ++ s.2 ∧ s.1 ≠ [] := by
  unfold gap? at h
  split at h
  · obtain rfl := Option.some.inj h
    simp [splitWhile_eq]
  · obtain ⟨t, ht, rfl⟩ := Option.map_eq_some_iff.1 h
    simp [commentEnd_eq ht]
  · split at h
    · obtain rfl := Option.some.inj h
      simp [splitWhile_eq]
    · simp at h
  · simp at h

/-- **A lexeme is a first part of the text**, and not empty. -/
theorem lexeme?_eq {cs : List Char} {l : Lexeme} {rest : List Char}
    (h : lexeme? cs = some (l, rest)) :
    cs = l.text.toList ++ rest ∧ l.text.toList ≠ [] := by
  unfold lexeme? at h
  split at h
  · simp at h
  · next c cs =>
    split at h
    · obtain ⟨rfl, rfl⟩ := Prod.mk.inj (Option.some.inj h)
      simp [word_text, splitWhile_eq]
    · split at h
      · simpa using numeral_eq h
      · split at h
        · next hc => subst hc; exact character_eq h
        · split at h
          · next hc =>
            obtain ⟨name, rfl, rfl⟩ := sigilName_eq h
            simp [Lexeme.text, hc]
          · split at h
            · next hc =>
              obtain ⟨name, rfl, rfl⟩ := sigilName_eq h
              simp [Lexeme.text, hc]
            · split at h
              · next m rest' hm =>
                obtain ⟨rfl, rfl⟩ := Prod.mk.inj (Option.some.inj h)
                exact mark?_eq hm
              · split at h
                · next hc => subst hc; simpa using numeral_eq h
                · simp at h

theorem gap?_shorter {cs : List Char} {s : Split} (h : gap? cs = some s) :
    s.2.length < cs.length := by
  obtain ⟨e, ne⟩ := gap?_eq h
  rw [e, List.length_append]
  have := List.length_pos_iff.2 ne
  omega

theorem lexeme?_shorter {cs : List Char} {l : Lexeme} {rest : List Char}
    (h : lexeme? cs = some (l, rest)) : rest.length < cs.length := by
  obtain ⟨e, ne⟩ := lexeme?_eq h
  rw [e, List.length_append]
  have := List.length_pos_iff.2 ne
  omega

end Scan

/-- **A text read as tokens**: the tokens in order, and the position of
the end of the text. -/
structure Scanned where
  /-- The tokens. -/
  tokens : List Token
  /-- Where the text ends. -/
  stop : Position
  deriving DecidableEq, Repr

namespace Scan

/-- The scanner's loop. `done` holds the tokens read so far, the last one
first, and `p` is the position of the text that is left. -/
def loop (done : List Token) (p : Position) (cs : List Char) : Except Error Scanned :=
  match cs with
  | [] => .ok ⟨done.reverse, p⟩
  | c :: more =>
    match _hg : gap? (c :: more) with
    | some s => loop done (p.after s.1) s.2
    | none =>
      match _hl : lexeme? (c :: more) with
      | some (l, rest) => loop (⟨l, p⟩ :: done) (p.after l.text.toList) rest
      | none => .error ⟨.strayCharacter c, p⟩
termination_by cs.length
decreasing_by
  · exact gap?_shorter _hg
  · exact lexeme?_shorter _hl

end Scan

/-- **Reads a program text as tokens.** When nothing fits at some place,
the error names the character there. -/
def scan (text : String) : Except Error Scanned :=
  Scan.loop [] .start text.toList

end EmberLang
