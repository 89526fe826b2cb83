import EmberLang.Json.Parser
import EmberLang.Json.Printer
import EmberLang.Proofs.Outcome
import EmberLang.Proofs.RealText
import EmberLang.Text.Newline

/-!
# JSON text is read back

A value that is written and read again is the same value, in either layout
(`Json.parse_render`). Its integers must not be too long, and no object may
have two members with one key; every string and every real is read back,
also the three reals that JSON has no numbers for.

The reader is shown to take from a text what was written for a value and to
leave the rest, whatever it is: a text that ends, or goes on with what ends
an item. For numbers and strings this is a fact about characters. For
arrays and objects it is an induction along the value, with as much fuel as
there are characters.

No carriage return is ever written, so a text that went through a file, and
was read from it with its line ends unified, is still the text that was
written (`Json.unifyNewlines_render`).
-/

namespace EmberLang.Json

open Decimal

/-! ## Values that have a text -/

mutual

/-- **Whether a value can be read from its text.** -/
def isWritable : Json → Bool
  | null => true
  | bool _ => true
  | int n => isPrintable n
  | real _ => true
  | str _ => true
  | arr items => areWritable items
  | obj members => decide (members.map Prod.fst).Nodup && membersAreWritable members

/-- Whether some values can. -/
def areWritable : List Json → Bool
  | [] => true
  | item :: rest => isWritable item && areWritable rest

/-- Whether the values of some members can. -/
def membersAreWritable : List (String × Json) → Bool
  | [] => true
  | (_, item) :: rest => isWritable item && membersAreWritable rest

end

/-! ## What follows a value -/

/-- What ends an item. -/
def closers : List Char := [',', ']', '\x7d', '\n']

/-- **What may follow a value**: the end of the text, or what ends an
item. -/
def Follows (r : List Char) : Prop := ∀ c ∈ r.head?, c ∈ closers

namespace Follows

variable {r : List Char}

theorem nil : Follows [] := by rintro c ⟨⟩

theorem cons {c : Char} (h : c ∈ closers) (r : List Char) : Follows (c :: r) := by
  rintro d ⟨⟩
  exact h

theorem forall_head {P : Char → Prop} [DecidablePred P] (hr : Follows r)
    (h : (closers.all fun c => decide (P c)) = true) : ∀ c ∈ r.head?, P c :=
  fun c hc => of_decide_eq_true (List.all_eq_true.1 h c (hr c hc))

theorem not_digit (hr : Follows r) : ∀ c ∈ r.head?, c.isDigit = false :=
  hr.forall_head (by decide)

end Follows

/-! ## Numbers -/

section Numbers

variable {ds r : List Char}

theorem wholePart_append (hne : ds ≠ []) (hds : ∀ c ∈ ds, c.isDigit = true)
    (hzero : ds.head? = some '0' → ds = ['0']) (hr : ∀ c ∈ r.head?, c.isDigit = false) :
    wholePart (ds ++ r) = ds := by
  cases ds with
  | nil => exact absurd rfl hne
  | cons c cs =>
    by_cases hc : c = '0'
    · subst hc
      rw [hzero rfl]
      rfl
    · rw [List.cons_append, wholePart, ← List.cons_append]
      · exact (RealParts.takeWhile_append_of_all hds hr).1
      · exact fun _ h => hc (List.cons.inj h).1

theorem fractionPart_eq_nil (hr : ∀ c ∈ r.head?, c ≠ '.') : fractionPart r = ([], r) := by
  unfold fractionPart
  split
  · exact absurd rfl (hr '.' rfl)
  · rfl

theorem fractionPart_append (hne : ds ≠ []) (hds : ∀ c ∈ ds, c.isDigit = true)
    (hr : ∀ c ∈ r.head?, c.isDigit = false) :
    fractionPart ('.' :: (ds ++ r)) = ('.' :: ds, r) := by
  obtain ⟨htake, hdrop⟩ := RealParts.takeWhile_append_of_all hds hr
  rw [fractionPart, htake, hdrop, if_neg (by simpa using hne)]

theorem exponentPart_eq_nil (hr : ∀ c ∈ r.head?, c ≠ 'e' ∧ c ≠ 'E') : exponentPart r = ([], r) := by
  unfold exponentPart
  split
  · next mark cs =>
    obtain ⟨hsmall, hlarge⟩ := hr mark rfl
    rw [if_neg (by simp [hsmall, hlarge])]
  · rfl

theorem exponentPart_append (negative : Bool) (hne : ds ≠ []) (hds : ∀ c ∈ ds, c.isDigit = true)
    (hr : ∀ c ∈ r.head?, c.isDigit = false) :
    exponentPart ('e' :: (if negative then '-' else '+') :: (ds ++ r))
      = ('e' :: (if negative then '-' else '+') :: ds, r) := by
  have hsign : (List.take 1 ((if negative then '-' else '+') :: (ds ++ r))).filter
      (fun c => c = '+' || c = '-') = [if negative then '-' else '+'] := by
    cases negative <;> rfl
  have htake := (RealParts.takeWhile_append_of_all hds hr).1
  unfold exponentPart
  dsimp only
  rw [hsign, if_pos (by decide)]
  simp only [List.length_singleton, List.drop_succ_cons, List.drop_zero, htake]
  rw [if_neg (by simpa using hne)]
  simp [Nat.add_comm 1 ds.length]

theorem splitMinus_append (negative : Bool) (hne : ds ≠ []) (hds : ∀ c ∈ ds, c.isDigit = true)
    (r : List Char) : splitMinus (signText negative ++ (ds ++ r)) = (negative, ds ++ r) := by
  cases ds with
  | nil => exact absurd rfl hne
  | cons c cs => exact splitMinus_signText_cons negative (hds c List.mem_cons_self) (cs ++ r)

/-- **Digits are read as an integer.** -/
theorem number_digits (negative : Bool) (hne : ds ≠ []) (hds : ∀ c ∈ ds, c.isDigit = true)
    (hzero : ds.head? = some '0' → ds = ['0']) (hlength : ds.length ≤ maxDigits)
    (hr : Follows r) :
    number (signText negative ++ (ds ++ r)) = .ok (.int (signed negative (digitsValue ds)), r) := by
  have hpoint := fractionPart_eq_nil (hr.forall_head (P := (· ≠ '.')) (by decide))
  have hmark := exponentPart_eq_nil (hr.forall_head (P := fun c => c ≠ 'e' ∧ c ≠ 'E') (by decide))
  unfold number
  rw [splitMinus_append negative hne hds]
  dsimp only
  rw [wholePart_append hne hds hzero hr.not_digit, List.drop_left, hpoint]
  dsimp only
  rw [hmark, if_neg (by simpa using hne)]
  simp only [List.isEmpty_nil, Bool.and_self, if_true, if_pos hlength]
  rfl

variable {p : RealParts}

theorem exponentPart_exponentText (hp : p.Sound) (hr : Follows r) :
    exponentPart (RealParts.exponentText p.exponent? ++ r)
      = (RealParts.exponentText p.exponent?, r) := by
  cases he : p.exponent? with
  | none => exact exponentPart_eq_nil (hr.forall_head (P := fun c => c ≠ 'e' ∧ c ≠ 'E') (by decide))
  | some e =>
    obtain ⟨hne, hds⟩ := hp.exponent e.1 e.2 he
    exact exponentPart_append e.1 hne hds hr.not_digit

theorem head_exponentText (e : Option (Bool × List Char)) (hr : Follows r) :
    ∀ c ∈ (RealParts.exponentText e ++ r).head?, c.isDigit = false ∧ c ≠ '.' := by
  cases e with
  | none => exact hr.forall_head (P := fun c => c.isDigit = false ∧ c ≠ '.') (by decide)
  | some e =>
    rintro c ⟨⟩
    decide

theorem fractionPart_fractionText (hp : p.Sound) (hr : Follows r) :
    fractionPart (RealParts.fractionText p.fraction ++ (RealParts.exponentText p.exponent? ++ r))
      = (RealParts.fractionText p.fraction, RealParts.exponentText p.exponent? ++ r) := by
  have hhead := head_exponentText p.exponent? hr
  unfold RealParts.fractionText
  split
  · exact fractionPart_eq_nil fun c hc => (hhead c hc).2
  · next hne => exact fractionPart_append hne hp.fraction fun c hc => (hhead c hc).1

/-- **The text of a real is read as the real that its parts say.** -/
theorem number_text (negative : Bool) (hp : p.Sound) (hr : Follows r) :
    number (signText negative ++ (p.text ++ r))
      = .ok (.real (ofDecimal negative p.mantissa p.power), r) := by
  have hread := hp.readUnsigned_text negative
  have hhead : ∀ c ∈ (RealParts.fractionText p.fraction
      ++ (RealParts.exponentText p.exponent? ++ r)).head?, c.isDigit = false := by
    unfold RealParts.fractionText
    split
    · exact fun c hc => (head_exponentText p.exponent? hr c hc).1
    · rintro c ⟨⟩
      rfl
  have hreal : ((RealParts.fractionText p.fraction).isEmpty
      && (RealParts.exponentText p.exponent?).isEmpty) = false := by
    rcases hp.real with hfraction | hexponent
    · rw [RealParts.fractionText, if_neg hfraction]
      rfl
    · obtain ⟨e, he⟩ := Option.isSome_iff_exists.1 hexponent
      rw [he, Bool.and_eq_false_iff]
      exact .inr rfl
  rw [RealParts.text, List.append_assoc, List.append_assoc]
  unfold number
  rw [splitMinus_append negative hp.whole_ne hp.whole]
  dsimp only
  rw [wholePart_append hp.whole_ne hp.whole hp.leading hhead, List.drop_left,
    fractionPart_fractionText hp hr]
  dsimp only
  rw [exponentPart_exponentText hp hr, if_neg (by simpa using hp.whole_ne), hreal,
    List.append_assoc]
  rw [RealParts.text] at hread
  dsimp only
  rw [hread]
  rfl

theorem plain_eq_number (negative : Bool) {c : Char} (hc : c.isDigit = true) (cs : List Char) :
    plain (signText negative ++ c :: cs) = number (signText negative ++ c :: cs) := by
  have hne {d : Char} (hd : d.isDigit = false) : c ≠ d := by
    rintro rfl
    rw [hc] at hd
    cases hd
  cases negative with
  | true =>
    show plain ('-' :: c :: cs) = number ('-' :: c :: cs)
    rw [plain]
    -- only the name of negative infinity begins with a minus
    iterate 5 exact fun _ h => absurd (List.cons.inj h).1 (by decide)
    exact fun _ h => hne rfl (List.cons.inj (List.cons.inj h).2).1
  | false =>
    show plain (c :: cs) = number (c :: cs)
    rw [plain]
    all_goals exact fun _ h => hne rfl (List.cons.inj h).1

/-- **The text of an integer is read as the integer.** -/
theorem plain_int {n : Int} (h : isPrintable n = true) (hr : Follows r) :
    plain ((toString n).toList ++ r) = .ok (.int n, r) := by
  have hdigits := all_isDigit_toDigits n.natAbs
  have hzero : (Nat.toDigits 10 n.natAbs).head? = some '0' → Nat.toDigits 10 n.natAbs = ['0'] := by
    intro hhead
    obtain ⟨ds, hds⟩ := List.head?_eq_some_iff.1 hhead
    rw [hds, (toDigits_zero hds).1]
  have hnumber := number_digits (n < 0) Nat.toDigits_ne_nil hdigits hzero
    (length_toDigits_of_isPrintable h) hr
  rw [show digitsValue (Nat.toDigits 10 n.natAbs) = n.natAbs from ofDigits_toDigits _,
    signed_natAbs] at hnumber
  rw [toList_toString, List.append_assoc, ← hnumber]
  cases hds : Nat.toDigits 10 n.natAbs with
  | nil => exact absurd hds Nat.toDigits_ne_nil
  | cons c cs => exact plain_eq_number _ (hdigits c (hds ▸ List.mem_cons_self)) _

/-- **The text of a real is read as the real**, whether it is a number or
not. -/
theorem plain_real (x : Float) (hr : Follows r) :
    plain ((realText x).toList ++ r) = .ok (.real x, r) := by
  unfold realText
  cases hx : magnitude x with
  | nan =>
    rw [eq_nan hx]
    rfl
  | infinite =>
    rw [eq_infinity hx]
    dsimp only
    split
    · rfl
    · rfl
  | finite m q =>
    have hfinite : isFinite x = true := by rw [isFinite, hx]
    obtain ⟨p, htext, hp, hvalue⟩ := realText_parts hfinite
    have hnumber := number_text (isNegative x) hp hr
    rw [hvalue] at hnumber
    dsimp only
    rw [htext, String.toList_ofList, List.append_assoc, ← hnumber]
    cases hwhole : p.whole with
    | nil => exact absurd hwhole hp.whole_ne
    | cons c cs =>
      rw [RealParts.text, hwhole]
      exact plain_eq_number _ (hp.whole c (hwhole ▸ List.mem_cons_self)) _

end Numbers

/-! ## Strings -/

section Strings

variable {done r : List Char}

theorem stringRest_control {n : Nat} (hn : n < 32) :
    stringRest done none ('\\' :: 'u' :: (Text.hexPadded 4 n ++ r))
      = stringRest (Char.ofNat n :: done) none r := by
  interval_cases n <;> rfl

/-- The characters that are written as a backslash with a letter. -/
def shortEscapes : List (Char × Char) :=
  [('"', '"'), ('\\', '\\'), ('\n', 'n'), ('\r', 'r'), ('\t', 't'), ('\x08', 'b'), ('\x0c', 'f')]

/-- **The ways to write a character**: by a short escape, by its number, or
as it is. -/
theorem escape_cases (c : Char) :
    (∃ d, (c, d) ∈ shortEscapes ∧ escape c = ['\\', d])
      ∨ (c.toNat < 0x20 ∧ escape c = '\\' :: 'u' :: Text.hexPadded 4 c.toNat)
      ∨ ((∀ e ∈ shortEscapes, c ≠ e.1) ∧ ¬ c.toNat < 0x20 ∧ escape c = [c]) := by
  by_cases hshort : ∃ e ∈ shortEscapes, c = e.1
  · obtain ⟨⟨_, d⟩, he, rfl⟩ := hshort
    have hshorts : ∀ e ∈ shortEscapes, escape e.1 = ['\\', e.2] := by decide
    exact .inl ⟨d, he, hshorts _ he⟩
  · have hne : ∀ e ∈ shortEscapes, c ≠ e.1 := fun e he h => hshort ⟨e, he, h⟩
    have hlong : escape c
        = if c.toNat < 0x20 then '\\' :: 'u' :: Text.hexPadded 4 c.toNat else [c] := by
      have hne' := hne
      simp only [shortEscapes, List.forall_mem_cons] at hne'
      obtain ⟨h₁, h₂, h₃, h₄, h₅, h₆, h₇, -⟩ := hne'
      rw [escape, if_neg h₁, if_neg h₂, if_neg h₃, if_neg h₄, if_neg h₅, if_neg h₆, if_neg h₇]
    by_cases hcontrol : c.toNat < 0x20
    · exact .inr (.inl ⟨hcontrol, by rw [hlong, if_pos hcontrol]⟩)
    · exact .inr (.inr ⟨hne, hcontrol, by rw [hlong, if_neg hcontrol]⟩)

/-- **A character is read from the way it is written.** -/
theorem stringRest_escape (c : Char) :
    stringRest done none (escape c ++ r) = stringRest (c :: done) none r := by
  rcases escape_cases c with ⟨d, hd, hescape⟩ | ⟨hcontrol, hescape⟩ | ⟨hshort, hcontrol, hescape⟩
  · have hread : ∀ e ∈ shortEscapes,
        stringRest done none (['\\', e.2] ++ r) = stringRest (e.1 :: done) none r := by
      simp only [shortEscapes, List.forall_mem_cons]
      exact ⟨rfl, rfl, rfl, rfl, rfl, rfl, rfl, List.forall_mem_nil _⟩
    rw [hescape]
    exact hread _ hd
  · have hread := @stringRest_control done r _ hcontrol
    rw [Char.ofNat_toNat] at hread
    rw [hescape]
    exact hread
  · have hquote : c ≠ '"' := hshort ('"', '"') (by decide)
    have hslash : c ≠ '\\' := hshort ('\\', '\\') (by decide)
    rw [hescape]
    show stringRest done none (c :: r) = _
    rw [stringRest, if_neg (by simp [hcontrol, hslash])]
    · rfl
    · exact hquote
    · exact fun _ _ _ _ _ h _ => hslash h
    · exact fun _ _ h _ => hslash h

/-- **A string is read from between its quotes.** -/
theorem stringRest_flatMap (cs : List Char) :
    stringRest done none (cs.flatMap escape ++ '"' :: r)
      = .ok (String.ofList (done.reverse ++ cs), r) := by
  induction cs generalizing done with
  | nil =>
    rw [List.flatMap_nil, List.append_nil]
    rfl
  | cons c cs ih =>
    rw [List.flatMap_cons, List.append_assoc, stringRest_escape, ih, List.reverse_cons,
      List.append_assoc]
    rfl

end Strings

/-! ## Characters of a value -/

mutual

/-- **The characters of a value** at the given level. -/
def chars (l : Layout) (level : Nat) : Json → List Char
  | null => ['n', 'u', 'l', 'l']
  | bool true => ['t', 'r', 'u', 'e']
  | bool false => ['f', 'a', 'l', 's', 'e']
  | int n => (toString n).toList
  | real x => (realText x).toList
  | str s => (stringText s).toList
  | arr [] => ['[', ']']
  | arr (item :: rest) =>
    '[' :: ((l.lead (level + 1)).toList ++ (chars l (level + 1) item
      ++ (itemChars l (level + 1) rest ++ ((l.lead level).toList ++ [']']))))
  | obj [] => ['\x7b', '\x7d']
  | obj ((key, item) :: rest) =>
    '\x7b' :: ((l.lead (level + 1)).toList ++ ((stringText key).toList ++ ':' :: ' '
      :: (chars l (level + 1) item ++ (memberChars l (level + 1) rest
      ++ ((l.lead level).toList ++ ['\x7d'])))))

/-- The characters of the items of an array after the first. -/
def itemChars (l : Layout) (level : Nat) : List Json → List Char
  | [] => []
  | item :: rest =>
    l.comma.toList ++ ((l.lead level).toList ++ (chars l level item ++ itemChars l level rest))

/-- The characters of the members of an object after the first. -/
def memberChars (l : Layout) (level : Nat) : List (String × Json) → List Char
  | [] => []
  | (key, item) :: rest =>
    l.comma.toList ++ ((l.lead level).toList ++ ((stringText key).toList ++ ':' :: ' '
      :: (chars l level item ++ memberChars l level rest)))

end

section Writing

variable (l : Layout)

mutual

/-- **Writing appends the characters of a value.** -/
theorem toList_write (level : Nat) (j : Json) (out : String) :
    (write l level j out).toList = out.toList ++ chars l level j := by
  match j with
  | null => simp [write, chars]
  | bool true => simp [write, chars]
  | bool false => simp [write, chars]
  | int n => simp [write, chars]
  | real x => simp [write, chars]
  | str s => simp [write, chars]
  | arr [] => simp [write, chars]
  | arr (item :: rest) => simp [write, chars, toList_write, toList_writeItems]
  | obj [] => simp [write, chars]
  | obj ((key, item) :: rest) => simp [write, chars, toList_write, toList_writeMembers]

theorem toList_writeItems (level : Nat) (items : List Json) (out : String) :
    (writeItems l level items out).toList = out.toList ++ itemChars l level items := by
  match items with
  | [] => simp [writeItems, itemChars]
  | item :: rest => simp [writeItems, itemChars, toList_write, toList_writeItems]

theorem toList_writeMembers (level : Nat) (members : List (String × Json)) (out : String) :
    (writeMembers l level members out).toList = out.toList ++ memberChars l level members := by
  match members with
  | [] => simp [writeMembers, memberChars]
  | (key, item) :: rest => simp [writeMembers, memberChars, toList_write, toList_writeMembers]

end

end Writing

theorem toList_render (l : Layout) (j : Json) : (render l j).toList = chars l 0 j := by
  rw [render, toList_write]
  rfl

/-! ## Blanks -/

/-- The characters that may stand between items. -/
def isBlank (c : Char) : Bool := c == ' ' || c == '\t' || c == '\n' || c == '\r'

theorem skipBlanks_append {bs : List Char} (h : ∀ c ∈ bs, isBlank c = true) (cs : List Char) :
    skipBlanks (bs ++ cs) = skipBlanks cs := List.dropWhile_append_of_pos h

theorem skipBlanks_cons {c : Char} (h : isBlank c = false) (cs : List Char) :
    skipBlanks (c :: cs) = c :: cs := List.dropWhile_cons_of_neg (Bool.eq_false_iff.1 h)

namespace Layout

variable (l : Layout)

theorem isBlank_lead (level : Nat) : ∀ c ∈ (l.lead level).toList, isBlank c = true := by
  intro c hc
  cases l with
  | line => simp [lead] at hc
  | indented step =>
    rw [lead, String.toList_ofList] at hc
    rcases List.mem_cons.1 hc with rfl | hc
    · rfl
    · rw [List.eq_of_mem_replicate hc]
      rfl

theorem comma_eq : ∃ gap, l.comma.toList = ',' :: gap ∧ ∀ c ∈ gap, isBlank c = true := by
  cases l with
  | line => exact ⟨[' '], by simp [comma], by simp [isBlank]⟩
  | indented step => exact ⟨[], by simp [comma], by simp⟩

/-- What closes a container may follow its last item. -/
theorem follows_lead (level : Nat) {c : Char} (hc : c ∈ closers) (r : List Char) :
    Follows ((l.lead level).toList ++ c :: r) := by
  cases l with
  | line => exact .cons hc r
  | indented step =>
    rw [lead, String.toList_ofList]
    exact .cons (by decide) _

end Layout

/-! ## Reading -/

section Reading

variable {l : Layout} {level : Nat}

/-- **What was written for a value is read as the value**, and the rest is
left. -/
def Reads (l : Layout) (level : Nat) (j : Json) : Prop :=
  ∀ r fuel, Follows r → (chars l level j).length < fuel →
    value fuel (chars l level j ++ r) = .ok (j, r)

/-- Whether a character can stand in a value that is no container and no
string. -/
def isPlainChar (c : Char) : Bool :=
  !isBlank c && c != '"' && c != '[' && c != ']' && c != '\x7b'

/-- Characters that can be such a value. -/
def IsPlain (cs : List Char) : Prop := cs ≠ [] ∧ ∀ c ∈ cs, isPlainChar c = true

theorem IsPlain.eq_cons {cs : List Char} (h : IsPlain cs) :
    ∃ c cs', cs = c :: cs' ∧ isPlainChar c = true := by
  obtain ⟨c, cs', rfl⟩ := List.exists_cons_of_ne_nil h.1
  exact ⟨c, cs', rfl, h.2 c List.mem_cons_self⟩

theorem isPlain_of_isRealChar {cs : List Char} (hne : cs ≠ [])
    (h : ∀ c ∈ cs, RealParts.isRealChar c = true) : IsPlain cs :=
  ⟨hne, fun c hc =>
    RealParts.forall_isRealChar (P := fun c => isPlainChar c = true) (by decide) (h c hc)⟩

theorem isPlain_toString (n : Int) : IsPlain (toString n).toList := by
  rw [toList_toString]
  refine isPlain_of_isRealChar (by simp [Nat.toDigits_ne_nil]) (List.forall_mem_append.2
    ⟨RealParts.isRealChar_signText _, fun c hc => ?_⟩)
  exact RealParts.isRealChar_of_isDigit (all_isDigit_toDigits _ c hc)

theorem isPlain_realText (x : Float) : IsPlain (realText x).toList := by
  unfold realText
  cases hx : magnitude x with
  | nan => simp [IsPlain, isPlainChar, isBlank]
  | infinite =>
    dsimp only
    split
    · simp [IsPlain, isPlainChar, isBlank]
    · simp [IsPlain, isPlainChar, isBlank]
  | finite m q =>
    have hfinite : isFinite x = true := by rw [isFinite, hx]
    obtain ⟨p, htext, hp, -⟩ := realText_parts hfinite
    dsimp only
    rw [htext, String.toList_ofList]
    refine isPlain_of_isRealChar (by simp [RealParts.text, hp.whole_ne])
      (List.forall_mem_append.2 ⟨RealParts.isRealChar_signText _, fun c hc => ?_⟩)
    exact hp.isRealChar_of_mem hc

theorem toList_stringText (s : String) :
    (stringText s).toList = '"' :: (s.toList.flatMap escape ++ ['"']) := by
  rw [stringText, String.toList_ofList]
  rfl

/-- No value begins with a blank or with the end of an array. -/
theorem chars_eq_cons (l : Layout) (level : Nat) (j : Json) :
    ∃ c cs, chars l level j = c :: cs ∧ isBlank c = false ∧ c ≠ ']' := by
  have hplain {c : Char} (h : isPlainChar c = true) : isBlank c = false ∧ c ≠ ']' := by
    simp only [isPlainChar, Bool.and_eq_true, Bool.not_eq_true', bne_iff_ne] at h
    exact ⟨h.1.1.1.1, h.1.2⟩
  match j with
  | null => exact ⟨'n', _, by rw [chars], by decide⟩
  | bool true => exact ⟨'t', _, by rw [chars], by decide⟩
  | bool false => exact ⟨'f', _, by rw [chars], by decide⟩
  | int n =>
    obtain ⟨c, cs, heq, hc⟩ := (isPlain_toString n).eq_cons
    exact ⟨c, cs, by rw [chars, heq], hplain hc⟩
  | real x =>
    obtain ⟨c, cs, heq, hc⟩ := (isPlain_realText x).eq_cons
    exact ⟨c, cs, by rw [chars, heq], hplain hc⟩
  | str s => exact ⟨'"', _, by rw [chars, toList_stringText], by decide⟩
  | arr [] => exact ⟨'[', _, by rw [chars], by decide⟩
  | arr (item :: rest) => exact ⟨'[', _, by rw [chars], by decide⟩
  | obj [] => exact ⟨'\x7b', _, by rw [chars], by decide⟩
  | obj ((key, item) :: rest) => exact ⟨'\x7b', _, by rw [chars], by decide⟩

theorem skipBlanks_chars (l : Layout) (level : Nat) (j : Json) (r : List Char) :
    skipBlanks (chars l level j ++ r) = chars l level j ++ r := by
  obtain ⟨c, cs, hchars, hc, -⟩ := chars_eq_cons l level j
  rw [hchars]
  exact skipBlanks_cons hc (cs ++ r)

theorem skipBlanks_stringText (s : String) (r : List Char) :
    skipBlanks ((stringText s).toList ++ r) = (stringText s).toList ++ r := by
  rw [toList_stringText]
  exact skipBlanks_cons (by decide) _

/-- One item of an array, and what comes after it. -/
theorem arrayItems_item {item : Json} (hitem : Reads l level item) {rest r : List Char}
    (hrest : Follows rest) {fuel : Nat} (hfuel : (chars l level item).length < fuel) :
    (skipBlanks rest = ']' :: r →
        arrayItems (fuel + 1) (chars l level item ++ rest) = .ok ([item], r))
      ∧ (skipBlanks rest = ',' :: r → ∀ items r', arrayItems fuel (skipBlanks r) = .ok (items, r') →
        arrayItems (fuel + 1) (chars l level item ++ rest) = .ok (item :: items, r')) := by
  rw [arrayItems, hitem rest fuel hrest hfuel, ok_bind]
  dsimp only
  refine ⟨fun hr => ?_, fun hr items r' hitems => ?_⟩
  · rw [hr]
    rfl
  · rw [hr]
    show (arrayItems fuel (skipBlanks r) >>= _) = _
    rw [hitems]
    rfl

theorem arrayItems_append (outer : Nat) {item : Json} (hitem : Reads l level item)
    {rest : List Json} (hrest : ∀ j ∈ rest, Reads l level j) {r : List Char} {fuel : Nat}
    (hfuel : (chars l level item ++ itemChars l level rest).length + 1 < fuel) :
    arrayItems fuel (chars l level item
      ++ (itemChars l level rest ++ ((l.lead outer).toList ++ ']' :: r)))
      = .ok (item :: rest, r) := by
  obtain ⟨fuel, rfl⟩ := Nat.exists_eq_add_of_lt (Nat.zero_lt_of_lt hfuel)
  rw [Nat.zero_add] at hfuel ⊢
  rw [List.length_append] at hfuel
  induction rest generalizing item fuel with
  | nil =>
    rw [itemChars, List.nil_append]
    refine (arrayItems_item hitem (l.follows_lead outer (by decide) r) (by omega)).1 ?_
    rw [skipBlanks_append (l.isBlank_lead outer), skipBlanks_cons (by decide)]
  | cons next rest ih =>
    obtain ⟨hnext, hrest⟩ := List.forall_mem_cons.1 hrest
    obtain ⟨gap, hcomma, hgap⟩ := l.comma_eq
    have hlong : 1 ≤ (chars l level item).length := by
      obtain ⟨d, ds, hds, -⟩ := chars_eq_cons l level item
      rw [hds, List.length_cons]
      omega
    simp only [itemChars, hcomma, List.cons_append, List.length_append, List.length_cons] at hfuel
    -- the comma alone pays for the step to the next item
    obtain ⟨fuel, rfl⟩ : ∃ k, fuel = k + 1 := ⟨fuel - 1, by omega⟩
    rw [itemChars, hcomma, List.cons_append, List.cons_append]
    refine (arrayItems_item hitem (.cons (by decide) _) (by omega)).2
      (skipBlanks_cons (by decide) _) (next :: rest) r ?_
    rw [List.append_assoc, skipBlanks_append hgap, List.append_assoc,
      skipBlanks_append (l.isBlank_lead level), List.append_assoc, skipBlanks_chars]
    exact ih hnext hrest fuel (by omega)

theorem insertMember_of_notMem {key : String} {done : List (String × Json)} (item : Json)
    (h : key ∉ done.map Prod.fst) : insertMember key item done = done ++ [(key, item)] := by
  induction done with
  | nil => rfl
  | cons m done ih =>
    rw [List.map_cons, List.mem_cons, not_or] at h
    rw [insertMember, if_neg (Ne.symm h.1), ih h.2]
    rfl

/-- One member of an object, whose key is new, and what comes after it. -/
theorem objectMembers_member {done more : List (String × Json)} {key : String} {item : Json}
    (hitem : Reads l level item) (hkeys : ((done ++ (key, item) :: more).map Prod.fst).Nodup)
    {rest r : List Char} (hrest : Follows rest) {fuel : Nat}
    (hfuel : (chars l level item).length < fuel) :
    (skipBlanks rest = '\x7d' :: r →
        objectMembers (fuel + 1) done
          ((stringText key).toList ++ ':' :: ' ' :: (chars l level item ++ rest))
          = .ok (done ++ [(key, item)], r))
      ∧ (skipBlanks rest = ',' :: r →
        objectMembers (fuel + 1) done
          ((stringText key).toList ++ ':' :: ' ' :: (chars l level item ++ rest))
          = objectMembers fuel (done ++ [(key, item)]) (skipBlanks r)) := by
  have hnew : key ∉ done.map Prod.fst := by
    rw [List.map_append, List.nodup_append] at hkeys
    exact fun h => hkeys.2.2 key h key List.mem_cons_self rfl
  have hvalue :
      value fuel (skipBlanks (' ' :: (chars l level item ++ rest))) = .ok (item, rest) := by
    show value fuel (skipBlanks (_ ++ _)) = _
    rw [skipBlanks_chars, hitem rest fuel hrest hfuel]
  rw [toList_stringText, List.cons_append, List.append_assoc, List.singleton_append, objectMembers,
    stringRest_flatMap, ok_bind]
  dsimp only
  rw [skipBlanks_cons (by decide)]
  show (_ → (value fuel (skipBlanks _) >>= _) = _) ∧ (_ → (value fuel (skipBlanks _) >>= _) = _)
  rw [hvalue, ok_bind, List.reverse_nil, List.nil_append, String.ofList_toList]
  dsimp only
  rw [insertMember_of_notMem item hnew]
  refine ⟨fun hr => ?_, fun hr => ?_⟩
  · rw [hr]
    rfl
  · rw [hr]
    rfl

theorem objectMembers_append (outer : Nat) {done : List (String × Json)} {key : String}
    {item : Json}
    (hitem : Reads l level item) {rest : List (String × Json)}
    (hrest : ∀ m ∈ rest, Reads l level m.2)
    (hkeys : ((done ++ (key, item) :: rest).map Prod.fst).Nodup) {r : List Char} {fuel : Nat}
    (hfuel : (chars l level item ++ memberChars l level rest).length + 1 < fuel) :
    objectMembers fuel done ((stringText key).toList ++ ':' :: ' ' :: (chars l level item
      ++ (memberChars l level rest ++ ((l.lead outer).toList ++ '\x7d' :: r))))
      = .ok (done ++ (key, item) :: rest, r) := by
  obtain ⟨fuel, rfl⟩ := Nat.exists_eq_add_of_lt (Nat.zero_lt_of_lt hfuel)
  rw [Nat.zero_add] at hfuel ⊢
  rw [List.length_append] at hfuel
  induction rest generalizing done key item fuel with
  | nil =>
    rw [memberChars, List.nil_append]
    refine (objectMembers_member hitem hkeys (l.follows_lead outer (by decide) r) (by omega)).1 ?_
    rw [skipBlanks_append (l.isBlank_lead outer), skipBlanks_cons (by decide)]
  | cons next rest ih =>
    obtain ⟨hnext, hrest⟩ := List.forall_mem_cons.1 hrest
    obtain ⟨gap, hcomma, hgap⟩ := l.comma_eq
    simp only [memberChars, hcomma, List.cons_append, List.length_append, List.length_cons] at hfuel
    obtain ⟨fuel, rfl⟩ : ∃ k, fuel = k + 1 := ⟨fuel - 1, by omega⟩
    have hkeys' : ((done ++ [(key, item)] ++ next :: rest).map Prod.fst).Nodup := by
      rw [List.append_assoc]
      exact hkeys
    have htail := ih hnext hrest hkeys' fuel (by omega)
    rw [memberChars, hcomma, List.cons_append, List.cons_append]
    refine ((objectMembers_member hitem hkeys (.cons (by decide) _) (by omega)).2
      (skipBlanks_cons (by decide) _)).trans ?_
    rw [List.append_assoc, skipBlanks_append hgap, List.append_assoc,
      skipBlanks_append (l.isBlank_lead level), List.append_assoc, skipBlanks_stringText,
      List.cons_append, List.cons_append, List.append_assoc, htail, List.append_assoc,
      List.singleton_append]

theorem value_plain {c : Char} (hc : isPlainChar c = true) (cs : List Char) (fuel : Nat) :
    value (fuel + 1) (c :: cs) = plain (c :: cs) := by
  simp only [isPlainChar, Bool.and_eq_true, Bool.not_eq_true', bne_iff_ne] at hc
  rw [value]
  · exact fun _ h => hc.1.1.1.2 (List.cons.inj h).1
  · exact fun _ h => hc.1.1.2 (List.cons.inj h).1
  · exact fun _ h => hc.2 (List.cons.inj h).1

theorem reads_plain {j : Json} (hchars : IsPlain (chars l level j))
    (hplain : ∀ r, Follows r → plain (chars l level j ++ r) = .ok (j, r)) : Reads l level j := by
  intro r fuel hr hfuel
  obtain ⟨c, cs, heq, hc⟩ := hchars.eq_cons
  obtain ⟨fuel, rfl⟩ : ∃ k, fuel = k + 1 := ⟨fuel - 1, by omega⟩
  rw [← hplain r hr, heq]
  exact value_plain hc (cs ++ r) fuel

theorem reads_str (s : String) : Reads l level (str s) := by
  intro r fuel hr hfuel
  obtain ⟨fuel, rfl⟩ : ∃ k, fuel = k + 1 := ⟨fuel - 1, by omega⟩
  rw [chars, toList_stringText, List.cons_append, List.append_assoc, List.singleton_append, value,
    stringRest_flatMap]
  simp

theorem reads_arr {items : List Json} (h : ∀ j ∈ items, Reads l (level + 1) j) :
    Reads l level (arr items) := by
  intro r fuel hr hfuel
  obtain ⟨fuel, rfl⟩ : ∃ k, fuel = k + 1 := ⟨fuel - 1, by omega⟩
  cases items with
  | nil => rfl
  | cons item rest =>
    obtain ⟨hitem, hrest⟩ := List.forall_mem_cons.1 h
    obtain ⟨c, cs, heq, hblank, hclose⟩ := chars_eq_cons l (level + 1) item
    simp only [chars, List.length_cons, List.length_append] at hfuel
    have hlength :
        (chars l (level + 1) item ++ itemChars l (level + 1) rest).length + 1 < fuel := by
      rw [List.length_append]
      omega
    have hitems := @arrayItems_append l (level + 1) level item hitem rest hrest r fuel hlength
    simp only [chars, List.cons_append, List.append_assoc, List.nil_append]
    rw [value, skipBlanks_append (l.isBlank_lead _)]
    rw [heq, List.cons_append, ← List.cons_append] at hitems ⊢
    rw [List.cons_append, skipBlanks_cons hblank]
    rw [List.cons_append] at hitems
    split
    · next hcs => exact absurd (List.cons.inj hcs).1 hclose
    · rw [hitems]
      rfl

theorem reads_obj {members : List (String × Json)} (hkeys : (members.map Prod.fst).Nodup)
    (h : ∀ m ∈ members, Reads l (level + 1) m.2) : Reads l level (obj members) := by
  intro r fuel hr hfuel
  obtain ⟨fuel, rfl⟩ : ∃ k, fuel = k + 1 := ⟨fuel - 1, by omega⟩
  cases members with
  | nil => rfl
  | cons m rest =>
    obtain ⟨key, item⟩ := m
    rw [List.forall_mem_cons] at h
    obtain ⟨hitem, hrest⟩ := h
    dsimp only at hitem
    simp only [chars, List.length_cons, List.length_append] at hfuel
    have hlength :
        (chars l (level + 1) item ++ memberChars l (level + 1) rest).length + 1 < fuel := by
      rw [List.length_append]
      omega
    have hmembers := @objectMembers_append l (level + 1) level [] key item hitem rest hrest hkeys r
      fuel hlength
    simp only [chars, List.cons_append, List.append_assoc, List.nil_append]
    rw [value, skipBlanks_append (l.isBlank_lead _), skipBlanks_stringText]
    rw [toList_stringText, List.cons_append] at hmembers ⊢
    show (objectMembers fuel [] _ >>= _) = _
    rw [hmembers]
    rfl

end Reading

section Values

variable (l : Layout)

mutual

/-- **Every value is read from what was written for it.** -/
theorem reads (level : Nat) {j : Json} (h : j.isWritable = true) : Reads l level j := by
  cases j with
  | null => exact reads_plain (by simp [chars, IsPlain, isPlainChar, isBlank]) fun r _ => rfl
  | bool b =>
    cases b
    · exact reads_plain (by simp [chars, IsPlain, isPlainChar, isBlank]) fun r _ => rfl
    · exact reads_plain (by simp [chars, IsPlain, isPlainChar, isBlank]) fun r _ => rfl
  | int n =>
    rw [isWritable] at h
    refine reads_plain ?_ fun r hr => ?_
    · rw [chars]
      exact isPlain_toString n
    · rw [chars]
      exact plain_int h hr
  | real x =>
    refine reads_plain ?_ fun r hr => ?_
    · rw [chars]
      exact isPlain_realText x
    · rw [chars]
      exact plain_real x hr
  | str s => exact reads_str s
  | arr items =>
    rw [isWritable] at h
    exact reads_arr (reads_items (level + 1) h)
  | obj members =>
    rw [isWritable, Bool.and_eq_true, decide_eq_true_eq] at h
    exact reads_obj h.1 (reads_members (level + 1) h.2)

theorem reads_items (level : Nat) {items : List Json} (h : areWritable items = true) :
    ∀ j ∈ items, Reads l level j := by
  match items with
  | [] => exact List.forall_mem_nil _
  | item :: rest =>
    rw [areWritable, Bool.and_eq_true] at h
    exact List.forall_mem_cons.2 ⟨reads level h.1, reads_items level h.2⟩

theorem reads_members (level : Nat) {members : List (String × Json)}
    (h : membersAreWritable members = true) : ∀ m ∈ members, Reads l level m.2 := by
  match members with
  | [] => exact List.forall_mem_nil _
  | (key, item) :: rest =>
    rw [membersAreWritable, Bool.and_eq_true] at h
    exact List.forall_mem_cons.2 ⟨reads level h.1, reads_members level h.2⟩

end

end Values

/-- **What was written is read back.** -/
theorem parse_render (l : Layout) {j : Json} (h : j.isWritable = true) :
    parse (render l j) = .ok j := by
  have hread := reads l 0 h [] ((render l j).length + 1) .nil (by
    rw [← String.length_toList, toList_render]
    omega)
  have hblanks := skipBlanks_chars l 0 j []
  rw [List.append_nil] at hread hblanks
  rw [parse, toList_render, hblanks, hread, ok_bind]
  rfl

/-! ## Line ends -/

/-- No character is written as a carriage return. -/
theorem return_notMem_escape (c : Char) : '\r' ∉ escape c := by
  rcases escape_cases c with ⟨d, hd, hescape⟩ | ⟨hcontrol, hescape⟩ | ⟨hshort, -, hescape⟩
  · rw [hescape]
    have hletters : ∀ e ∈ shortEscapes, '\r' ∉ ['\\', e.2] := by decide
    exact hletters _ hd
  · rw [hescape]
    generalize c.toNat = n at hcontrol
    interval_cases n <;> decide
  · rw [hescape, List.mem_singleton]
    exact Ne.symm (hshort ('\r', 'r') (by decide))

theorem return_notMem_stringText (s : String) : '\r' ∉ (stringText s).toList := by
  simp [toList_stringText, return_notMem_escape]

theorem IsPlain.return_notMem {cs : List Char} (h : IsPlain cs) : '\r' ∉ cs :=
  fun hmem => absurd (h.2 _ hmem) (by decide)

theorem Layout.return_notMem_lead (l : Layout) (level : Nat) : '\r' ∉ (l.lead level).toList := by
  cases l <;> simp [lead]

theorem Layout.return_notMem_comma (l : Layout) : '\r' ∉ l.comma.toList := by
  cases l <;> simp [comma]

section Returns

variable (l : Layout)

mutual

/-- **A written value has no carriage return in it.** -/
theorem return_notMem_chars (level : Nat) (j : Json) : '\r' ∉ chars l level j := by
  match j with
  | null => simp [chars]
  | bool true => simp [chars]
  | bool false => simp [chars]
  | int n =>
    rw [chars]
    exact (isPlain_toString n).return_notMem
  | real x =>
    rw [chars]
    exact (isPlain_realText x).return_notMem
  | str s =>
    rw [chars]
    exact return_notMem_stringText s
  | arr [] => simp [chars]
  | arr (item :: rest) =>
    simp [chars, l.return_notMem_lead, return_notMem_chars (level + 1) item,
      return_notMem_itemChars (level + 1) rest]
  | obj [] => simp [chars]
  | obj ((key, item) :: rest) =>
    simp [chars, l.return_notMem_lead, return_notMem_stringText,
      return_notMem_chars (level + 1) item, return_notMem_memberChars (level + 1) rest]

theorem return_notMem_itemChars (level : Nat) (items : List Json) :
    '\r' ∉ itemChars l level items := by
  match items with
  | [] => simp [itemChars]
  | item :: rest =>
    simp [itemChars, l.return_notMem_lead, l.return_notMem_comma, return_notMem_chars level item,
      return_notMem_itemChars level rest]

theorem return_notMem_memberChars (level : Nat) (members : List (String × Json)) :
    '\r' ∉ memberChars l level members := by
  match members with
  | [] => simp [memberChars]
  | (key, item) :: rest =>
    simp [memberChars, l.return_notMem_lead, l.return_notMem_comma, return_notMem_stringText,
      return_notMem_chars level item, return_notMem_memberChars level rest]

end

end Returns

theorem unifiedChars_eq_self {cs : List Char} (h : '\r' ∉ cs) : Text.unifiedChars cs = cs := by
  fun_induction Text.unifiedChars cs with
  | case1 cs ih => exact absurd List.mem_cons_self h
  | case2 cs hcs ih => exact absurd List.mem_cons_self h
  | case3 c cs _ _ ih => rw [ih fun hmem => h (List.mem_cons_of_mem c hmem)]
  | case4 => rfl

/-- **Unifying line ends changes no written value.** -/
theorem unifyNewlines_render (l : Layout) (j : Json) :
    Text.unifyNewlines (render l j) = render l j := by
  rw [Text.unifyNewlines, toList_render, unifiedChars_eq_self (return_notMem_chars l 0 j),
    ← toList_render, String.ofList_toList]

end EmberLang.Json
