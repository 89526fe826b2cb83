import EmberLang.Proofs.RealText
import Mathlib.Tactic.SplitIfs

/-!
# Literals read back

The text of a readable literal is one lexeme, and the lexeme reads as the
literal again. For integers and reals this is a fact on numerals. A
character is written between quotes, either as itself or, for the six
characters that have one, as an escape; the two tables of escapes, one
for writing and one for reading, undo each other
(`Literal.ofCharInner_charInner`).
-/

namespace EmberLang

/-! ## Characters -/

namespace Literal

/-- The texts that have an escape. -/
theorem ofEscape?_of_escapeOf? {s : String} {e : Char} (h : escapeOf? s = some e) :
    ofEscape? e = some s ∧ Scan.escapable.contains e = true := by
  unfold escapeOf? at h
  split_ifs at h with h1 h2 h3 h4 h5 h6 <;> obtain rfl := Option.some.inj h
  · exact ⟨by rw [h1]; rfl, by decide⟩
  · exact ⟨by rw [h2]; rfl, by decide⟩
  · exact ⟨by rw [h3]; rfl, by decide⟩
  · exact ⟨by rw [h4]; rfl, by decide⟩
  · exact ⟨by rw [h5]; rfl, by decide⟩
  · exact ⟨by rw [h6]; rfl, by decide⟩

theorem charText_eq (s : String) : charText s = (lexeme (char s)).text := by
  show charText s = "'" ++ charInner s ++ "'"
  unfold charText charInner
  cases escapeOf? s with
  | none => rfl
  | some e =>
    dsimp only
    rw [← String.toList_inj]
    simp

theorem toList_of_length_one {s : String} (h : s.length = 1) : ∃ c, s.toList = [c] := by
  refine List.length_eq_one_iff.1 ?_
  rw [String.length_toList]
  exact h

/-- **What is written between quotes stands for the character.** -/
theorem ofCharInner_charInner {s : String} (h : s.length = 1) :
    ofCharInner (charInner s) = char s := by
  unfold charInner
  cases hs : escapeOf? s with
  | some e =>
    dsimp only
    unfold ofCharInner
    rw [String.toList_ofList]
    show char ((ofEscape? e).getD _) = _
    rw [(ofEscape?_of_escapeOf? hs).1]
    rfl
  | none =>
    dsimp only
    obtain ⟨c, hc⟩ := toList_of_length_one h
    unfold ofCharInner
    rw [hc]
    split
    · next heq => cases heq
    · rfl

/-- A character without an escape is none of those that cannot stand
between quotes. -/
theorem ne_of_escapeOf?_eq_none {s : String} {c : Char} (h : escapeOf? s = none)
    (hc : s.toList = [c]) : c ≠ '\'' ∧ c ≠ '\\' ∧ c ≠ '\n' := by
  have hs : s = String.ofList [c] := by rw [← hc, String.ofList_toList]
  refine ⟨?_, ?_, ?_⟩ <;> rintro rfl <;> rw [hs] at h <;> revert h <;> decide

/-- **A character between quotes is one lexeme.** -/
theorem isProper_char {s : String} (h : s.length = 1) :
    (Lexeme.char (charInner s)).isProper = true := by
  have hscan : Scan.character ((charInner s).toList ++ ['\''])
      = some (.char (charInner s), []) := by
    unfold charInner
    cases hs : escapeOf? s with
    | some e =>
      dsimp only
      rw [String.toList_ofList]
      show Scan.character ['\\', e, '\''] = _
      rw [Scan.character, if_pos (ofEscape?_of_escapeOf? hs).2]
    | none =>
      dsimp only
      obtain ⟨c, hc⟩ := toList_of_length_one h
      obtain ⟨hquote, hslash, hline⟩ := ne_of_escapeOf?_eq_none hs hc
      rw [hc]
      show Scan.character [c, '\''] = _
      rw [Scan.character, if_neg (by simp [hquote, hslash, hline]), ← hc, String.ofList_toList]
      exact fun _ he _ => hslash he
  unfold Lexeme.isProper
  rw [show (Lexeme.char (charInner s)).text.toList = '\'' :: ((charInner s).toList ++ ['\'']) by
    simp [Lexeme.text]]
  rw [Scan.lexeme?, if_neg (by decide), if_neg (by decide), if_pos rfl, hscan]
  exact beq_self_eq_true _

/-! ## All literals -/

variable {v : Literal}

/-- The text of a readable literal is that of its lexeme. -/
theorem text_of_isReadable (h : v.isReadable = true) : v.text = .ok v.lexeme.text := by
  cases v with
  | int n =>
    have htext : (int n).text? = some (toString n) := by
      rw [isReadable] at h
      rw [text?, Decimal.intText?, if_pos h]
    unfold text
    rw [htext]
    rfl
  | real x => rfl
  | bool b => cases b <;> rfl
  | char s =>
    rw [← charText_eq]
    rfl

/-- **The text of a readable literal is one lexeme.** -/
theorem isProper_lexeme (h : v.isReadable = true) : v.lexeme.isProper = true := by
  cases v with
  | int n => exact Lexeme.isProper_int n
  | real x => exact Decimal.isProper_realText h
  | bool b => exact Lexeme.isProper_keyword _
  | char s => exact isProper_char (of_decide_eq_true h)

/-- **The lexeme of a readable literal reads as the literal.** -/
theorem literal?_lexeme (h : v.isReadable = true) : Parser.literal? v.lexeme = some (.ok v) := by
  cases v with
  | int n =>
    rw [lexeme, Parser.literal?, Decimal.readDigits_toString h]
  | real x =>
    show some (Except.ok (real ((Decimal.readReal (Decimal.realText x).toList).getD 0))) = _
    rw [Decimal.readReal_realText h]
    rfl
  | bool b => cases b <;> rfl
  | char s =>
    show some (Except.ok (ofCharInner (charInner s))) = _
    rw [ofCharInner_charInner (of_decide_eq_true h)]

/-- A readable literal spells its lexeme. -/
theorem spells_of_isReadable (h : v.isReadable = true) :
    ∃ s, v.text = .ok s ∧ Spells s [v.lexeme] :=
  ⟨v.lexeme.text, text_of_isReadable h, Spells.lexeme (isProper_lexeme h)⟩

end Literal

end EmberLang
