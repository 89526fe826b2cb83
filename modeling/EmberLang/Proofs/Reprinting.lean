import EmberLang.Host.Stock
import Mathlib
import EmberLang.Proofs.Accepted
import EmberLang.Proofs.AlikeLoading
import EmberLang.Proofs.Natives
import EmberLang.Proofs.RoundTrip

/-!
# Printing a program that was read

A program is read from a text and printed. The printed text is another
text: it has other blanks, other brackets and no comments. Does it still
say the same program? For this the tree must be one that its text tells
from all others, and not every tree that a text can hold is of that kind.

* A numeral that is too large for a real is infinity. It is printed as
  `inf`, and that is a name: what is read back is a variable, in a pattern
  one that fits everything. A negative one is printed as `-inf`, which is
  no text of a program at all.
* A constructor without fields can be called, to no avail. What is printed
  is the constructor with the arguments of the call as its fields.

`Node.isFaithful` excludes these two. `Node.reprinted_runsAlike` says that
this is exactly what has to be excluded for the same tree to be read back,
apart from positions, and that then both programs do the same on every host
that does not look at positions. `Node.isLegible` excludes only negative
infinity; it is what the printed text needs to be accepted. Last, a program
in which a numeral is too large does something else after it was printed
(`Node.reprinted_infinityProgram`).

Nesting is a matter of its own. Printing puts `begin` and `end` around a
binding in brackets, and so the printed text can be nested more deeply
than the first one. The levels that it takes are `Node.programDepth`.
-/

namespace EmberLang

/-! ## Hosts that ignore positions -/

/-- A function of the host that only looks at values ignores positions,
which are not seen in a value. -/
theorem Native.Onlooker.ignoresPositions {σ : Type} {n : Native σ} (h : n.Onlooker) :
    n.IgnoresPositions Eq := by
  rintro s _ args args' rfl hargs
  have hfaces : Value.faces args' = Value.faces args := by
    rw [← Value.faces_eraseAll args', hargs, Value.faces_eraseAll]
  rw [← h.faces s args', hfaces, h.faces]
  rcases h.ends s args with ⟨t, r, hrun⟩ | ⟨t, f, hrun⟩
  · rw [hrun]
    exact ⟨rfl, rfl⟩
  · rw [hrun]
    exact ⟨rfl, rfl⟩

/-- **The functions of the console ignore positions**: what they write
depends on the text of a value only. -/
theorem Desk.ignoresPositions_consoleNatives {n : Native Desk} (h : n ∈ consoleNatives) :
    n.IgnoresPositions Eq :=
  (onlooker_consoleNatives h).ignoresPositions

namespace Stock

theorem doubled_erase (v : Value) : doubled v.erase = doubled v := by
  cases v <;> rfl

theorem below_erase (v : Value) : below v.erase = below v := by
  cases v <;> rfl

theorem onFirst_alike {f : Value → Except HostFault HostResult} (hf : ∀ v, f v.erase = f v)
    (d : Desk) {args args' : List Value} (h : Value.eraseAll args' = Value.eraseAll args) :
    (onFirst d f args).Alike Eq (onFirst d f args') := by
  have herase (args : List Value) : onFirst d f (Value.eraseAll args) = onFirst d f args := by
    cases args with
    | nil => rfl
    | cons v vs => rw [Value.eraseAll, onFirst, onFirst, hf]
  rw [← herase args', h, herase]
  unfold onFirst
  split
  · exact ⟨rfl, rfl⟩
  · split <;> exact ⟨rfl, rfl⟩

theorem passOn_alike (d : Desk) {o o' : Except Failure Value} (h : Agree Value.Alike o o') :
    (passOn d o).Alike Eq (passOn d o') := by
  rcases h.fails_or_gives with ⟨f, f', rfl, rfl, hf⟩ | ⟨v, w, rfl, rfl, hvw⟩
  · exact ⟨rfl, hf⟩
  · exact ⟨rfl, congrArg HostResult.value hvw⟩

/-- **The simple functions ignore positions**, also the one that calls its
argument. -/
theorem ignoresPositions_native (kind : Stock) (name : String) (arity? : Option Nat) :
    (kind.native name arity?).IgnoresPositions Eq := by
  rintro d _ args args' rfl hargs
  show (run name kind d args).Alike Eq (run name kind d args')
  have hlength : args'.length = args.length := Value.length_eq_of_eraseAll hargs
  cases kind with
  | double => exact onFirst_alike doubled_erase d hargs
  | range => exact onFirst_alike below_erase d hargs
  | nargs => exact ⟨rfl, by rw [hlength]⟩
  | first =>
    cases args with
    | nil =>
      obtain rfl := List.length_eq_zero_iff.1 hlength
      exact ⟨rfl, rfl⟩
    | cons v vs =>
      cases args' with
      | nil => cases hlength
      | cons w ws => exact ⟨rfl, congrArg HostResult.value (List.cons.inj hargs).1⟩
  | apply =>
    cases args with
    | nil =>
      obtain rfl := List.length_eq_zero_iff.1 hlength
      exact ⟨rfl, rfl⟩
    | cons v vs =>
      cases args' with
      | nil => cases hlength
      | cons w ws =>
        obtain ⟨hv, hvs⟩ := List.cons.inj hargs
        refine ⟨rfl, hv, hvs, ?_⟩
        rintro t _ o o' rfl ho
        exact passOn_alike t ho
  | _ => exact ⟨rfl, rfl⟩

end Stock

/-! ## Running what was read back -/

/-- An interpreter whose functions ignore positions is alike to itself. -/
theorem Interpreter.Alike.refl {σ : Type} {R : σ → σ → Prop} {I : Interpreter σ}
    (hnatives : ∀ n ∈ I.natives, n.IgnoresPositions R) (hhost : R I.journal.host I.journal.host) :
    I.Alike R I where
  ignores := hnatives
  natives := rfl
  intrinsics := rfl
  detail := rfl
  maxDepth := rfl
  externs := rfl
  table := rfl
  caseTable := rfl
  cases := rfl
  globals := rfl
  journal := ⟨hhost, rfl, rfl, rfl⟩

namespace Node

/-- **Two programs that do the same.** Whatever the host does with the
values it is given, as long as it does not look at positions, and whatever
the interpreter is that runs them: the runs come to values that are alike
or to the same error apart from its position, with the same foreign calls,
the same trace, and related states of the host. -/
def RunsAlike (p q : Node) : Prop :=
  ∀ (σ : Type) (R : σ → σ → Prop) (I : Interpreter σ),
    (∀ n ∈ I.natives, n.IgnoresPositions R) → R I.journal.host I.journal.host →
      Agree Value.Alike (I.perform (Session.run p)).1 (I.perform (Session.run q)).1
        ∧ (I.perform (Session.run p)).2.journal.Alike R (I.perform (Session.run q)).2.journal

/-- **Programs that are alike do the same.** -/
theorem Alike.runsAlike {p q : Node} (h : p.Alike q) : p.RunsAlike q := by
  intro σ R I hnatives hhost
  let fresh : Interpreter σ :=
    { I with journal := { I.journal with observed := #[], trace := #[] } }
  have hfresh : fresh.Alike R fresh := .refl hnatives hhost
  obtain ⟨hI, houtcome⟩ := Session.run_matches h fresh fresh hfresh
  exact ⟨houtcome, hI.journal⟩

/-- **Printing a program that was read.** It always has a text. Given the
levels that the text takes, the text is accepted exactly if no literal is
negative infinity, and the program that it says is the same apart from
positions exactly if the program is faithful to its text. In that case both
programs do the same. -/
theorem reprinted_runsAlike {s : String} {frames frames' : Int} {p : Node}
    (h : ofSource s frames = .ok p) (hdepth : p.programDepth ≤ levelsOf frames') :
    ∃ text, p.programText = .ok text
      ∧ ((∃ q, ofSource text frames' = .ok q) ↔ p.isLegible = true)
      ∧ ((∃ q, ofSource text frames' = .ok q ∧ p.Alike q) ↔ p.isFaithful = true)
      ∧ (p.isFaithful = true → ∃ q, ofSource text frames' = .ok q ∧ p.RunsAlike q) := by
  obtain ⟨t, ht, hprogram⟩ := isProgram_of_ofSource h
  obtain ⟨text, htext, hlegible, hiff⟩ := ofSource_programText_iff hprogram ht hdepth
  refine ⟨text, htext, hlegible, hiff, fun hfaithful => ?_⟩
  obtain ⟨q, hq, halike⟩ := hiff.2 hfaithful
  exact ⟨q, hq, halike.runsAlike⟩

/-- A program that prints a real, which is bound in brackets. -/
def halfText : String := "begin extern print: fun(Real) -> (); in print((let x = 0.5; x)) end"

/-- The program that the text says. -/
def halfProgram : Node :=
  program (some ⟨1, 1⟩)
    [externDecl (some ⟨1, 7⟩) "print" [] [typeSpec (.mk "Real" [])] (typeSpec (.mk "()" []))]
    (call (some ⟨1, 41⟩) (var (some ⟨1, 41⟩) "print")
      [letIn (some ⟨1, 48⟩) "x" (literal (some ⟨1, 56⟩) (.real 0.5)) (var (some ⟨1, 61⟩) "x")
        absent])

theorem ofSource_halfText : ofSource halfText 1000 = .ok halfProgram := by
  refine @ofSource_of_tokens _ _ ?tokens halfProgram _ ?scanned ?read ?resolved
  case scanned =>
    cbv
    rfl
  case read => rfl
  case resolved =>
    unfold resolveProgram checkDeclarations scopes
    rw [walk_eq_preorder rfl]
    rfl

theorem reprinted_halfProgram :
    ofSource halfText 1000 = .ok halfProgram
      ∧ ∃ text q, halfProgram.programText = .ok text ∧ ofSource text 1000 = .ok q
        ∧ halfProgram.RunsAlike q := by
  obtain ⟨text, htext, -, -, hruns⟩ :=
    @reprinted_runsAlike halfText 1000 1000 halfProgram ofSource_halfText (by decide)
  obtain ⟨q, hq, halike⟩ := hruns (by decide)
  exact ⟨ofSource_halfText, text, q, htext, hq, halike⟩

/-! ## A numeral that is too large -/

/-- The program `begin in 1e400 end`, whose body is infinity. -/
def infinityProgram : Node :=
  program (some ⟨1, 1⟩) [] (literal (some ⟨1, 10⟩) (.real (.ofScientific 1 false 400)))

/-- The program that its text says, whose body is a variable. -/
def infProgram : Node := program (some ⟨1, 1⟩) [] (var (some ⟨3, 3⟩) "inf")

theorem ofSource_infinity : ofSource "begin in 1e400 end" 1000 = .ok infinityProgram := by
  refine @ofSource_of_tokens _ _ ?tokens infinityProgram _ ?scanned ?read ?resolved
  case scanned =>
    cbv
    rfl
  case read => rfl
  case resolved =>
    unfold resolveProgram checkDeclarations scopes
    rw [walk_eq_preorder rfl]
    rfl

theorem programText_infinityProgram :
    infinityProgram.programText = .ok "begin\nin\n  inf\nend\n" := by
  have hreal : Decimal.realText (.ofScientific 1 false 400) = "inf" := by decide +kernel
  show Except.ok
    (lines ["begin", "in", pad 1 ++ Decimal.realText (.ofScientific 1 false 400), "end"]
      ++ "\n") = _
  rw [hreal]
  rfl

theorem ofSource_inf : ofSource "begin\nin\n  inf\nend\n" 1000 = .ok infProgram := by
  refine @ofSource_of_tokens _ _ ?tokens infProgram _ ?scanned ?read ?resolved
  case scanned =>
    cbv
    rfl
  case read => rfl
  case resolved =>
    unfold resolveProgram checkDeclarations scopes
    rw [walk_eq_preorder rfl]
    rfl

/-- An interpreter for a host without functions. -/
def plainInterpreter : Interpreter Unit := { natives := [], journal := { host := () } }

theorem run_real (p q : Option Position) (x : Float) :
    (plainInterpreter.perform (Session.run (program p [] (literal q (.real x))))).1
      = .ok (.real x) := by
  cbv

theorem run_infProgram :
    (plainInterpreter.perform (Session.run infProgram)).1
      = .error (.of (.unboundVariable "inf") (some ⟨3, 3⟩)) := by
  decide +kernel

/-- **A program that printing changes.** It comes to infinity, and what is
read back after it was printed fails: the variable `inf` is not bound. -/
theorem reprinted_infinityProgram :
    ofSource "begin in 1e400 end" 1000 = .ok infinityProgram
      ∧ ∃ text q, infinityProgram.programText = .ok text ∧ ofSource text 1000 = .ok q
        ∧ (plainInterpreter.perform (Session.run infinityProgram)).1
          = .ok (.real (.ofScientific 1 false 400))
        ∧ (plainInterpreter.perform (Session.run q)).1
          = .error (.of (.unboundVariable "inf") (some ⟨3, 3⟩)) :=
  ⟨ofSource_infinity, _, infProgram, programText_infinityProgram, ofSource_inf, run_real _ _ _,
    run_infProgram⟩

end Node

end EmberLang
