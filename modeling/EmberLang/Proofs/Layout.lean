import EmberLang.Proofs.CheckedCode
import EmberLang.Proofs.Numerals
import EmberLang.Proofs.Reprinting

/-!
# The layout of a program has no meaning

A tree carries the positions of its nodes, and so do the closures that are
made from it, the errors that it raises, and the failures that a host gets
to see when it calls a closure. They are there for messages only: two
programs that differ in nothing but positions cannot be told apart by what
is seen of their runs (`Session.run_seenAlike`), and the one can be loaded
if and only if the other can.

What is seen of a run is its value, where a closure shows its name and its
parameters, or the message of its error, the foreign calls, the trace, and
what the host has put out. Of a message the place is left out. This is done
on the text (`Error.withoutPlace`), which still has the kind and the wording
of the error.

The host must play its part: to treat a closure as a black box is not to
look at positions, neither in its body nor in the failures of its calls
(`Native.IgnoresPositions`). It may keep closures, and which of its states
correspond to each other is up to it.
-/

namespace EmberLang

/-! ## Messages without their place -/

namespace Error

/-- **A message without its place**: what stands between its first word and
the first colon is left out. -/
def withoutPlace (message : String) : String :=
  String.ofList
    (message.toList.takeWhile (fun c => c != ' ' && c != ':')
      ++ message.toList.dropWhile (· != ':'))

/-- The kind of an error is one word. -/
theorem isWordChar_kind (cause : Cause) :
    ∀ c ∈ cause.kind.toList, (c != ' ' && c != ':') = true := by
  rw [← List.all_eq_true]
  cases cause <;> simp only [Cause.kind] <;> decide +kernel

/-- There is no colon in a number. -/
theorem ne_colon_toString (n : Int) : ∀ c ∈ (toString n).toList, (c != ':') = true := by
  rw [Decimal.toList_toString]
  refine List.forall_mem_append.2 ⟨?_, fun c hc => ?_⟩
  · unfold Decimal.signText
    split <;> simp
  · rw [bne_iff_ne]
    rintro rfl
    exact absurd (Decimal.all_isDigit_toDigits _ _ hc) (by decide)

/-- There is no colon in a position. -/
theorem ne_colon_position (p : Position) : ∀ c ∈ p.text.toList, (c != ':') = true := by
  have htext : p.text.toList
      = "line ".toList ++ (toString p.line).toList ++ ", column ".toList
        ++ (toString p.column).toList := by
    simp only [Position.text, String.toList_append]
    rfl
  rw [htext]
  simp only [List.forall_mem_append]
  exact ⟨⟨⟨by simp, ne_colon_toString p.line⟩, by simp⟩, ne_colon_toString p.column⟩

/-- The place in a message, as it stands between the kind and the colon. -/
def placeText : Option Position → List Char
  | none => []
  | some p => " at ".toList ++ p.text.toList

/-- The parts of a message. -/
theorem toList_message (e : Error) :
    e.message.toList
      = e.cause.kind.toList ++ (placeText e.position ++ ':' :: ' ' :: e.cause.detail.toList) := by
  unfold message placeText
  cases e.position <;> simp [toString]

/-- **A message without its place** is that of the same error at no place. -/
theorem withoutPlace_message (e : Error) : withoutPlace e.message = message ⟨e.cause, none⟩ := by
  have hkind := isWordChar_kind e.cause
  have hcolon : ∀ c ∈ e.cause.kind.toList, (c != ':') = true := fun c hc =>
    (Bool.and_eq_true_iff.1 (hkind c hc)).2
  have hplace : ∀ c ∈ placeText e.position, (c != ':') = true := by
    cases e.position with
    | none => exact List.forall_mem_nil _
    | some p => exact List.forall_mem_append.2 ⟨by simp, ne_colon_position p⟩
  -- A place begins with a blank, and without one the colon follows.
  have hkept (rest : List Char) : (placeText e.position ++ ':' :: rest).takeWhile
      (fun c => c != ' ' && c != ':') = [] := by
    cases e.position <;> simp [placeText]
  unfold withoutPlace
  rw [toList_message, List.takeWhile_append_of_pos hkind, hkept, List.append_nil,
    List.dropWhile_append_of_pos hcolon, List.dropWhile_append_of_pos hplace,
    ← String.ofList_toList (s := message ⟨e.cause, none⟩), toList_message]
  rfl

end Error

/-! ## What is seen of two runs -/

/-- **Two outcomes look the same** but for places: values that show the same,
errors of one kind with the same message once the place is left out, or the
same failure of another sort. -/
inductive SameLook : Except Failure Value → Except Failure Value → Prop
  | value {v w : Value} (face : w.face = v.face) : SameLook (.ok v) (.ok w)
  | error {e e' : Error} (kind : e'.cause.kind = e.cause.kind)
      (message : Error.withoutPlace e'.message = Error.withoutPlace e.message) :
      SameLook (.error (.error e)) (.error (.error e'))
  | failure {f : Failure} : SameLook (.error f) (.error f)

/-- **Two runs look the same** to one who sees `output` of the host. -/
structure SeenAlike {σ τ : Type} (output : σ → τ)
    (r r' : Except Failure Value × Interpreter σ) : Prop where
  /-- Their outcomes look the same. -/
  outcome : SameLook r.1 r'.1
  /-- The same foreign calls were made, with arguments that show the same. -/
  effects : r'.2.journal.effects.map Effect.face = r.2.journal.effects.map Effect.face
  /-- The observer was told the same. -/
  observed : r'.2.journal.observed.map Effect.face = r.2.journal.observed.map Effect.face
  /-- The traces are the same. -/
  trace : r'.2.journal.trace = r.2.journal.trace
  /-- The host has put out the same. -/
  output : output r'.2.journal.host = output r.2.journal.host

theorem Effect.face_erase (e : Effect) : e.erase.face = e.face := by
  unfold face erase
  rw [Value.faces_eraseAll]

/-- Foreign calls that are alike show the same. -/
theorem Effect.map_face_eq {es es' : Array Effect} (h : es'.map erase = es.map erase) :
    es'.map face = es.map face := by
  have hface (es : Array Effect) : (es.map erase).map face = es.map face := by
    rw [Array.map_map]
    exact congrArg (es.map ·) (funext face_erase)
  rw [← hface es', h, hface]

/-- **Failures that are equal without positions** are the same, or errors
with the same cause. -/
theorem Failure.eq_or_cause_eq {f f' : Failure} (h : f'.erase = f.erase) :
    f' = f ∨ ∃ e e', f = .error e ∧ f' = .error e' ∧ e'.cause = e.cause := by
  cases f with
  | error e =>
    cases f' with
    | error e' => exact .inr ⟨e, e', rfl, rfl, (Error.mk.inj (Failure.error.inj h)).1⟩
    | _ => cases h
  | _ =>
    cases f' with
    | error e' => cases h
    | _ => exact .inl h

/-- Outcomes that agree look the same. -/
theorem Agree.sameLook {o o' : Except Failure Value} (h : Agree Value.Alike o o') :
    SameLook o o' := by
  rcases h.fails_or_gives with ⟨f, f', rfl, rfl, hf⟩ | ⟨v, w, rfl, rfl, hvw⟩
  · rcases Failure.eq_or_cause_eq hf with rfl | ⟨e, e', rfl, rfl, hcause⟩
    · exact .failure
    · refine .error (congrArg Cause.kind hcause) ?_
      rw [Error.withoutPlace_message, Error.withoutPlace_message, hcause]
  · refine .value ?_
    rw [← w.face_erase, hvw, v.face_erase]

/-! ## Programs that differ in positions -/

namespace Session

/-- **The layout of a program has no meaning.** Two programs that are equal
up to positions look the same when they run, on every host that ignores
positions, whatever the interpreter did before, how deeply calls may nest
and how detailed the trace is; and the one can be loaded if and only if the
other can. -/
theorem run_seenAlike {p q : Node} (h : p.Alike q) {σ τ : Type} {R : σ → σ → Prop}
    {output : σ → τ} (I : Interpreter σ) (hnatives : ∀ n ∈ I.natives, n.IgnoresPositions R)
    (hhost : R I.journal.host I.journal.host) (houtput : ∀ s s', R s s' → output s' = output s) :
    SeenAlike output (I.perform (run p)) (I.perform (run q))
      ∧ ((I.perform (load p)).1 = .ok () ↔ (I.perform (load q)).1 = .ok ()) := by
  constructor
  · obtain ⟨houtcome, hjournal⟩ := h.runsAlike σ R I hnatives hhost
    exact {
      outcome := houtcome.sameLook
      effects := Effect.map_face_eq hjournal.effects
      observed := Effect.map_face_eq hjournal.observed
      trace := hjournal.trace
      output := houtput _ _ hjournal.host }
  · let fresh : Interpreter σ :=
      { I with journal := { I.journal with observed := #[], trace := #[] } }
    have hfresh : fresh.Alike R fresh := .refl hnatives hhost
    have hload := (load_matches h fresh fresh hfresh).2
    show (ExceptT.run (load p) fresh).1 = .ok () ↔ (ExceptT.run (load q) fresh).1 = .ok ()
    rcases hload.fails_or_gives with ⟨f, f', hp, hq, -⟩ | ⟨_, _, hp, hq, -⟩
    · simp [hp, hq]
    · rw [hp, hq]

/-- An interpreter for a host with a console and a function that calls its
argument. -/
def deskInterpreter : Interpreter Desk where
  natives := Stock.apply.native "apply" (some 2) :: Desk.consoleNatives
  journal := { host := { console := { input := [] } } }

/-- A program that fails in a closure that the host has called, and the same
program without positions. -/
theorem run_failingProgram_seenAlike :
    failingProgram.Alike failingProgram.erase
      ∧ SeenAlike (·.console.output) (deskInterpreter.perform (run failingProgram))
          (deskInterpreter.perform (run failingProgram.erase))
      ∧ (deskInterpreter.perform (run failingProgram)).1
          = .error (.of (.divisionByZero "idiv") (some ⟨1, 63⟩))
      ∧ (deskInterpreter.perform (run failingProgram.erase)).1
          = .error (.of (.divisionByZero "idiv") none) := by
  have halike : failingProgram.Alike failingProgram.erase := failingProgram.erase_erase
  have hnatives : ∀ n ∈ deskInterpreter.natives, n.IgnoresPositions Eq :=
    List.forall_mem_cons.2 ⟨Stock.ignoresPositions_native .apply "apply" (some 2),
      fun _ hn => Desk.ignoresPositions_consoleNatives hn⟩
  refine ⟨halike, (run_seenAlike halike deskInterpreter hnatives rfl ?_).1, ?_, ?_⟩
  · rintro s _ rfl
    rfl
  · decide +kernel
  · decide +kernel

end Session

end EmberLang
