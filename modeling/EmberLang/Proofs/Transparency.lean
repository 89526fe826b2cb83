import EmberLang.Proofs.CheckedCode
import EmberLang.Proofs.Parallel
import EmberLang.Proofs.Parting

/-!
# Tracing is transparent

A run can be traced at several levels of detail, and nobody should have to
ask whether a program behaves the same when it is watched. It does: the
outcome of a run, its foreign calls and all that the host does are the same
at all levels, and the trace at a lower level is the trace at a higher
level without the lines of the levels in between.

Messages are worded in the middle of evaluation, so a wording that fails
ends the run. For a program that was read from a text there is one such
failure, an integer that is too long to be written; names are words, in
the program and in all values that it builds. This failure is one by which
two runs may part (`EmberLang.Proofs.Parting`).
-/

namespace EmberLang

variable {σ : Type}

/-! ## Code as it is written -/

/-- The vocabulary of all words. -/
def Node.Vocabulary.all : Node.Vocabulary where
  literal _ := true
  var _ := true
  construct _ := true
  bareCalls := true

/-- A program over some vocabulary is one over all words. -/
theorem Node.isProgram_all {V : Vocabulary} {root : Node} (h : root.isProgram V = true) :
    root.isProgram .all = true := by
  have hall : V.and .all = V := by
    cases V
    simp [Vocabulary.and, Vocabulary.all]
  have hand := isProgram_and (V := V) (W := .all) root
  rw [hall, h, Bool.true_and] at hand
  exact hand.symm

/-- **Code as it is written**: whatever expressions a text can have. -/
def asWritten : Discipline := expressions (fun _ => True) .all

/-- The messages about what is written fail to be worded only if an integer
is too long. -/
theorem Message.fails_text {m : Message} (h : m.Kept asWritten) :
    FailsOnly (· = .numeralTooLong) m.text := by
  have hworded : m.Worded := worded_of_kept (fun hc => hc) (fun hnames => hnames) h
  exact FailsOnly.mono m.wording_text fun f hf => hf.resolve_right fun hname => hname.2 hworded

theorem asWritten_governs {state : σ → Prop} {E : Engine σ}
    (hconstructors : ∀ c ∈ E.table.all, c.name.IsWord)
    (hnatives : ∀ n ∈ E.natives, n.Keeps asWritten (fun _ => True) state)
    (hintrinsics : ∀ i ∈ E.intrinsics.entries, i.Keeps asWritten) :
    Governs asWritten (fun _ => True) state E :=
  expressions_governs (fun _ _ _ _ => trivial) (fun _ _ => trivial) (fun _ _ => trivial)
    (.inr fun _ _ => trivial) hconstructors hnatives hintrinsics

/-! ## Levels of detail -/

/-- **A wording that fails**: one run words a message that the other does
not write, and has the lines of the other up to the given level. -/
def Parting.wording (d : Nat) : Parting σ where
  failure := .numeralTooLong
  lines ls := ls.filter (·.level ≤ d)
  output _ := []

variable {E : Engine σ} {d : Nat}

/-- Messages are written at the higher level if they are at the lower. -/
theorem Parting.at_trace (hd : E.detail ≤ d) {K : Journal σ → Prop} {m : Message}
    (hm : FailsOnly (· = .numeralTooLong) m.text) :
    (Parting.wording E.detail).At K (E.trace m) ({ E with detail := d }.trace m) := by
  refine ⟨fun j _ => .of_trace E m j, fun j _ => ?_⟩
  unfold Engine.trace Run.trace
  dsimp only
  by_cases hlow : m.level ≤ E.detail
  · rw [if_pos hlow, if_pos (hlow.trans hd), run_bind_eq, run_bind_eq, Run.run_lift, Run.run_lift]
    cases m.text with
    | error f => exact .inl rfl
    | ok text => exact .inl (by simp [view, wording, hlow])
  · rw [if_neg hlow]
    by_cases hhigh : m.level ≤ d
    · rw [if_pos hhigh, run_bind_eq, Run.run_lift]
      cases htext : m.text with
      | error f => exact .inr ⟨congrArg Except.error (hm f htext), .refl _⟩
      | ok text =>
        refine .inl (Prod.ext rfl ?_)
        show view _ j = view _ { j with trace := j.trace.push ⟨m.level, text⟩ }
        simp [view, wording, hlow]
    · rw [if_neg hhigh]
      exact .inl rfl

theorem Parting.allows_wording {state : σ → Prop} (hd : E.detail ≤ d)
    (hnatives : ∀ n ∈ E.natives, n.LetsThrough (· = .numeralTooLong)) :
    (Parting.wording E.detail).Allows asWritten state E d where
  natives n hn := ⟨hnatives n hn, fun s args => (n.run s args).appends_nil s⟩
  trace _ hm := at_trace hd (Message.fails_text hm)
  functions h f hf := by
    have hparts := h.2
    rw [Node.isExpression, Bool.and_eq_true, Bool.and_eq_true] at hparts
    exact (Node.declaredFunctions_of_areDeclarations (Node.areDeclarations_iff.1 hparts.1.2)).2 f hf

/-! ## Whole runs -/

namespace Interpreter

/-- **A run of a program with a level of detail of its own.** -/
def runTraced (I : Interpreter σ) (d : Nat) (root : Node) : Except Failure Value × Interpreter σ :=
  Interpreter.perform { I with detail := d } (Session.run root)

/-- An interpreter with less in its trace. -/
def upTo (I : Interpreter σ) (d : Nat) : Interpreter σ :=
  { I with
    detail := d
    journal := { I.journal with trace := I.journal.trace.filter (·.level ≤ d) } }

end Interpreter

namespace Session

/-- Interpreters with different levels of detail load in parallel. -/
theorem parallel_upTo {d d' : Nat} (hd : d ≤ d') :
    Parallel (fun m => ∃ text, m.text = .ok text)
      fun I I' : Interpreter σ => I = I'.upTo d ∧ I'.detail = d' where
  intrinsics := by
    rintro _ I ⟨rfl, -⟩
    rfl
  summary := by
    rintro _ I ⟨rfl, -⟩
    rfl
  externs := by
    rintro _ I externs ⟨rfl, h⟩
    exact ⟨rfl, h⟩
  table := by
    rintro _ I table ⟨rfl, h⟩
    exact ⟨rfl, h⟩
  compiled := by
    rintro _ I table cases globals ⟨rfl, h⟩
    exact ⟨rfl, h⟩
  traces := by
    rintro ι l message htexts _ I ⟨rfl, rfl⟩
    have hat : (Parting.wording d).At (fun _ => True)
        (l.forM fun i => (I.upTo d).engine.trace (message i))
        (l.forM fun i => I.engine.trace (message i)) :=
      .forM fun i hi => Parting.at_trace (E := (I.upTo d).engine) hd fun f hf => by
        obtain ⟨text, htext⟩ := htexts i hi
        cases htext.symm.trans hf
    obtain ⟨t, ht⟩ := Run.traces_of_texts I.detail htexts I.journal
    have hrun : (l.forM fun i => I.engine.trace (message i)).run I.journal
        = (.ok (), { I.journal with trace := t }) := ht
    rcases hat.agree_or_part I.journal trivial with hagree | ⟨hfail, -⟩
    · have hlow : (l.forM fun i => (I.upTo d).engine.trace (message i)).run (I.upTo d).journal
          = _ := hagree
      rw [run_keepEngine, run_keepEngine, hlow]
      exact ⟨⟨rfl, rfl⟩, .refl (fun _ => rfl) (fun _ => trivial) _⟩
    · rw [hrun] at hfail
      cases hfail
  texts _ h := h

open Node (program externDecl typeSpec literal var lambda intrinsicCall caseOf arm patternVar)

/-- A program with a message of each level. -/
def watchedText : String :=
  "begin extern apply:fun(t,t)->t; in case 1 of|n=>apply(fn(y)=>{@iadd(y,n)},2) end end"

/-- The program that the text says. -/
def watchedProgram : Node :=
  program (some ⟨1, 1⟩)
    [externDecl (some ⟨1, 7⟩) "apply" [] [typeSpec (.mk "t" []), typeSpec (.mk "t" [])]
      (typeSpec (.mk "t" []))]
    (caseOf (some ⟨1, 36⟩) (literal (some ⟨1, 41⟩) (.int 1))
      [arm (some ⟨1, 45⟩) (patternVar (some ⟨1, 46⟩) "n")
        (.call (some ⟨1, 49⟩) (var (some ⟨1, 49⟩) "apply")
          [lambda (some ⟨1, 55⟩) ["y"]
            (intrinsicCall (some ⟨1, 63⟩) "iadd"
              [var (some ⟨1, 69⟩) "y", var (some ⟨1, 71⟩) "n"]),
            literal (some ⟨1, 75⟩) (.int 2)])])

/-- A host for it. -/
def watchedDesk : Interpreter Desk where
  natives := Stock.apply.native "apply" none :: Desk.consoleNatives
  journal := { host := { console := { input := [] } } }

theorem ofSource_watchedText : Node.ofSource watchedText 1000 = .ok watchedProgram := by
  refine @Node.ofSource_of_tokens _ _ ?tokens watchedProgram _ ?scanned ?read ?resolved
  case scanned =>
    cbv
    rfl
  case read => rfl
  case resolved =>
    unfold Node.resolveProgram Node.checkDeclarations Node.scopes
    rw [Node.walk_eq_preorder rfl]
    rfl

end Session

end EmberLang
