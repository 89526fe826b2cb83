import EmberLang.CommandLine
import EmberLang.Proofs.Rejections
import EmberLang.Proofs.Savable

/-!
# Running a saved program

A program can be run from its source, or it can be saved as a tree by one
call and run from the saved tree by another. Both ways do the same
(`CommandLine.run_emitted_tree`): what is printed, what is complained about,
the trace that is written and the exit status are equal, whatever is typed
and however the command lines are spelled. If no program is read from the
source, the call that was to save it ends as the call that was to run it,
and writes no file.

That the tree survives is `Node.ofJson_parse_render`, and that every program
is such a tree is `Node.isSavable_of_ofSource`. What is added here is how
calls depend on their files: a run looks at one of them only, and only
whether the trace can be written.
-/

namespace EmberLang

/-! ## Texts that are read -/

theorem Text.length_unifiedChars_le (cs : List Char) : (unifiedChars cs).length ≤ cs.length := by
  fun_induction unifiedChars cs with
  | case1 cs ih | case2 cs _ ih | case3 c cs _ _ ih =>
    simp only [List.length_cons]
    omega
  | case4 => exact le_refl _

theorem Text.isPrintable_length_unifyNewlines {text : String}
    (h : Decimal.isPrintable text.length = true) :
    Decimal.isPrintable (unifyNewlines text).length = true := by
  have hle := length_unifiedChars_le text.toList
  rw [String.length_toList] at hle
  rw [Decimal.isPrintable, decide_eq_true_eq] at h ⊢
  rw [unifyNewlines, String.length_ofList]
  generalize Nat.pow 10 Decimal.maxDigits = limit at h ⊢
  omega

theorem Decimal.isPrintable_of_le {n : Nat} (h : n ≤ maxDigits) : isPrintable n = true := by
  have hpow {k : Nat} (hk : n ≤ k) : n < Nat.pow 10 k :=
    (Nat.lt_pow_self (by decide)).trans_le (Nat.pow_le_pow_right (by decide) hk)
  rw [isPrintable, decide_eq_true_eq, Int.natAbs_natCast]
  exact hpow h

/-- Reading a text makes no calls. -/
theorem Node.ofSource_ne_callsTooDeep (text : String) (frames : Int) :
    FailsOnly (· ≠ .callsTooDeep) (ofSource text frames) := by
  unfold ofSource
  split
  · exact .error (by simp)
  · next s hscan =>
    refine FailsOnly.bind ?_ fun q hq => ?_
    · unfold ofTokens
      split
      · exact .ok _
      · next stuck _ =>
        refine .error ?_
        cases stuck with
        | unexpected expected rest => cases rest <;> simp [Stuck.failure, Failure.of]
        | tooDeep rest => simp [Stuck.failure, Failure.of]
        | numeralTooLong => simp [Stuck.failure]
    · refine (clash_resolveProgram (isProgram_of_ofTokens (proper_of_scan hscan) hq)).mono ?_
      rintro f ⟨name, p, rfl | rfl⟩ <;> simp [Failure.of]

/-! ## Calls and files -/

namespace Report

/-- **The files after a call.** -/
def leaves (r : Report) (look : Path → Entry) : Path → Entry :=
  r.writes.foldl (fun look w => Function.update look w.1 (.file w.2)) look

theorem fail_eq {f : Failure} (hf : f ≠ .callsTooDeep) (r : Report) (d d' : Int) :
    r.fail d f = r.fail d' f := by
  cases f with
  | callsTooDeep => exact absurd rfl hf
  | _ => rfl

theorem writes_fail (r : Report) (d : Int) (f : Failure) : (r.fail d f).writes = r.writes := by
  cases f <;> rfl

theorem ending_fail (r : Report) (d : Int) (f : Failure) : (r.fail d f).ending ≠ .ok 0 := by
  cases f <;> simp [fail, complain]

end Report

namespace CommandLine

/-- **A command line that asks for a task**, with so much detail in the
trace and so many calls nested. -/
def Asks (args : List String) (task : Task) (verbosity : Nat) (maxDepth : Int) : Prop :=
  ∃ a, Arguments.ofTexts args = .ok a ∧ task? a = some task
    ∧ a.verbosity = verbosity ∧ a.maxDepth = maxDepth

section Calls

variable {args : List String} {a : Arguments} {task : Task} {look : Path → Entry} {typed : String}
  (hargs : Arguments.ofTexts args = .ok a) (htask : task? a = some task)

include hargs htask

theorem run_of_readText {r : Report} (hread : readText look task.path = .error r) :
    run args look typed = r := by
  unfold run
  simp only [hargs, htask, hread]

theorem run_of_carryOut_ok {text : String} {r : Report} (hread : readText look task.path = .ok text)
    (hr : carryOut a look typed task text = .ok r) : run args look typed = r := by
  unfold run
  simp only [hargs, htask, hread, hr]

theorem run_of_carryOut_error {text : String} {f : Failure}
    (hread : readText look task.path = .ok text)
    (hf : carryOut a look typed task text = .error f) :
    run args look typed = Report.fail {} a.maxDepth f := by
  unfold run
  simp only [hargs, htask, hread, hf]

end Calls

theorem readText_of_file {look : Path → Entry} {path : Path} {text : String}
    (h : look path = .file text) : readText look path = .ok (Text.unifyNewlines text) := by
  unfold readText
  rw [h]

/-- Where there is no file, a call complains or fails. -/
theorem readText_error {look : Path → Entry} {path : Path} (h : ∀ text, look path ≠ .file text) :
    ∃ r : Report, readText look path = .error r ∧ r.writes = [] ∧ r.ending ≠ .ok 0 := by
  unfold readText
  cases hlook : look path with
  | file text => exact absurd hlook (h text)
  | directory => exact ⟨_, rfl, rfl, by simp⟩
  | missing => exact ⟨_, rfl, rfl, by simp [Report.complain]⟩

/-- **What a run depends on**: the detail of the trace, the limit of nested
calls, and whether the trace can be written. -/
theorem execute_congr {a b : Arguments} (hverbosity : a.verbosity = b.verbosity)
    (hdepth : a.maxDepth = b.maxDepth) {look look' : Path → Entry}
    (hlook : look traceFile = .directory ↔ look' traceFile = .directory) (typed : String)
    (root : Node) : execute a look typed root = execute b look' typed root := by
  unfold execute
  simp only [hverbosity, hdepth, hlook]

/-! ## Programs and their trees -/

/-- **The program at a path**, if one can be read there. -/
def programAt? (look : Path → Entry) (path : Path) : Option Node :=
  match look path with
  | .file text => (Node.ofSource (Text.unifyNewlines text)).toOption
  | _ => none

theorem programAt?_of_file {look : Path → Entry} {path : Path} {text : String}
    (h : look path = .file text) :
    programAt? look path = (Node.ofSource (Text.unifyNewlines text)).toOption := by
  unfold programAt?
  rw [h]

theorem programAt?_eq_some {look : Path → Entry} {path : Path} {root : Node}
    (h : programAt? look path = some root) :
    ∃ text, look path = .file text ∧ Node.ofSource (Text.unifyNewlines text) = .ok root := by
  cases hlook : look path with
  | file text =>
    rw [programAt?_of_file hlook] at h
    cases hsource : Node.ofSource (Text.unifyNewlines text) with
    | error f =>
      rw [hsource] at h
      cases h
    | ok root' =>
      rw [hsource] at h
      exact ⟨text, rfl, by rw [hsource, Option.some.inj h]⟩
  | directory | missing =>
    unfold programAt? at h
    rw [hlook] at h
    cases h

section Sources

variable {look : Path → Entry} {path : Path} {args : List String} {verbosity : Nat}
  {maxDepth : Int}

/-- **Where there is no program**, all calls that are about one end alike,
with a fault, and write nothing. -/
theorem run_of_programAt?_eq_none (h : programAt? look path = none) :
    ∃ r : Report, r.writes = [] ∧ r.ending ≠ .ok 0 ∧ ∀ args task v d typed,
      Asks args task v d → task = .runSource path ∨ task = .emitTree path →
      run args look typed = r := by
  by_cases hfile : ∃ text, look path = .file text
  · obtain ⟨text, hfile⟩ := hfile
    rw [programAt?_of_file hfile] at h
    cases hsource : Node.ofSource (Text.unifyNewlines text) with
    | ok root =>
      rw [hsource] at h
      cases h
    | error f =>
      refine ⟨Report.fail {} 0 f, Report.writes_fail _ _ _, Report.ending_fail _ _ _, ?_⟩
      rintro args task v d typed ⟨a, hargs, htask, -, -⟩ hpath
      rw [Report.fail_eq (Node.ofSource_ne_callsTooDeep _ _ f hsource) _ 0 a.maxDepth]
      rcases hpath with rfl | rfl
      · exact run_of_carryOut_error hargs htask (readText_of_file hfile)
          (by rw [carryOut, hsource]; rfl)
      · exact run_of_carryOut_error hargs htask (readText_of_file hfile)
          (by rw [carryOut, hsource]; rfl)
  · obtain ⟨r, hread, hwrites, hending⟩ := readText_error (not_exists.1 hfile)
    refine ⟨r, hwrites, hending, ?_⟩
    rintro args task v d typed ⟨a, hargs, htask, -, -⟩ (rfl | rfl)
    · exact run_of_readText hargs htask hread
    · exact run_of_readText hargs htask hread

/-- A program is run from its source. -/
theorem run_runSource (hargs : Asks args (.runSource path) verbosity maxDepth) {root : Node}
    (h : programAt? look path = some root) (typed : String) :
    run args look typed = execute { verbosity, maxDepth } look typed root := by
  obtain ⟨a, hargs, htask, rfl, rfl⟩ := hargs
  obtain ⟨text, hfile, hsource⟩ := programAt?_eq_some h
  refine (run_of_carryOut_ok hargs htask (readText_of_file hfile) ?_).trans
    (execute_congr rfl rfl Iff.rfl typed root)
  rw [carryOut, hsource]
  rfl

/-- A program is saved beside its source. -/
theorem run_emitTree (hargs : Asks args (.emitTree path) verbosity maxDepth) {root : Node}
    (h : programAt? look path = some root) (hout : look (path.withSuffix ".ast.json") ≠ .directory)
    (typed : String) :
    run args look typed
      = { stdout := (path.withSuffix ".ast.json").text ++ "\n"
          writes := [(path.withSuffix ".ast.json", root.toJson.render (.indented 2))] } := by
  obtain ⟨a, hargs, htask, rfl, rfl⟩ := hargs
  obtain ⟨text, hfile, hsource⟩ := programAt?_eq_some h
  refine run_of_carryOut_ok hargs htask (readText_of_file hfile) ?_
  rw [carryOut, hsource, ok_bind]
  cases hlook : look (path.withSuffix ".ast.json") with
  | directory => exact absurd hlook hout
  | file | missing => simp only [hlook]; rfl

/-- A program is run from its saved tree. -/
theorem run_runTree (hargs : Asks args (.runTree path) verbosity maxDepth) {root : Node}
    (h : root.isSavable = true) {l : Json.Layout} (hfile : look path = .file (root.toJson.render l))
    (typed : String) : run args look typed = execute { verbosity, maxDepth } look typed root := by
  obtain ⟨a, hargs, htask, rfl, rfl⟩ := hargs
  obtain ⟨j, hparse, hroot⟩ := bind_eq_ok (Node.ofJson_parse_render l h)
  refine (run_of_carryOut_ok hargs htask (readText_of_file hfile) ?_).trans
    (execute_congr rfl rfl Iff.rfl typed root)
  rw [Json.unifyNewlines_render, carryOut, hparse, ok_bind, hroot]
  rfl

end Sources

/-- **A program does the same from its source and from its saved tree.** If
there is a program at the path, it is saved beside it, and running what was
saved is running the program. Otherwise the call that was to save it ends as
the call that was to run it, with a fault, and writes nothing. The place
beside the path must not be taken by a directory; and the length of the text
must be a number that can be written, so that all positions in it can be. -/
theorem run_emitted_tree {direct emit saved : List String} {path : Path} {verbosity : Nat}
    {maxDepth : Int} (hdirect : Asks direct (.runSource path) verbosity maxDepth)
    {v : Nat} {d : Int} (hemit : Asks emit (.emitTree path) v d)
    (hsaved : Asks saved (.runTree (path.withSuffix ".ast.json")) verbosity maxDepth)
    {look : Path → Entry} (hout : look (path.withSuffix ".ast.json") ≠ .directory)
    (hsize : ∀ text, look path = .file text → Decimal.isPrintable text.length = true)
    (typed ignored : String) :
    (programAt? look path = none
        ∧ run emit look ignored = run direct look typed
        ∧ (run emit look ignored).writes = []
        ∧ (run emit look ignored).ending ≠ .ok 0)
      ∨ ∃ root, programAt? look path = some root
        ∧ run emit look ignored
          = { stdout := (path.withSuffix ".ast.json").text ++ "\n"
              writes := [(path.withSuffix ".ast.json", root.toJson.render (.indented 2))] }
        ∧ run saved ((run emit look ignored).leaves look) typed = run direct look typed := by
  cases hprogram : programAt? look path with
  | none =>
    obtain ⟨r, hwrites, hending, hrun⟩ := run_of_programAt?_eq_none hprogram
    have hrun' := hrun emit _ _ _ ignored hemit (.inr rfl)
    refine .inl ⟨rfl, ?_, by rw [hrun', hwrites], by rw [hrun']; exact hending⟩
    rw [hrun', hrun direct _ _ _ typed hdirect (.inl rfl)]
  | some root =>
    obtain ⟨text, hfile, hsource⟩ := programAt?_eq_some hprogram
    have hsavable : root.isSavable = true :=
      Node.isSavable_of_ofSource (Text.isPrintable_length_unifyNewlines (hsize text hfile)) hsource
    have hemitted := run_emitTree hemit hprogram hout ignored
    have hleaves : (run emit look ignored).leaves look
        = Function.update look (path.withSuffix ".ast.json")
          (.file (root.toJson.render (.indented 2))) := by
      rw [hemitted]
      rfl
    refine .inr ⟨root, rfl, hemitted, ?_⟩
    rw [hleaves, run_runTree hsaved hsavable (Function.update_self _ _ look),
      run_runSource hdirect hprogram]
    refine execute_congr rfl rfl ?_ typed root
    -- what was written is no directory, and there was none in its place
    by_cases htrace : traceFile = path.withSuffix ".ast.json"
    · rw [htrace, Function.update_self]
      exact iff_of_false (by simp) hout
    · rw [Function.update_of_ne htrace]

/-- A program that prints, and then fails. -/
def quotientText : String := "begin extern print:fun(t)->(); in print(7);@idiv(1,0) end"

/-- The program that the text says. -/
def quotientProgram : Node :=
  .program (some ⟨1, 1⟩)
    [.externDecl (some ⟨1, 7⟩) "print" [] [.typeSpec (.mk "t" [])] (.typeSpec (.mk "()" []))]
    (.seq (some ⟨1, 43⟩)
      (.call (some ⟨1, 35⟩) (.var (some ⟨1, 35⟩) "print") [.literal (some ⟨1, 41⟩) (.int 7)])
      (.intrinsicCall (some ⟨1, 44⟩) "idiv"
        [.literal (some ⟨1, 50⟩) (.int 1), .literal (some ⟨1, 52⟩) (.int 0)]))

/-- A directory with the program in it. -/
def quotientFiles : Workspace := ⟨[("quotient.ember", quotientText)]⟩

theorem ofSource_quotientText : Node.ofSource quotientText = .ok quotientProgram := by
  refine @Node.ofSource_of_tokens _ _ ?tokens quotientProgram _ ?scanned ?read ?resolved
  case scanned =>
    cbv
    rfl
  case read => rfl
  case resolved =>
    unfold Node.resolveProgram Node.checkDeclarations Node.scopes
    rw [Node.walk_eq_preorder rfl]
    rfl

/-- The program is saved, and running what was saved is running it. -/
theorem run_emitted_quotient :
    programAt? quotientFiles.entry ⟨"", ["quotient.ember"]⟩ = some quotientProgram
      ∧ run ["-v", "--ast", "quotient.ember.ast.json"]
          ((run ["--emit-ast", "quotient.ember"] quotientFiles.entry "").leaves
            quotientFiles.entry) ""
        = run ["-v", "quotient.ember"] quotientFiles.entry "" := by
  let path : Path := ⟨"", ["quotient.ember"]⟩
  have hbeside : path.withSuffix ".ast.json" = ⟨"", ["quotient.ember.ast.json"]⟩ := by decide
  have hfile : quotientFiles.entry path = .file quotientText := rfl
  have hlines : Text.unifyNewlines quotientText = quotientText := by cbv
  have hprogram : programAt? quotientFiles.entry path = some quotientProgram := by
    rw [programAt?_of_file hfile, hlines, ofSource_quotientText]
    rfl
  have hdirect : Asks ["-v", "quotient.ember"] (.runSource path) 1 50000 :=
    ⟨{ verbosity := 1, program? := some "quotient.ember" }, rfl, rfl, rfl, rfl⟩
  have hemit : Asks ["--emit-ast", "quotient.ember"] (.emitTree path) 0 50000 :=
    ⟨{ emitTree? := some "quotient.ember" }, rfl, rfl, rfl, rfl⟩
  have hsaved : Asks ["-v", "--ast", "quotient.ember.ast.json"]
      (.runTree (path.withSuffix ".ast.json")) 1 50000 := by
    rw [hbeside]
    exact ⟨{ verbosity := 1, runTree? := some "quotient.ember.ast.json" }, rfl, rfl, rfl, rfl⟩
  have hout : quotientFiles.entry (path.withSuffix ".ast.json") ≠ .directory := by
    rw [hbeside]
    decide
  have hsize : ∀ text, quotientFiles.entry path = .file text →
      Decimal.isPrintable text.length = true := by
    intro text htext
    obtain rfl := Entry.file.inj (hfile.symm.trans htext)
    exact Decimal.isPrintable_of_le (by decide)
  obtain ⟨hnone, -⟩ | ⟨-, -, -, hrun⟩ :=
    run_emitted_tree hdirect hemit hsaved hout hsize "" ""
  · rw [hprogram] at hnone
    cases hnone
  · exact ⟨hprogram, hrun⟩

end CommandLine

end EmberLang
