import EmberLang.Proofs.Natives
import EmberLang.Proofs.OwnCalls
import EmberLang.Proofs.Replacement

/-!
# The console shows the foreign calls

A program that runs on a console can write there and read from there, and
it can do so only by foreign calls. So the foreign calls that a run has made
tell what became of the console: one after the other, each adds its line to
the output, and each that reads an integer takes a line from the input. This
is what `Console.Transcript` says, and a run keeps it up, whatever comes of
it.

A foreign call enters the journal before the console does anything, and the
function may then refuse its arguments, or find the input closed, and write
nothing. Such a call ends the run, and so it is the last.

What reads give back depends on the lines of the input alone. A host that has
these lines in a script and does nothing but count how many have been read
can stand in for the console (`Console.fits_onScript`). That a program
behaves alike on both says which line went to which call.
-/

namespace EmberLang

/-! ## Functions that end at once -/

/-- **An action that ends at once**, with a value or a failure. -/
def Action.ofOutcome {σ : Type} (state : σ) : Except Failure Value → Action σ
  | .ok v => .done state (.value v)
  | .error f => .fail state f

namespace Engine

variable {σ : Type} {E : Engine σ} {call : Caller σ} {name : Name} {args : List Value}
  {directive : Bool} {p : Option Position}

/-- A foreign call that cannot be resolved. -/
theorem run_callForeign_of_error {f : Failure}
    (h : Native.resolve E.natives E.externs name args p = .error f) (j : Journal σ) :
    (E.callForeign call name args directive p).run j = (.error f, j) := by
  unfold callForeign
  rw [h]
  rfl

/-- **A foreign call of a function that ends at once.** -/
theorem run_callForeign {native : Native σ}
    (h : Native.resolve E.natives E.externs name args p = .ok native) {j : Journal σ} {state : σ}
    {outcome : Except Failure Value} (hrun : native.run j.host args = .ofOutcome state outcome) :
    (E.callForeign call name args directive p).run j = (outcome,
      { host := state, effects := j.effects.push ⟨native.name, args, directive⟩,
        observed := j.observed.push ⟨native.name, args, directive⟩, trace := j.trace }) := by
  unfold callForeign
  rw [h, run_bind_of_ok _ (Run.run_lift ..), run_bind_of_ok _ (Run.run_record ..),
    run_bind_of_ok _ (Run.run_host _)]
  dsimp only
  rw [hrun]
  cases outcome with
  | ok v => rfl
  | error f => rfl

end Engine

namespace Console

/-! ## What is written and what is read -/

/-- **The lines of a text.** After the last line end there is another line
only if there is something left. -/
def lines (text : List Char) : List (List Char) :=
  let parts := text.splitOn '\n'
  if parts.getLast? = some [] then parts.dropLast else parts

/-- **The line that a call writes**, or why it writes none. -/
def line (name : String) (args : List Value) : Except Failure String :=
  match name, args with
  | "print_int", [.int n] => intText n
  | "print_int", [v] =>
    .error (.of (.typeMismatch (.argument "print_int" "Int" v.typeName.text)))
  | "print", [v] => v.text
  | "print_unit", [.unit] => .ok "()"
  | "print_unit", [v] =>
    .error (.of (.typeMismatch (.argument "print_unit" "()" v.typeName.text)))
  | _, _ => .error (.host .noArgument)

/-- **What a call gives back** if the given line is the next one, `none` if
there is no line left. -/
def answer (next? : Option (List Char)) (name : String) (args : List Value) :
    Except Failure Value :=
  if name = "read_int" then
    match next? with
    | none => .error (.of .closedInput)
    | some next =>
      let typed := Text.trimBlanks next
      match Decimal.readTyped typed with
      | some n => .ok (.int n)
      | none =>
        .error (.of (.typeMismatch (.numeral "read_int" (Text.quoted (String.ofList typed)))))
  else do
    let _ ← line name args
    return .unit

/-- What a foreign call adds to the output: its line, if it has one. -/
def written (e : Effect) : String :=
  match line e.name e.args with
  | .ok s => s ++ "\n"
  | .error _ => ""

/-- The number of times that an integer was to be read. -/
def readings (es : List Effect) : Nat := es.countP (·.name == "read_int")

theorem readings_concat (es : List Effect) (e : Effect) :
    readings (es ++ [e]) = readings es + readings [e] := List.countP_append

theorem readings_concat_eq (es : List Effect) (e : Effect) :
    readings (es ++ [e]) = if e.name = "read_int" then readings es + 1 else readings es := by
  rw [readings_concat, readings, readings, List.countP_singleton]
  simp only [beq_iff_eq]
  split
  · rfl
  · rfl

theorem lines_nil : lines [] = [] := rfl

theorem lines_of_not_mem {l : List Char} (hl : '\n' ∉ l) (hne : l ≠ []) : lines l = [l] := by
  unfold lines
  rw [List.splitOn_eq_singleton hl]
  simp [hne]

theorem lines_append {l : List Char} (hl : '\n' ∉ l) (rest : List Char) :
    lines (l ++ '\n' :: rest) = l :: lines rest := by
  have hne := List.splitOn_ne_nil '\n' rest
  unfold lines
  dsimp only
  rw [List.splitOn_append_cons_self_of_not_mem hl, List.getLast?_cons_of_ne_nil hne,
    List.dropLast_cons_of_ne_nil hne]
  split
  · rfl
  · rfl

theorem lines_of_readLine_none {c : Console} (h : c.readLine = none) : lines c.input = [] := by
  unfold readLine at h
  split at h
  · next hempty =>
    rw [List.isEmpty_iff.1 hempty]
    rfl
  · cases h

/-- **Reading a line** takes the first of the lines. -/
theorem lines_of_readLine {c c' : Console} {l : List Char} (h : c.readLine = some (l, c')) :
    lines c.input = l :: lines c'.input := by
  unfold readLine at h
  split at h
  · cases h
  · next hne =>
    obtain ⟨rfl, rfl⟩ := Prod.mk.inj (Option.some.inj h)
    have hl : '\n' ∉ c.input.takeWhile (· ≠ '\n') := fun hmem => by
      simpa using List.mem_takeWhile_imp hmem
    have hsplit : c.input.takeWhile (· ≠ '\n') ++ c.input.dropWhile (· ≠ '\n') = c.input :=
      List.takeWhile_append_dropWhile
    have hend := List.head?_dropWhile_not (· ≠ '\n') c.input
    dsimp only
    generalize c.input.takeWhile (· ≠ '\n') = l at hl hsplit ⊢
    generalize c.input.dropWhile (· ≠ '\n') = rest at hsplit hend
    -- The line ends where the input does, or at a line end that goes with it.
    cases rest with
    | nil =>
      rw [List.append_nil] at hsplit
      rw [← hsplit] at hne ⊢
      have hne : l ≠ [] := by simpa using hne
      rw [List.drop_of_length_le (Nat.le_succ _), lines_of_not_mem hl hne, lines_nil]
    | cons d rest =>
      obtain rfl : d = '\n' := by simpa using hend
      rw [← hsplit, lines_append hl, ← List.drop_drop, List.drop_left, List.drop_one,
        List.tail_cons]

/-- Writes a line, or fails if there is none. -/
def writing (c : Console) : Except Failure String → Action Console
  | .ok s => .done (c.writeLine s) (.value .unit)
  | .error f => .fail c f

theorem printInt_eq (c : Console) (v : Value) :
    c.printInt [v] = c.writing (line "print_int" [v]) := by
  cases v with
  | int n =>
    have hline : line "print_int" [.int n] = intText n := rfl
    rw [hline]
    unfold printInt
    dsimp only
    cases intText n with
    | ok s => rfl
    | error f => rfl
  | _ => rfl

theorem print_eq (c : Console) (v : Value) : c.print [v] = c.writing (line "print" [v]) := rfl

theorem printUnit_eq (c : Console) (v : Value) :
    c.printUnit [v] = c.writing (line "print_unit" [v]) := by
  cases v <;> rfl

/-- **A function that writes** has its line at the end of the output. -/
theorem writing_eq_answer (c : Console) (next? : Option (List Char)) {name : String}
    (hname : name ≠ "read_int") (args : List Value) (directive : Bool) :
    ∃ c', c.writing (line name args) = .ofOutcome c' (answer next? name args)
      ∧ c'.output = c.output ++ written ⟨name, args, directive⟩
      ∧ lines c'.input = (lines c.input).drop (readings [⟨name, args, directive⟩]) := by
  have hreads : readings [⟨name, args, directive⟩] = 0 := by simp [readings, hname]
  unfold answer written
  rw [hreads, if_neg hname]
  dsimp only
  cases line name args with
  | ok s => exact ⟨c.writeLine s, rfl, String.append_assoc .., rfl⟩
  | error f => exact ⟨c, rfl, String.append_empty.symm, rfl⟩

/-- **Reading an integer** takes a line of the input, if there is one. -/
theorem readInt_eq_answer (c : Console) (args : List Value) (directive : Bool) :
    ∃ c', c.readInt args = .ofOutcome c' (answer (lines c.input).head? "read_int" args)
      ∧ c'.output = c.output ++ written ⟨"read_int", args, directive⟩
      ∧ lines c'.input = (lines c.input).drop (readings [⟨"read_int", args, directive⟩]) := by
  have hreads : readings [⟨"read_int", args, directive⟩] = 1 := rfl
  have hwritten : written ⟨"read_int", args, directive⟩ = "" := rfl
  unfold readInt answer
  rw [hreads, hwritten, if_pos rfl, String.append_empty]
  cases hread : c.readLine with
  | none =>
    rw [lines_of_readLine_none hread]
    exact ⟨c, rfl, rfl, lines_of_readLine_none hread⟩
  | some taken =>
    obtain ⟨l, c'⟩ := taken
    rw [lines_of_readLine hread]
    refine ⟨c', ?_, output_readLine hread, rfl⟩
    dsimp only [List.head?_cons]
    cases Decimal.readTyped (Text.trimBlanks l) with
    | some n => rfl
    | none => rfl

/-- **The functions of the console give the answers**, write the lines, and
take a line of the input if they read. -/
theorem run_eq_answer {n : Native Console} (hn : n ∈ natives) {args : List Value}
    (harity : n.arity? = some args.length) (directive : Bool) (c : Console) :
    ∃ c', n.run c args = .ofOutcome c' (answer (lines c.input).head? n.name args)
      ∧ c'.output = c.output ++ written ⟨n.name, args, directive⟩
      ∧ lines c'.input = (lines c.input).drop (readings [⟨n.name, args, directive⟩]) := by
  simp only [natives, List.mem_cons, List.not_mem_nil, or_false] at hn
  rcases hn with rfl | rfl | rfl | rfl
  · obtain ⟨v, rfl⟩ := List.length_eq_one_iff.1 (Option.some.inj harity).symm
    dsimp only
    rw [printInt_eq]
    exact c.writing_eq_answer _ (show "print_int" ≠ "read_int" by decide) [v] directive
  · obtain ⟨v, rfl⟩ := List.length_eq_one_iff.1 (Option.some.inj harity).symm
    dsimp only
    rw [print_eq]
    exact c.writing_eq_answer _ (show "print" ≠ "read_int" by decide) [v] directive
  · obtain ⟨v, rfl⟩ := List.length_eq_one_iff.1 (Option.some.inj harity).symm
    dsimp only
    rw [printUnit_eq]
    exact c.writing_eq_answer _ (show "print_unit" ≠ "read_int" by decide) [v] directive
  · exact c.readInt_eq_answer args directive

theorem exists_arity_of_mem {n : Native Console} (hn : n ∈ natives) :
    ∃ arity, n.arity? = some arity := by
  simp only [natives, List.mem_cons, List.not_mem_nil, or_false] at hn
  rcases hn with rfl | rfl | rfl | rfl <;> exact ⟨_, rfl⟩

/-! ## Transcripts -/

/-- **What a foreign call gives back** after some others, where the input
had the given lines: every integer to be read takes one of them. -/
def reply (lines : List (List Char)) (earlier : List Effect) (e : Effect) : Except Failure Value :=
  answer lines[readings earlier]? e.name e.args

/-- **The foreign calls tell what became of the console.** -/
structure Transcript (c₀ : Console) (es : List Effect) (c : Console) : Prop where
  /-- The lines that they write are the output. -/
  output : c.output = c₀.output ++ String.join (es.map written)
  /-- The lines that they read are gone from the input. -/
  input : lines c.input = (lines c₀.input).drop (readings es)
  /-- They are calls of the functions of the console. -/
  fits : ∀ e ∈ es, ∃ n ∈ natives, n.name = e.name ∧ n.arity? = some e.args.length

namespace Transcript

variable {c₀ c : Console} {es : List Effect}

theorem nil (c : Console) : Transcript c [] c where
  output := String.append_empty.symm
  input := rfl
  fits := by simp

/-- **Another call.** -/
theorem concat (h : Transcript c₀ es c) {n : Native Console} (hn : n ∈ natives)
    {args : List Value} (harity : n.arity? = some args.length) (directive : Bool) :
    ∃ c', n.run c args = .ofOutcome c' (reply (lines c₀.input) es ⟨n.name, args, directive⟩)
      ∧ Transcript c₀ (es ++ [⟨n.name, args, directive⟩]) c' := by
  obtain ⟨c', hrun, houtput, hinput⟩ := run_eq_answer hn harity directive c
  rw [h.input, List.head?_drop] at hrun
  refine ⟨c', hrun, ?_, ?_, ?_⟩
  · rw [houtput, h.output, String.append_assoc, List.map_append, String.join_append]
    simp [String.join]
  · rw [hinput, h.input, List.drop_drop, readings_concat]
  · intro e he
    rcases List.mem_append.1 he with he | he
    · exact h.fits e he
    · obtain rfl := List.mem_singleton.1 he
      exact ⟨n, hn, rfl, harity⟩

/-- **Another foreign call**, of what it is resolved to. -/
theorem concat_of_resolve (h : Transcript c₀ es c) {externs : List (Name × Nat)} {name : Name}
    {args : List Value} {p : Option Position} {n : Native Console}
    (hn : Native.resolve natives externs name args p = .ok n) (directive : Bool) :
    ∃ c', n.run c args = .ofOutcome c' (reply (lines c₀.input) es ⟨n.name, args, directive⟩)
      ∧ Transcript c₀ (es ++ [⟨n.name, args, directive⟩]) c' := by
  have hmem := Native.mem_of_resolve hn
  obtain ⟨arity, harity⟩ := exists_arity_of_mem hmem
  obtain rfl := (Native.resolve_eq_ok hn).2.2 arity harity
  exact h.concat hmem harity directive

end Transcript

/-- The calls so far have all given something back. -/
def Answered (lines : List (List Char)) (es : List Effect) : Prop :=
  ∀ earlier e later f, es = earlier ++ e :: later → reply lines earlier e ≠ .error f

/-- **Only the last call may have failed**, and with the given failure. -/
def FailsLast (lines : List (List Char)) (f : Failure) (es : List Effect) : Prop :=
  ∀ earlier e later g, es = earlier ++ e :: later → reply lines earlier e = .error g →
    later = [] ∧ g = f

theorem Answered.nil (lines : List (List Char)) : Answered lines [] :=
  fun earlier e later _ h => absurd h (by simp)

theorem Answered.failsLast {lines : List (List Char)} {es : List Effect} (h : Answered lines es)
    (f : Failure) : FailsLast lines f es :=
  fun earlier e later g hes hg => absurd hg (h earlier e later g hes)

/-- A call among some calls and one more is the one more, or stands before
it. -/
theorem split_concat {es earlier later : List Effect} {e last : Effect}
    (h : es ++ [last] = earlier ++ e :: later) :
    (earlier = es ∧ e = last ∧ later = []) ∨ ∃ between, es = earlier ++ e :: between := by
  rcases List.eq_nil_or_concat later with rfl | ⟨between, x, rfl⟩
  · obtain ⟨rfl, hlast⟩ := List.append_inj' h rfl
    exact .inl ⟨rfl, (List.singleton_inj.1 hlast).symm, rfl⟩
  · refine .inr ⟨between, ?_⟩
    rw [List.concat_eq_append, ← List.cons_append, ← List.append_assoc] at h
    exact (List.append_inj' h rfl).1

theorem Answered.concat_ok {lines : List (List Char)} {es : List Effect} (h : Answered lines es)
    {e : Effect} {v : Value} (hv : reply lines es e = .ok v) : Answered lines (es ++ [e]) := by
  intro earlier x later f hes hf
  rcases split_concat hes with ⟨rfl, rfl, rfl⟩ | ⟨between, hbetween⟩
  · rw [hv] at hf
    cases hf
  · exact h earlier x between f hbetween hf

theorem Answered.concat_error {lines : List (List Char)} {es : List Effect} (h : Answered lines es)
    {e : Effect} {f : Failure} (hf : reply lines es e = .error f) :
    FailsLast lines f (es ++ [e]) := by
  intro earlier x later g hes hg
  rcases split_concat hes with ⟨rfl, rfl, rfl⟩ | ⟨between, hbetween⟩
  · exact ⟨rfl, Except.error.inj (hg.symm.trans hf)⟩
  · exact absurd hg (h earlier x between g hbetween)

/-! ## A host that reads from a script -/

/-- **A function of the console, by the script.** It looks at nothing but
the number of lines read so far. -/
def scriptedNative (lines : List (List Char)) (n : Native Console) : Native Nat where
  name := n.name
  arity? := n.arity?
  run k args :=
    .ofOutcome (if n.name = "read_int" then k + 1 else k) (answer lines[k]? n.name args)

/-- The replacement of a console by a script. -/
def onScript (c₀ : Console) : Replacement Console Nat where
  natives := natives
  others := natives.map (scriptedNative (lines c₀.input))
  state _ es := readings es
  Settled c es := Transcript c₀ es c ∧ Answered (lines c₀.input) es
  Ended f c es := Transcript c₀ es c ∧ FailsLast (lines c₀.input) f es

theorem resolve_onScript (c₀ : Console) (E : Engine Console) (name : Name) (args : List Value)
    (p : Option Position) :
    Native.resolve (c₀.onScript.engine E).natives (c₀.onScript.engine E).externs name args p
      = (Native.resolve natives E.externs name args p).map (scriptedNative (lines c₀.input)) :=
  Native.resolve_map _ (fun _ => rfl) fun _ => rfl

/-- **A foreign call** gives back the same by the script. -/
theorem replaces_callForeign {c₀ : Console} {E : Engine Console} (hE : E.natives = natives)
    (call : Engine.Caller Console) (call' : Engine.Caller Nat) (name : Name) (args : List Value)
    (directive : Bool)
    (p : Option Position) :
    c₀.onScript.Replaces (E.callForeign call name args directive p)
      ((c₀.onScript.engine E).callForeign call' name args directive p) := by
  rintro j ⟨htranscript, hanswered⟩
  have hscript := resolve_onScript c₀ E name args p
  cases hresolve : Native.resolve natives E.externs name args p with
  -- Both hosts refuse the call before it enters the journal.
  | error f =>
    rw [hresolve] at hscript
    rw [← hE] at hresolve
    exact .of_outcome (Engine.run_callForeign_of_error hresolve j)
      (Engine.run_callForeign_of_error hscript _) ⟨htranscript, hanswered⟩
      fun f => ⟨htranscript, hanswered.failsLast f⟩
  | ok native =>
    obtain ⟨c', hrun, htranscript'⟩ := htranscript.concat_of_resolve hresolve directive
    rw [hresolve] at hscript
    rw [← hE] at hresolve
    have hcall : (E.callForeign call name args directive p).run j = _ :=
      Engine.run_callForeign hresolve hrun
    have hcall' : ((c₀.onScript.engine E).callForeign call' name args directive p).run
        (c₀.onScript.journal j) = _ := Engine.run_callForeign hscript rfl
    have hreads := readings_concat_eq j.observed.toList ⟨native.name, args, directive⟩
    rw [← Array.toList_push] at hreads htranscript'
    refine ⟨?_, fun v hv => ?_, fun f hf => ?_⟩
    -- The number of lines read so far is the state of the script.
    · rw [hcall, hcall']
      unfold Replacement.journal
      dsimp only [onScript]
      rw [hreads]
      rfl
    · rw [hcall] at hv ⊢
      refine ⟨htranscript', ?_⟩
      rw [Array.toList_push]
      exact hanswered.concat_ok hv
    · rw [hcall] at hf ⊢
      refine ⟨htranscript', ?_⟩
      rw [Array.toList_push]
      exact hanswered.concat_error hf

/-- **A script can stand in for a console.** -/
theorem fits_onScript (c₀ : Console) : c₀.onScript.Fits where
  names name := by
    show (Native.find? (natives.map _) name).isSome = (Native.find? natives name).isSome
    rw [Native.find?_map (scriptedNative (lines c₀.input)) fun _ => rfl, Option.isSome_map]
  ended f c es h := ⟨h.1, h.2.failsLast f⟩
  foreign E call call' name args directive p hE :=
    replaces_callForeign hE call call' name args directive p

end Console

/-- **An interpreter with a script** in the place of its console, of which
some lines have been read. -/
def Interpreter.scripted (I : Interpreter Console) (lines : List (List Char)) (read : Nat) :
    Interpreter Nat where
  natives := Console.natives.map (Console.scriptedNative lines)
  intrinsics := I.intrinsics
  detail := I.detail
  maxDepth := I.maxDepth
  externs := I.externs
  table := I.table
  caseTable := I.caseTable
  cases := I.cases
  globals := I.globals
  journal :=
    { host := read, effects := I.journal.effects, observed := I.journal.observed,
      trace := I.journal.trace }

namespace Session

/-- The observer is told of the foreign calls that are shown. -/
theorem effects_eq_observed (I : Interpreter Console) {root : Node}
    (h : root.IsTakenUp ∨ I.journal.effects = #[]) :
    (I.perform (run root)).2.journal.effects = (I.perform (run root)).2.journal.observed := by
  by_cases htaken : root.IsTakenUp
  · exact (shows_own_of_isTakenUp I htaken).2.2.1.symm
  · obtain ⟨fault, -, hran, -⟩ := refused_of_not_isTakenUp I htaken
    rw [hran]
    exact h.resolve_left htaken

/-- **The console shows the foreign calls.** Let a tree be run on a console,
whatever comes of it. The foreign calls that the interpreter shows are those
that the observer was told of, unless the tree was not taken up. They are
calls of the functions of the console, and what has been written since the
run began is the lines of the calls, in their order. A call that gives
nothing back is the last, and its failure is that of the run. As many lines
of the input are gone as integers were to be read, and each call got the line
that was its turn: a host that hands out the lines from a script cannot be
told from the console. -/
theorem run_transcribed (I : Interpreter Console) (hnatives : I.natives = Console.natives)
    (root : Node) :
    let ran := I.perform (run root)
    let calls := ran.2.journal.observed.toList
    let lines := Console.lines I.journal.host.input
    (root.IsTakenUp ∨ I.journal.effects = #[] → ran.2.journal.effects.toList = calls)
      ∧ ran.2.journal.host.output
        = I.journal.host.output ++ String.join (calls.map Console.written)
      ∧ (∀ e ∈ calls, ∃ n ∈ Console.natives, n.name = e.name ∧ n.arity? = some e.args.length)
      ∧ (∀ earlier e later f, calls = earlier ++ e :: later →
        Console.reply lines earlier e = .error f → later = [] ∧ ran.1 = .error f)
      ∧ Console.lines ran.2.journal.host.input = lines.drop (Console.readings calls)
      ∧ (I.scripted lines 0).perform (run root)
        = (ran.1, ran.2.scripted lines (Console.readings calls)) := by
  intro ran calls lines
  let page : Interpreter Console :=
    { I with journal := { I.journal with observed := #[], trace := #[] } }
  have hready : I.journal.host.onScript.Ready page := ⟨hnatives, .nil _, .nil _⟩
  obtain ⟨hsame, hok, herror⟩ := I.journal.host.fits_onScript.run root page hready
  have hended : Console.Transcript I.journal.host calls ran.2.journal.host
      ∧ ∀ earlier e later f, calls = earlier ++ e :: later →
        Console.reply lines earlier e = .error f → later = [] ∧ ran.1 = .error f := by
    cases houtcome : ran.1 with
    | ok v =>
      obtain ⟨-, htranscript, hanswered⟩ := hok v houtcome
      exact ⟨htranscript, fun earlier e later f hcalls hf =>
        absurd hf (hanswered earlier e later f hcalls)⟩
    | error g =>
      obtain ⟨htranscript, hfails⟩ := herror g houtcome
      refine ⟨htranscript, fun earlier e later f hcalls hf => ?_⟩
      obtain ⟨hlast, rfl⟩ := hfails earlier e later f hcalls hf
      exact ⟨hlast, rfl⟩
  obtain ⟨htranscript, hfails⟩ := hended
  exact ⟨fun h => congrArg Array.toList (effects_eq_observed I h), htranscript.output,
    htranscript.fits, hfails, htranscript.input, hsame⟩

open Node (program externDecl typeSpec var directiveCall seq)

/-- A program that reads an integer, prints it and what printing it gave
back, and reads another. -/
def echo : Node :=
  program none
    [externDecl none "read_int" [] [] (typeSpec .integer),
      externDecl none "print" [] [typeSpec .integer] (typeSpec .unit),
      externDecl none "print_unit" [] [typeSpec .unit] (typeSpec .unit)]
    (seq none
      (.call none (var none "print_unit")
        [directiveCall none "print" [.call none (var none "read_int") []]])
      (.call none (var none "read_int") []))

/-- **The run of a program whose second line of input is no integer.** It
fails at its last foreign call, and the others have written the output. -/
theorem run_echo_transcribed :
    let I : Interpreter Console :=
      { natives := Console.natives, journal := { host := { input := ['7', '\n', 'x'] } } }
    let ran := I.perform (run echo)
    ran.2.journal.effects.toList.map (fun e => (e.name, Console.written e))
        = [("read_int", ""), ("print", "7\n"), ("print_unit", "()\n"), ("read_int", "")]
      ∧ ran.2.journal.host.output = "7\n()\n"
      ∧ Console.lines ran.2.journal.host.input = []
      ∧ ran.1 = .error (.of (.typeMismatch (.numeral "read_int" "'x'"))) := by
  intro I ran
  have hcalls : ran.2.journal.effects.toList.map (fun e => (e.name, Console.written e))
      = [("read_int", ""), ("print", "7\n"), ("print_unit", "()\n"), ("read_int", "")] := by
    decide +kernel
  have hran : I.perform (run echo) = ran := rfl
  have h := run_transcribed I rfl echo
  rw [hran] at h
  clear_value ran
  obtain ⟨hshown, houtput, -, hfails, hinput, -⟩ := h
  rw [← hshown (.inr rfl)] at houtput hfails hinput
  have hlines : Console.lines I.journal.host.input = [['7'], ['x']] := rfl
  rw [hlines] at hfails hinput
  -- The four calls, with their names and what they have written.
  have hparts := hcalls
  simp only [List.map_eq_cons_iff, List.map_eq_nil_iff, Prod.mk.injEq] at hparts
  obtain ⟨a, _, hlist, ⟨ha, ha'⟩, b, _, rfl, ⟨hb, hb'⟩, c, _, rfl, ⟨hc, hc'⟩, d, _, rfl,
    ⟨hd, hd'⟩, rfl⟩ := hparts
  refine ⟨hcalls, ?_, ?_, (hfails [a, b, c] d [] _ hlist ?_).2⟩
  · rw [houtput, hlist]
    simp only [List.map_cons, ha', hb', hc', hd']
    rfl
  · rw [hinput, hlist]
    simp [Console.readings, ha, hb, hc, hd]
  · have hread : Console.readings [a, b, c] = 1 := by simp [Console.readings, ha, hb, hc]
    rw [Console.reply, hread, hd]
    rfl

end Session

end EmberLang
