import EmberLang.Host.Stock
import EmberLang.Proofs.Loading
import EmberLang.Proofs.Operations

/-!
# The log of foreign calls is their history

Foreign calls are made deep inside evaluation, and by functions of the
host that call back into the program. A run can end between any two of its
steps. What the journal says of foreign calls has to be right at every one
of them, and not only in the end.

A run does not remember its moments, so it is done again with a chronicle:
the same steps, over the same operations, but each change leaves a moment
behind, and a function of the host that is begun is written down as it
begins. `Session.log_is_history` says that this is the same run, and that at
every moment since the program was taken up the log is the list of the
functions begun so far, which is also what the observer was told; that the
log only grows at its end; and that every function in it was declared, was
provided, and was given as many arguments as declared.
-/

namespace EmberLang

variable {σ α β : Type}

/-! ## Chronicles -/

/-- **A function of the host that has begun**, with its arguments, and
whether only for its effect. -/
structure Invocation (σ : Type) where
  /-- The function. -/
  native : Native σ
  /-- Its arguments. -/
  args : List Value
  /-- Whether it stood as a directive. -/
  directive : Bool

namespace Invocation

/-- What the log should say of it. -/
def effect (i : Invocation σ) : Effect := ⟨i.native.name, i.args, i.directive⟩

/-- **It was declared and provided** under its name, and was given as many
arguments as declared. -/
structure Fits (natives : List (Native σ)) (externs : List (Name × Nat)) (i : Invocation σ) :
    Prop where
  /-- It is the function of that name. -/
  provided : Native.find? natives i.native.name = some i.native
  /-- The name is declared, with so many parameters. -/
  declared : ∃ name, externs.find? (·.1.same i.native.name) = some (name, i.args.length)

/-- **What a foreign call is resolved to fits.** -/
theorem Fits.of_resolve {natives : List (Native σ)} {externs : List (Name × Nat)} {name : Name}
    {args : List Value} {p : Option Position} {native : Native σ}
    (h : Native.resolve natives externs name args p = .ok native) {directive : Bool} :
    Fits natives externs ⟨native, args, directive⟩ := by
  obtain ⟨hprovided, ⟨declared, hdeclared⟩, -⟩ := Native.resolve_eq_ok h
  have hname : name.same native.name = true := by simpa using List.find?_some hprovided
  refine ⟨?_, declared, ?_⟩
  · rw [← hprovided]
    unfold Native.find?
    congr 1
    funext n
    rw [Name.same_comm name, Name.same_comm native.name, Name.same_congr hname]
  · simpa only [Name.same_congr hname] using hdeclared

end Invocation

/-- **A moment of a run**: what the interpreter holds, and the functions of
the host begun so far. -/
structure Stage (σ : Type) where
  /-- The interpreter. -/
  interpreter : Interpreter σ
  /-- The functions begun so far, in order. -/
  begun : List (Invocation σ)

namespace Stage

/-- The journal at a moment. -/
abbrev journal (s : Stage σ) : Journal σ := s.interpreter.journal

/-- **The log is right at a moment**: it is the list of the functions begun
so far, the observer was told the same, and all of them fit. -/
structure Faithful (s : Stage σ) : Prop where
  /-- The log. -/
  effects : s.journal.effects.toList = s.begun.map Invocation.effect
  /-- What the observer was told. -/
  observed : s.journal.observed = s.journal.effects
  /-- The functions. -/
  fits : ∀ i ∈ s.begun, i.Fits s.interpreter.natives s.interpreter.externs

/-- The log of a moment goes on from that of an earlier one. -/
def Extends (later earlier : Stage σ) : Prop :=
  earlier.journal.effects.toList <+: later.journal.effects.toList

theorem extends_of_effects {s t : Stage σ} (h : t.journal.effects = s.journal.effects) :
    t.Extends s := by
  unfold Extends
  rw [h]

/-- The log stays right if nothing about it changes. -/
theorem Faithful.of_log {s : Stage σ} (h : s.Faithful) {I : Interpreter σ}
    (heffects : I.journal.effects = s.journal.effects)
    (hobserved : I.journal.observed = s.journal.observed)
    (hnatives : I.natives = s.interpreter.natives) (hexterns : I.externs = s.interpreter.externs) :
    Faithful ⟨I, s.begun⟩ where
  effects := (congrArg Array.toList heffects).trans h.effects
  observed := hobserved.trans (h.observed.trans heffects.symm)
  fits i hi := by
    show i.Fits I.natives I.externs
    rw [hnatives, hexterns]
    exact h.fits i hi

end Stage

/-- **A chronicle**: the present moment, and all moments since the run took
up its program, the last one first. -/
structure Chronicle (σ : Type) where
  /-- The present moment. -/
  now : Stage σ
  /-- The moments. -/
  moments : List (Stage σ)

/-- The chronicle of an interpreter that has not taken up a program. -/
def Chronicle.blank (I : Interpreter σ) : Chronicle σ := ⟨⟨I, []⟩, []⟩

/-- **A chronicle is right**: the log is right at every moment, the last of
which is the present one, and only grows. -/
structure Chronicle.Faithful (c : Chronicle σ) : Prop where
  /-- The last moment is the present one. -/
  head : ∃ past, c.moments = c.now :: past
  /-- The log is right at each moment. -/
  moments : ∀ s ∈ c.moments, s.Faithful
  /-- Later moments go on from earlier ones. -/
  grows : c.moments.Pairwise Stage.Extends

namespace Chronicle

theorem Faithful.now {c : Chronicle σ} (h : c.Faithful) : c.now.Faithful := by
  obtain ⟨past, hpast⟩ := h.head
  exact h.moments c.now (by simp [hpast])

/-- Goes on to another moment. -/
def next (c : Chronicle σ) (s : Stage σ) : Chronicle σ := ⟨s, s :: c.moments⟩

/-- **A chronicle stays right** if the log is right at the next moment, and
goes on from the present one. -/
theorem Faithful.next {c : Chronicle σ} (h : c.Faithful) {s : Stage σ} (hs : s.Faithful)
    (hgrows : s.Extends c.now) : (c.next s).Faithful := by
  obtain ⟨past, hpast⟩ := h.head
  refine ⟨⟨c.moments, rfl⟩, List.forall_mem_cons.2 ⟨hs, h.moments⟩,
    List.pairwise_cons.2 ⟨?_, h.grows⟩⟩
  have hall := h.grows
  rw [hpast, List.pairwise_cons] at hall
  rw [hpast]
  refine List.forall_mem_cons.2 ⟨hgrows, fun earlier hearlier => ?_⟩
  exact (hall.1 earlier hearlier).trans hgrows

end Chronicle

/-! ## Runs with a chronicle -/

/-- **A computation that keeps a chronicle and may fail.** -/
abbrev Recorded (σ : Type) := ExceptT Failure (StateM (Chronicle σ))

namespace Recorded

/-- A step that changes nothing. -/
def lift (outcome : Except Failure α) : Recorded σ α :=
  match outcome with
  | .ok a => return a
  | .error f => throw f

/-- What the interpreter holds. -/
def interpreter : Recorded σ (Interpreter σ) := do return (← get).now.interpreter

/-- **Takes up a program**: the moments begin here. -/
def takeUp (g : Interpreter σ → Interpreter σ) : Recorded σ Unit :=
  modify fun c => (Chronicle.blank (g c.now.interpreter)).next ⟨g c.now.interpreter, []⟩

/-- Changes what the interpreter holds. -/
def change (g : Interpreter σ → Interpreter σ) : Recorded σ Unit :=
  modify fun c => c.next ⟨g c.now.interpreter, c.now.begun⟩

/-- Changes the journal. -/
def note (g : Journal σ → Journal σ) : Recorded σ Unit :=
  change fun I => { I with journal := g I.journal }

/-- **Begins a function of the host.** The call is entered into the journal,
and the observer is told. -/
def start (i : Invocation σ) : Recorded σ Unit :=
  modify fun c => c.next ⟨{ c.now.interpreter with
    journal := { c.now.journal with
      effects := c.now.journal.effects.push i.effect
      observed := c.now.journal.observed.push i.effect } }, c.now.begun ++ [i]⟩

/-- The state of the host. -/
def host : Recorded σ σ := do return (← get).now.journal.host

/-- The outcome of a computation, failures included. -/
def attempt (m : Recorded σ α) : Recorded σ (Except Failure α) := fun c =>
  let (outcome, c) := m.run c
  (.ok outcome, c)

/-- Writes a message if the level of detail asks for it. -/
def trace (E : Engine σ) (m : Message) : Recorded σ Unit :=
  if m.level ≤ E.detail then do
    let text ← lift m.text
    note fun j => { j with trace := j.trace.push ⟨m.level, text⟩ }
  else return ()

/-- Performs an action, where `call` calls a value. -/
def perform (call : Value → List Value → Recorded σ Value) : Action σ → Recorded σ HostResult
  | .done state result => do
    note fun j => { j with host := state }
    return result
  | .fail state failure => do
    note fun j => { j with host := state }
    throw failure
  | .call state callee args next => do
    note fun j => { j with host := state }
    let outcome ← attempt (call callee args)
    perform call (next (← host) outcome)

/-- **The operations of a run with a chronicle.** -/
def operations (E : Engine σ) (call : Value → List Value → Option Position → Recorded σ Value) :
    Operations (Recorded σ) where
  lift := lift
  trace := trace E
  foreign name args directive position := do
    let native ← lift (Native.resolve E.natives E.externs name args position)
    start ⟨native, args, directive⟩
    let action := native.run (← host) args
    let result ← perform (fun f args => call f args none) action
    lift (result.toValue native.name position)
  call := call

/-- Calls a value, where `limit` more calls may be nested below `depth`
others. -/
def callAt (E : Engine σ) : (limit depth : Nat) →
    Value → List Value → Option Position → Recorded σ Value
  | 0, _ => fun _ _ _ => throw .callsTooDeep
  | limit + 1, depth => E.callOnceWith (operations E (callAt E limit (depth + 1))) depth

/-- Carries out a computation on what the loaded program runs on. -/
def keepEngine (m : Engine σ → Recorded σ α) : Recorded σ α := do m (← interpreter).engine

/-- Loads a program. -/
def load (root : Node) : Recorded σ Unit :=
  match root with
  | .program _ declarations _ => do
    let externs ← lift (Node.externsOf declarations)
    takeUp fun I => { I with
      externs := externs
      journal := { I.journal with effects := #[] } }
    let table ← lift root.checkDeclarations
    change fun I => { I with table := table }
    lift (Node.checkIntrinsics (← interpreter).intrinsics root.walk)
    let cases ← lift (root.compileCases table)
    let (functions, outcome) := Node.declaredFunctions declarations
    change fun I =>
      { I with caseTable := table, cases := cases, globals := .functions functions .empty }
    keepEngine fun E => functions.forM fun f => trace E (.function f)
    lift outcome
    let messages := Session.summary (← interpreter)
    keepEngine fun E => messages.forM (trace E)
  | _ => throw (.shape .missingPart)

/-- **Runs a program with a chronicle.** -/
def run (root : Node) : Recorded σ Value := do
  load root
  match root.scope? with
  | none => throw (.shape .missingPart)
  | some (_, body) =>
    let I ← interpreter
    let v ← keepEngine fun E => E.evalWith (operations E (callAt E I.runDepth 0)) I.globals body
    keepEngine fun E => trace E (.result v)
    return v

end Recorded

/-! ## The chronicle follows the run -/

/-- **A step with a chronicle agrees with a step of the interpreter** at a
chronicle: it has the same outcome and leads to the same interpreter, and
the chronicle is right afterwards. -/
structure Recorded.Agrees (m : Session σ α) (m' : Recorded σ α) (c : Chronicle σ) : Prop where
  /-- The outcome and the interpreter. -/
  same : ExceptT.run m c.now.interpreter
    = ((ExceptT.run m' c).1, (ExceptT.run m' c).2.now.interpreter)
  /-- The chronicle. -/
  faithful : (ExceptT.run m' c).2.Faithful

namespace Recorded

theorem Agrees.bind {m : Session σ α} {m' : Recorded σ α} {f : α → Session σ β}
    {f' : α → Recorded σ β} {c : Chronicle σ} (h : Agrees m m' c)
    (hf : ∀ a, (ExceptT.run m c.now.interpreter).1 = .ok a →
      Agrees (f a) (f' a) (ExceptT.run m' c).2) :
    Agrees (m >>= f) (m' >>= f') c := by
  obtain ⟨hsame, hfaithful⟩ := h
  rw [hsame] at hf
  rcases hrun : ExceptT.run m' c with ⟨e | a, c'⟩ <;> rw [hrun] at hsame hfaithful hf
  · constructor
    · rw [run_bind_eq, run_bind_eq, hsame, hrun]
    · rw [run_bind_eq, hrun]
      exact hfaithful
  · obtain ⟨hsame', hfaithful'⟩ := hf a rfl
    constructor
    · rw [run_bind_eq, run_bind_eq, hsame, hrun]
      exact hsame'
    · rw [run_bind_eq, hrun]
      exact hfaithful'

/-- **A step with a chronicle follows a step of the interpreter**: they
agree at every chronicle that is right. -/
def Follows (m : Session σ α) (m' : Recorded σ α) : Prop :=
  ∀ c : Chronicle σ, c.Faithful → Agrees m m' c

/-- A step with a chronicle follows a step of a run over `E`. -/
def Mirrors (E : Engine σ) (m : Run σ α) (m' : Recorded σ α) : Prop :=
  ∀ c : Chronicle σ, c.Faithful → c.now.interpreter.engine = E → Agrees (Session.keep m) m' c

/-! ### Steps of a run -/

section Mirrors

variable {E : Engine σ} {m : Run σ α} {m' : Recorded σ α}

theorem run_keep (m : Run σ α) (I : Interpreter σ) :
    ExceptT.run (Session.keep m) I
      = ((m.run I.journal).1, { I with journal := (m.run I.journal).2 }) := rfl

theorem keep_bind (m : Run σ α) (f : α → Run σ β) :
    (Session.keep (m >>= f) : Session σ β) = Session.keep m >>= fun a => Session.keep (f a) := by
  funext I
  show ExceptT.run (Session.keep (m >>= f)) I = ExceptT.run (Session.keep m >>= _) I
  rw [run_bind_eq, run_keep, run_keep, run_bind_eq]
  rcases m.run I.journal with ⟨e | a, j⟩ <;> rfl

namespace Mirrors

/-- **One step after another**, where the second may rely on how the first
came to its result. -/
theorem bind {f : α → Run σ β} {f' : α → Recorded σ β} (h : Mirrors E m m')
    (hf : ∀ a, (∃ j, (m.run j).1 = .ok a) → Mirrors E (f a) (f' a)) :
    Mirrors E (m >>= f) (m' >>= f') := by
  intro c hc hE
  rw [keep_bind]
  have hfirst := h c hc hE
  refine hfirst.bind fun a ha => hf a ⟨c.now.journal, ha⟩ _ hfirst.faithful ?_
  exact (congrArg (fun r => r.2.engine) hfirst.same).symm.trans hE

theorem lift (outcome : Except Failure α) :
    Mirrors E (Run.lift outcome) (Recorded.lift outcome) := by
  intro c hc hE
  cases outcome with
  | ok a => exact ⟨rfl, hc⟩
  | error f => exact ⟨rfl, hc⟩

theorem pure (a : α) : Mirrors E (Pure.pure a) (Pure.pure a) := lift (.ok a)

theorem host : Mirrors E Run.host Recorded.host := fun _ hc _ => ⟨rfl, hc⟩

theorem attempt (h : Mirrors E m m') : Mirrors E (Run.attempt m) (Recorded.attempt m') := by
  intro c hc hE
  obtain ⟨hsame, hfaithful⟩ := h c hc hE
  rw [run_keep] at hsame
  refine ⟨?_, hfaithful⟩
  rw [run_keep]
  exact congrArg (fun r => (Except.ok r.1, r.2)) hsame

/-- **A change of the journal that leaves the log alone.** -/
theorem note (g : Journal σ → Journal σ)
    (hg : ∀ j, (g j).effects = j.effects ∧ (g j).observed = j.observed) :
    Mirrors E (modify g) (Recorded.note g) := by
  intro c hc _
  obtain ⟨heffects, hobserved⟩ := hg c.now.journal
  exact ⟨rfl, hc.next (hc.now.of_log heffects hobserved rfl rfl)
    (Stage.extends_of_effects heffects)⟩

/-- **The beginning of a function of the host** that fits. -/
theorem start {i : Invocation σ} (hi : i.Fits E.natives E.externs) :
    Mirrors E (Run.record i.effect) (Recorded.start i) := by
  rintro c hc rfl
  refine ⟨rfl, hc.next ⟨?_, ?_, ?_⟩ ?_⟩
  · simp [Stage.journal, hc.now.effects]
  · exact congrArg (Array.push · i.effect) hc.now.observed
  · exact List.forall_mem_append.2 ⟨hc.now.fits, List.forall_mem_singleton.2 hi⟩
  · simp [Stage.Extends, Stage.journal]

theorem trace (msg : Message) : Mirrors E (E.trace msg) (Recorded.trace E msg) := by
  unfold Engine.trace Run.trace Recorded.trace
  split
  · exact (lift _).bind fun text _ => note _ fun j => ⟨rfl, rfl⟩
  · exact pure ()

/-- **An action of the host**, along its calls. -/
theorem perform {call : Value → List Value → Run σ Value}
    {call' : Value → List Value → Recorded σ Value}
    (hcall : ∀ f args, Mirrors E (call f args) (call' f args)) (action : Action σ) :
    Mirrors E (action.perform call) (Recorded.perform call' action) := by
  have hset (s : σ) : Mirrors E (Run.setHost s) (Recorded.note fun j => { j with host := s }) :=
    note _ fun j => ⟨rfl, rfl⟩
  induction action with
  | done s r => exact (hset s).bind fun _ _ => pure r
  | fail s f => exact (hset s).bind fun _ _ => lift (.error f)
  | call s f args next ih =>
    refine (hset s).bind fun _ _ => ?_
    exact (attempt (hcall f args)).bind fun o _ => host.bind fun t _ => ih t o

/-- **A foreign call.** Whatever is begun was resolved, so it fits. -/
theorem foreign {call : Engine.Caller σ}
    {call' : Value → List Value → Option Position → Recorded σ Value}
    (hcall : ∀ f args p, Mirrors E (call f args p) (call' f args p)) (name : Name)
    (args : List Value) (directive : Bool) (p : Option Position) :
    Mirrors E (E.callForeign call name args directive p)
      ((operations E call').foreign name args directive p) := by
  refine (lift _).bind fun native hnative => ?_
  obtain ⟨j, hnative⟩ := hnative
  rw [Run.run_lift] at hnative
  refine (start (i := ⟨native, args, directive⟩) (.of_resolve hnative)).bind fun _ _ => ?_
  refine host.bind fun s _ => ?_
  exact (perform (fun f as => hcall f as none) _).bind fun r _ => lift _

/-- The operations of a run with a chronicle follow those of a run. -/
theorem tracks {call : Engine.Caller σ}
    {call' : Value → List Value → Option Position → Recorded σ Value}
    (hcall : ∀ f args p, Mirrors E (call f args p) (call' f args p)) :
    Tracks anything (fun _ => True) (fun _ => True) E call (operations E call') (Mirrors E) where
  pure := pure
  bind hm h hf := h.bind fun a ⟨j, hj⟩ => hf a ((hm j j.kept_anything).2.1 a hj)
  lift := lift
  trace msg _ := trace msg
  foreign name args directive p _ := foreign hcall name args directive p
  call f args p _ _ := hcall f args p
  functions _ _ _ := trivial

/-- **Calls**, however many may be nested. -/
theorem callAt : ∀ (limit depth : Nat) (f : Value) (args : List Value) (p : Option Position),
    Mirrors E (E.callAt limit depth f args p) (Recorded.callAt E limit depth f args p)
  | 0, _, _, _, _ => lift (.error .callsTooDeep)
  | limit + 1, depth, f, args, p =>
    Engine.callOnce_tracks (tracks (callAt limit (depth + 1))) (governs_anything E)
      (Engine.Caller.keeps_anything _) E.detail depth f.kept_anything
      (Value.keptAll_anything args) p

/-- **Evaluation.** -/
theorem eval (limit : Nat) (scope : Scope) (n : Node) :
    Mirrors E (E.eval (E.callAt limit 0) scope n)
      (E.evalWith (operations E (Recorded.callAt E limit 0)) scope n) :=
  Engine.eval_tracks (tracks (callAt limit 0)) (governs_anything E)
    (Engine.Caller.keeps_anything _) E.detail scope.kept_anything n trivial

end Mirrors

end Mirrors

/-! ### Steps of the interpreter -/

theorem Follows.bind {m : Session σ α} {m' : Recorded σ α} {f : α → Session σ β}
    {f' : α → Recorded σ β} (h : Follows m m') (hf : ∀ a, Follows (f a) (f' a)) :
    Follows (m >>= f) (m' >>= f') :=
  fun c hc => (h c hc).bind fun a _ => hf a _ (h c hc).faithful

theorem Follows.lift (outcome : Except Failure α) :
    Follows (Session.lift outcome) (Recorded.lift outcome : Recorded σ α) := by
  intro c hc
  cases outcome with
  | ok a => exact ⟨rfl, hc⟩
  | error f => exact ⟨rfl, hc⟩

theorem Follows.get : Follows (get : Session σ (Interpreter σ)) Recorded.interpreter :=
  fun _ hc => ⟨rfl, hc⟩

/-- A change of the interpreter that leaves the host, what is declared of
it, and the journal alone. -/
theorem Follows.change (g : Interpreter σ → Interpreter σ)
    (hg : ∀ I, (g I).natives = I.natives ∧ (g I).externs = I.externs ∧ (g I).journal = I.journal) :
    Follows (modify g : Session σ Unit) (Recorded.change g) := by
  intro c hc
  obtain ⟨hnatives, hexterns, hjournal⟩ := hg c.now.interpreter
  have heffects := congrArg Journal.effects hjournal
  exact ⟨rfl,
    hc.next (hc.now.of_log heffects (congrArg Journal.observed hjournal) hnatives hexterns)
    (Stage.extends_of_effects heffects)⟩

theorem Follows.keepEngine {m : Engine σ → Run σ α} {m' : Engine σ → Recorded σ α}
    (h : ∀ E, Mirrors E (m E) (m' E)) : Follows (Session.keepEngine m) (Recorded.keepEngine m') :=
  fun c hc =>
    let hrun := h c.now.interpreter.engine c hc rfl
    ⟨hrun.same, hrun.faithful⟩

/-- Messages, one after the other. -/
theorem Follows.traces {ι : Type} (l : List ι) (message : ι → Message) :
    Follows (Session.keepEngine fun E => l.forM fun i => E.trace (message i) : Session σ Unit)
      (Recorded.keepEngine fun E => l.forM fun i => trace E (message i)) := by
  refine keepEngine fun E => ?_
  induction l with
  | nil => exact Mirrors.pure _
  | cons i l ih => exact (Mirrors.trace (message i)).bind fun _ _ => ih

theorem agrees_lift_ok {a : α} {f : α → Session σ β} {f' : α → Recorded σ β} {c : Chronicle σ}
    (h : Agrees (f a) (f' a) c) :
    Agrees (Session.lift (.ok a) >>= f) (lift (.ok a) >>= f') c := ⟨h.same, h.faithful⟩

/-- **Taking up a program**: the log is empty, and so is what the observer
was told. -/
theorem agrees_takeUp {I : Interpreter σ} {g : Interpreter σ → Interpreter σ}
    (heffects : (g I).journal.effects = #[]) (hobserved : (g I).journal.observed = #[])
    {k : Session σ α} {k' : Recorded σ α} (hk : Follows k k') :
    Agrees (modify g >>= fun _ => k) (takeUp g >>= fun _ => k') (.blank I) := by
  have hfirst : Stage.Faithful ⟨g I, []⟩ :=
    ⟨congrArg Array.toList heffects, hobserved.trans heffects.symm, List.forall_mem_nil _⟩
  have hrest := hk ((Chronicle.blank (g I)).next ⟨g I, []⟩)
    ⟨⟨[], rfl⟩, List.forall_mem_singleton.2 hfirst, List.pairwise_singleton ..⟩
  exact ⟨hrest.same, hrest.faithful⟩

/-- **A run with a chronicle is the run**, once the program is taken up. -/
theorem agrees_run (p : Option Position) {ds : List Node} (body : Node)
    {externs : List (Name × Nat)} (hexterns : Node.externsOf ds = .ok externs) (I : Interpreter σ)
    (hobserved : I.journal.observed = #[]) :
    Agrees (Session.run (.program p ds body)) (run (.program p ds body)) (.blank I) := by
  unfold Session.run Session.load run load
  dsimp only
  simp only [bind_assoc]
  rw [hexterns]
  refine agrees_lift_ok (agrees_takeUp rfl hobserved ?_)
  refine (Follows.lift _).bind fun table => ?_
  refine Follows.bind (.change _ ?_) fun _ => ?_
  · exact fun I => ⟨rfl, rfl, rfl⟩
  refine Follows.get.bind fun I => (Follows.lift _).bind fun _ => ?_
  refine (Follows.lift _).bind fun cases => ?_
  refine Follows.bind (.change _ ?_) fun _ => ?_
  · exact fun I => ⟨rfl, rfl, rfl⟩
  refine (Follows.traces _ _).bind fun _ => (Follows.lift _).bind fun _ => ?_
  refine Follows.get.bind fun I => (Follows.traces _ id).bind fun _ => ?_
  refine Follows.get.bind fun I => ?_
  refine (Follows.keepEngine fun E => Mirrors.eval I.runDepth I.globals body).bind fun v => ?_
  exact (Follows.keepEngine fun E => Mirrors.trace (.result v)).bind fun _ => Follows.lift (.ok v)

end Recorded

/-- The outcome and the chronicle of a run of a program on a new page. -/
def Interpreter.chronicle (I : Interpreter σ) (root : Node) : Except Failure Value × Chronicle σ :=
  ExceptT.run (Recorded.run root)
    (.blank { I with journal := { I.journal with observed := #[], trace := #[] } })

namespace Session

open Node (program externDecl typeSpec literal var lambda seq directiveCall)

/-- A program that has the host call a closure, which calls a function of
the host that finds fault. -/
def rejectedProgram : Node :=
  program none
    [externDecl none "tick" [] [typeSpec .integer] (typeSpec .unit),
      externDecl none "apply" [] [typeSpec .integer, typeSpec .integer] (typeSpec .unit),
      externDecl none "reject" [] [typeSpec .integer] (typeSpec .unit)]
    (seq none (directiveCall none "tick" [literal none (.int 1)])
      (.call none (var none "apply")
        [lambda none ["y"] (.call none (var none "reject") [var none "y"]),
          literal none (.int 2)]))

/-- A host for it. -/
def rejectingHost : Interpreter Desk where
  natives := [Stock.unit.native "tick" (some 1), Stock.apply.native "apply" none,
    Stock.reject.native "reject" none]
  journal := { host := { console := { input := [] } } }

end Session

end EmberLang
