import EmberLang.Value

/-!
# What happens while a program runs

A run is a computation that may fail and that keeps a journal: the state
of the host, the foreign calls begun so far, what the observer of the
host was told of them, and the lines of the trace. The journal outlives a
failure, so that it is known what had happened when a run failed.

Foreign calls enter the journal before the function of the host does
anything.
-/

namespace EmberLang

/-- **A foreign call**: what was called, with what arguments, and whether
only for its effect. -/
structure Effect where
  /-- The name of the function. -/
  name : String
  /-- Its arguments. -/
  args : List Value
  /-- Whether it stood as a directive. -/
  directive : Bool

/-- **A line of a trace**, with the level of detail from which on it is
written. -/
structure TraceLine where
  /-- The level. -/
  level : Nat
  /-- The text. -/
  text : String
  deriving DecidableEq, Repr

/-- **The journal of a run**, over a host with states of type `σ`. -/
structure Journal (σ : Type) where
  /-- The state of the host. -/
  host : σ
  /-- The foreign calls, in the order in which they began. -/
  effects : Array Effect := #[]
  /-- The foreign calls that the observer was told of. -/
  observed : Array Effect := #[]
  /-- The trace. -/
  trace : Array TraceLine := #[]

/-- **A computation that keeps a journal and may fail.** -/
abbrev Run (σ : Type) := ExceptT Failure (StateM (Journal σ))

namespace Run

variable {σ α : Type}

/-- The state of the host. -/
def host : Run σ σ := do return (← get).host

/-- Hands a state to the host. -/
def setHost (state : σ) : Run σ Unit := modify fun j => { j with host := state }

/-- Enters a foreign call into the journal, and tells the observer. -/
def record (effect : Effect) : Run σ Unit :=
  modify fun j =>
    { j with effects := j.effects.push effect, observed := j.observed.push effect }

/-- Writes a line of the trace. -/
def write (line : TraceLine) : Run σ Unit :=
  modify fun j => { j with trace := j.trace.push line }

/-- The outcome of a computation, failures included. What it did to the
journal stays. -/
def attempt (m : Run σ α) : Run σ (Except Failure α) := fun j =>
  let (outcome, j) := m.run j
  (.ok outcome, j)

/-- A step that keeps no journal. -/
def lift (outcome : Except Failure α) : Run σ α :=
  match outcome with
  | .ok a => return a
  | .error f => throw f

/-! What the steps do to a journal. -/

@[simp]
theorem run_host (j : Journal σ) : (host : Run σ σ).run j = (.ok j.host, j) := rfl

@[simp]
theorem run_setHost (state : σ) (j : Journal σ) :
    (setHost state).run j = (.ok (), { j with host := state }) := rfl

@[simp]
theorem run_record (effect : Effect) (j : Journal σ) :
    (record effect).run j = (.ok (), { j with
      effects := j.effects.push effect, observed := j.observed.push effect }) := rfl

@[simp]
theorem run_write (line : TraceLine) (j : Journal σ) :
    (write line).run j = (.ok (), { j with trace := j.trace.push line }) := rfl

@[simp]
theorem run_attempt (m : Run σ α) (j : Journal σ) :
    (attempt m).run j = (.ok (m.run j).1, (m.run j).2) := rfl

@[simp]
theorem run_lift (outcome : Except Failure α) (j : Journal σ) :
    (lift outcome : Run σ α).run j = (outcome, j) := by
  cases outcome <;> rfl

end Run

end EmberLang
