import EmberLang.Proofs.Parallel
import EmberLang.Proofs.Parting

/-!
# The limit of nested calls only cuts runs short

A call that would nest too deeply fails, and this failure ends the run
unless a function of the host catches it. So of two runs of one program
with different limits, the one with the lower limit does what the other
does until it is cut short, if it is: then what it has written down is the
beginning of what the other writes down.

The cut can fall anywhere – in an argument, in an arm, in a call that a
function of the host has made. It is one of the failures by which two runs
may part (`EmberLang.Proofs.Parting`), and nothing else is asked of the
program. Loading makes no calls, so that the two runs do the same until
evaluation begins.
-/

namespace EmberLang

variable {σ : Type}

/-- **A cut**: one run fails because calls nest too deeply, and both write
the same trace. -/
def Parting.cut (output : σ → List Char) : Parting σ where
  failure := .callsTooDeep
  lines := id
  output := output

theorem Parting.allows_cut {output : σ → List Char} {E : Engine σ}
    (hnatives : ∀ n ∈ E.natives, n.LetsThrough (· = .callsTooDeep) ∧ n.Appends output) :
    (Parting.cut output).Allows anything (fun _ => True) E E.detail where
  natives := hnatives
  trace m _ := ⟨fun j _ => .of_trace E m j, fun _ _ => .inl rfl⟩
  functions _ _ _ := trivial

/-- **A run of a program with a limit of its own.** -/
def Interpreter.runWithin (I : Interpreter σ) (limit : Int) (root : Node) :
    Except Failure Value × Interpreter σ :=
  Interpreter.perform { I with maxDepth := limit } (Session.run root)

namespace Session

/-- Interpreters that differ in their limit load in parallel. -/
theorem parallel_maxDepth (limit : Int) :
    Parallel (fun _ => True) fun I I' : Interpreter σ => I' = { I with maxDepth := limit } where
  intrinsics := by
    rintro I _ rfl
    rfl
  summary := by
    rintro I _ rfl
    rfl
  externs := by
    rintro I _ externs rfl
    rfl
  table := by
    rintro I _ table rfl
    rfl
  compiled := by
    rintro I _ table cases globals rfl
    rfl
  traces := by
    rintro ι l message - I _ rfl
    exact ⟨rfl, .refl (fun _ => rfl) (fun _ => trivial) _⟩
  texts _ _ := trivial

open Node (program externDecl funDecl typeSpec unit var seq lambda directiveCall)

/-- A function that writes a line and has the host call it again. -/
def endlessProgram : Node :=
  program none
    [externDecl none "print_unit" [] [typeSpec .unit] (typeSpec .unit),
      externDecl none "apply" [] [typeSpec .unit] (typeSpec .unit),
      funDecl none "again" [] []
        (seq none (directiveCall none "print_unit" [unit none])
          (.call none (var none "apply") [var none "again"])) (typeSpec .unit)]
    (.call none (var none "again") [])

/-- A function that writes a line, called once by the host. -/
def calledBackProgram : Node :=
  program none
    [externDecl none "print_unit" [] [typeSpec .unit] (typeSpec .unit),
      externDecl none "apply" [] [typeSpec .unit] (typeSpec .unit)]
    (.call none (var none "apply")
      [lambda none [] (directiveCall none "print_unit" [unit none])])

/-- A host for both. -/
def callingDesk : Interpreter Desk where
  natives := Stock.apply.native "apply" none :: Desk.consoleNatives
  journal := { host := { console := { input := [] } } }

end Session

end EmberLang
