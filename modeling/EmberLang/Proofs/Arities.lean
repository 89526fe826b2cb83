import EmberLang.Proofs.LexicalScope
import EmberLang.Proofs.Moments

/-!
# Data values have the fields that were declared

A data value can be built in one place only, `ConstructorTable.construct`,
which counts its fields. Values then travel – into scopes, into the scopes
of closures, into other data, to the host and back – and nothing on the
way counts again. So all data values of a run have as many fields as their
constructors were declared with, provided that what the host gives back on
its own does.

"All data values of a run" is meant in full: those in the result, in the
arguments of foreign calls, and in every scope in which some expression is
evaluated, at any depth, also where a closure has captured them
(`Value.Holds`), and whether the run has a result or fails.
-/

namespace EmberLang

/-! ## Values within values -/

mutual

/-- **A value holds another**: it is the value itself, or a field holds it,
or the scope that a closure has captured. -/
inductive Value.Holds : Value → Value → Prop
  | self {v} : Value.Holds v v
  | field {c fs f v} (mem : f ∈ fs) (holds : Value.Holds f v) : Value.Holds (.data c fs) v
  | captured {f s v} (holds : Scope.Holds s v) : Value.Holds (.closure f s) v

/-- **A scope holds a value**, in one of its bindings. -/
inductive Scope.Holds : Scope → Value → Prop
  | here {n w s v} (holds : Value.Holds w v) : Scope.Holds (.bind n w s) v
  | outer {n w s v} (holds : Scope.Holds s v) : Scope.Holds (.bind n w s) v
  | around {fs s v} (holds : Scope.Holds s v) : Scope.Holds (.functions fs s) v

end

namespace ConstructorTable

/-- **A constructor is declared with so many fields.** -/
def Declares (t : ConstructorTable) (c : Name) (k : Nat) : Prop :=
  ∃ d, t.get? c = some d ∧ d.arity = k

/-- **All data in a value is as declared**: each constructor is known, and
has as many fields as it takes. -/
def Fits (t : ConstructorTable) (v : Value) : Prop :=
  ∀ c fs, v.Holds (.data c fs) → t.Declares c fs.length

/-- All data in a scope is as declared. -/
def FitsScope (t : ConstructorTable) (s : Scope) : Prop :=
  ∀ c fs, s.Holds (.data c fs) → t.Declares c fs.length

end ConstructorTable

/-- **The discipline of arities**: any code may run, and data is built as
declared. -/
def arities (t : ConstructorTable) : Discipline where
  Code _ _ := True
  Data c k := t.Declares c k

variable {t : ConstructorTable}

mutual

/-- What is kept holds only data as declared. -/
theorem Value.Holds.declares {c : Name} {fs : List Value} : {v : Value} → v.Holds (.data c fs) →
    v.Kept (arities t) → t.Declares c fs.length
  | _, .self, hv => hv.1
  | _, .field mem holds, hv => holds.declares (Value.keptAll_iff.1 hv.2 _ mem)
  | _, .captured holds, hv => holds.declares hv.2

theorem Scope.Holds.declares {c : Name} {fs : List Value} : {s : Scope} → s.Holds (.data c fs) →
    s.Kept (arities t) → t.Declares c fs.length
  | _, .here holds, hs => holds.declares hs.1
  | _, .outer holds, hs => holds.declares hs.2
  | _, .around holds, hs => holds.declares hs.2

end

namespace ConstructorTable

mutual

theorem Fits.kept : (v : Value) → t.Fits v → v.Kept (arities t)
  | .data c fs, h => ⟨h c fs .self, Fits.keptAll fs fun _ hf c gs hg => h c gs (.field hf hg)⟩
  | .closure _ s, h => ⟨⟨trivial, trivial⟩, FitsScope.kept s fun c gs hg => h c gs (.captured hg)⟩
  | .int _, _ => trivial
  | .real _, _ => trivial
  | .bool _, _ => trivial
  | .char _, _ => trivial
  | .unit, _ => trivial

theorem Fits.keptAll : (vs : List Value) → (∀ v ∈ vs, t.Fits v) → Value.KeptAll (arities t) vs
  | [], _ => trivial
  | v :: vs, h =>
    ⟨Fits.kept v (h v List.mem_cons_self),
      Fits.keptAll vs fun w hw => h w (List.mem_cons_of_mem v hw)⟩

theorem FitsScope.kept : (s : Scope) → t.FitsScope s → s.Kept (arities t)
  | .empty, _ => trivial
  | .bind _ v s, h =>
    ⟨Fits.kept v fun c fs hv => h c fs (.here hv),
      FitsScope.kept s fun c fs hs => h c fs (.outer hs)⟩
  | .functions _ s, h =>
    ⟨fun _ _ => ⟨trivial, trivial⟩, FitsScope.kept s fun c fs hs => h c fs (.around hs)⟩

end

end ConstructorTable

/-- **A value is kept exactly if all data in it is as declared.** -/
theorem Value.kept_arities_iff {v : Value} : v.Kept (arities t) ↔ t.Fits v :=
  ⟨fun hv _ _ h => h.declares hv, ConstructorTable.Fits.kept v⟩

theorem Scope.kept_arities_iff {s : Scope} : s.Kept (arities t) ↔ t.FitsScope s :=
  ⟨fun hs _ _ h => h.declares hs, ConstructorTable.FitsScope.kept s⟩

/-! ## Runs -/

variable {σ : Type} {state : σ → Prop}

/-- **Arities are a discipline** for every program and for whatever host
keeps them. -/
theorem arities_governs {E : Engine σ} (htable : E.table = t)
    (hnatives : ∀ n ∈ E.natives, n.Keeps (arities t) (fun _ => True) state)
    (hintrinsics : ∀ i ∈ E.intrinsics.entries, i.Keeps (arities t)) :
    Governs (arities t) (fun _ => True) state E where
  fails _ _ := trivial
  checked := .inr fun _ _ => trivial
  var _ := .inr fun _ => trivial
  callee _ := .inl trivial
  callArgs _ _ _ := trivial
  intrinsicArgs _ _ _ := trivial
  directiveArgs _ _ _ := trivial
  constructArgs _ _ _ := trivial
  scrutinee _ := trivial
  arm _ _ _ _ _ _ _ _ _ _ := trivial
  letIn _ := ⟨trivial, trivial⟩
  seq _ := ⟨trivial, trivial⟩
  lambda _ := ⟨trivial, trivial⟩
  block _ _ := ⟨fun _ _ => ⟨trivial, trivial⟩, trivial⟩
  data := by
    rintro Γ p c args - d hd
    rw [htable] at hd
    exact ⟨⟨d, hd, rfl⟩, ⟨d, t.get?_name hd, rfl⟩⟩
  native := hnatives
  intrinsic := hintrinsics

namespace Session

/-- **All data of a run is as declared**: in its result, in the arguments
of all foreign calls, whatever came of the run, and in the scopes of all
its moments. -/
theorem run_dataFits (root : Node) (I I' : Interpreter σ) (state : σ → Prop)
    (hload : I.perform (load root) = (.ok (), I'))
    (hnatives : ∀ n ∈ I.natives, n.Keeps (arities I'.table) (fun _ => True) state)
    (hintrinsics : ∀ i ∈ I.intrinsics.entries, i.Keeps (arities I'.table))
    (hhost : state I.journal.host) :
    (∀ v, (I.perform (run root)).1 = .ok v → I'.table.Fits v)
      ∧ (∀ e ∈ (I.perform (run root)).2.journal.effects, ∀ v ∈ e.args, I'.table.Fits v)
      ∧ ∀ m, Visits root I m →
        I'.table.FitsScope m.scope ∧ ∀ e ∈ m.journal.effects, ∀ v ∈ e.args, I'.table.Fits v := by
  obtain ⟨p, ds, body, fs, rfl, L⟩ := loaded_of_load hload
  have G : Governs (arities I'.table) (fun _ => True) state I'.engine := by
    refine arities_governs rfl ?_ ?_
    · intro n hn
      exact hnatives n (L.natives ▸ hn)
    · intro i hi
      exact hintrinsics i (L.intrinsics ▸ hi)
  have hglobals : I'.globals.Kept (arities I'.table) := by
    rw [L.globals]
    exact ⟨fun _ _ => ⟨trivial, trivial⟩, trivial⟩
  have hjournal : I'.journal.Kept (arities I'.table) state := by
    refine ⟨?_, ?_⟩
    · rw [L.host]
      exact hhost
    · rw [L.effects]
      simp
  have heffects {j : Journal σ} (hj : j.Kept (arities I'.table) state) :
      ∀ e ∈ j.effects, ∀ v ∈ e.args, I'.table.Fits v := fun e he v hv =>
    Value.kept_arities_iff.1 (Value.keptAll_iff.1 (hj.effects e he) v hv)
  obtain ⟨hfinal, hresult, -⟩ := run_of_load hload G hglobals hjournal fun _ _ _ => trivial
  refine ⟨fun v hv => Value.kept_arities_iff.1 (hresult v hv), heffects hfinal, ?_⟩
  rintro m ⟨I'', q, ds', body', hload', ⟨⟩, hreach⟩
  obtain rfl := (Prod.mk.inj (hload.symm.trans hload')).2
  have hm := Moment.kept_of_reaches G (fun _ => trivial) hreach ⟨hglobals, trivial, hjournal⟩
  exact ⟨Scope.kept_arities_iff.1 hm.scope, heffects hm.journal⟩

/-- A program that builds data in a closure over data, and leaves the
call of the closure to the host. -/
def pairingProgram : Node :=
  .program none
    [.dataDecl none "Pair" [] [.constructorDecl none "Pair" [.absent, .absent]],
      .externDecl none "apply" [] [.absent, .absent] .absent]
    (.caseOf none (.construct none "Pair" [.literal none (.int 1), .unit none])
      [.arm none (.patternCtor none "Pair" [.patternVar none "x", .patternWild none])
        (.call none (.var none "apply")
          [.lambda none ["y"]
            (.construct none "Pair" [.var none "x", .lambda none ["z"] (.var none "y")]),
            .construct none "Pair" [.var none "x", .literal none (.int 2)]])])

/-- The result is data and holds, in a closure, more data. -/
theorem run_pairingProgram_dataFits :
    ∃ I' v, Interpreter.perform { natives := [applyNative], journal := { host := () } }
        (load pairingProgram) = (.ok (), I')
      ∧ (Interpreter.perform { natives := [applyNative], journal := { host := () } }
        (run pairingProgram)).1 = .ok v
      ∧ v.Holds (.data "Pair" [.int 1, .int 2]) ∧ I'.table.Fits v
      ∧ ∀ m, Visits pairingProgram { natives := [applyNative], journal := { host := () } } m →
        I'.table.FitsScope m.scope := by
  let I : Interpreter Unit := { natives := [applyNative], journal := { host := () } }
  have hload : (I.perform (load pairingProgram)).1 = .ok () := by decide +kernel
  have hrun : (I.perform (run pairingProgram)).1 = .ok (.data "Pair" [.int 1,
      .closure ⟨"<fn>", ["z"], .var none "y"⟩ (.bind "y" (.data "Pair" [.int 1, .int 2])
        (.bind "x" (.int 1) (.functions [] .empty)))]) := by cbv
  have hnatives {D : Discipline} : ∀ n ∈ I.natives, n.Keeps D (fun _ => True) fun _ => True := by
    intro n hn
    obtain rfl := List.mem_singleton.1 hn
    exact keeps_applyNative
  obtain ⟨hresult, -, hvisits⟩ := run_dataFits pairingProgram I _ (fun _ => True)
    (Prod.ext hload rfl) hnatives IntrinsicTable.keeps_standard trivial
  refine ⟨_, _, Prod.ext hload rfl, hrun, ?_, hresult _ hrun, fun m hm => (hvisits m hm).1⟩
  exact .field (List.mem_cons_of_mem _ List.mem_cons_self) (.captured (.here .self))

end Session

end EmberLang
