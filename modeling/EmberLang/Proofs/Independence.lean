import EmberLang.Proofs.LexicalScope

/-!
# Runs do not remember each other

An interpreter outlives its runs. What a program has declared stays in it,
and is replaced piece by piece when the next program is loaded: first the
foreign functions, then the constructors, then the cases and the functions.
A program that is refused half way leaves a mixture behind, the foreign
functions of one program beside the constructors of another.

No later run can tell. Loading reads nothing that an earlier program has
left, and by the time it has come to an end it has replaced everything, so
from there on both runs are the same run (`Session.load_fresh`). What is
left of an interpreter is what it was made with, and this no step changes.
The main result says so for every history: any number of runs, each with a
result, refused while it was loaded, or failed on its way.

A program is here any tree at the root of which a program stands. The
foreign calls of the last run are forgotten as soon as the foreign
functions of the next program are known, and for this their names have to
be words.
-/

namespace EmberLang

variable {σ : Type}

namespace Interpreter

/-- **A new interpreter** with the same functions of the host, intrinsics,
level of detail and depth of calls, and a host in the given state. -/
def fresh (I : Interpreter σ) (host : σ) : Interpreter σ where
  natives := I.natives
  intrinsics := I.intrinsics
  detail := I.detail
  maxDepth := I.maxDepth
  journal := { host := host }

/-- **The interpreter after some runs**, whatever came of them. -/
def afterRuns (I : Interpreter σ) (history : List Node) : Interpreter σ :=
  history.foldl (fun K root => (K.perform (Session.run root)).2) I

end Interpreter

namespace Node

/-- **A program whose foreign functions have words for names.** -/
def NamesExterns (root : Node) : Prop :=
  ∃ p ds body, root = program p ds body ∧ ∀ name ∈ externNames ds, name.IsWord

/-- **Foreign functions are found** if and only if their names can be looked
up. -/
theorem exists_externsOf_iff {ds : List Node} :
    (∃ externs, externsOf ds = .ok externs) ↔ ∀ name ∈ externNames ds, name.key?.isSome = true := by
  unfold externsOf
  generalize ([] : List (Name × Nat)) = found
  induction ds generalizing found with
  | nil => exact iff_of_true ⟨found, rfl⟩ (List.forall_mem_nil _)
  | cons n ds ih =>
    rw [List.foldlM_cons]
    cases n with
    | externDecl p name tps pts r =>
      rw [show externNames (externDecl p name tps pts r :: ds) = name :: externNames ds from rfl,
        List.forall_mem_cons]
      by_cases hname : name.key?.isSome = true
      · have hcheck : name.check = .ok () := if_pos hname
        dsimp only
        rw [hcheck, ← ih (externsOf.put name pts.length found)]
        exact ⟨fun h => ⟨hname, h⟩, And.right⟩
      · have hcheck : name.check = .error (.shape .unfitName) := if_neg hname
        dsimp only
        rw [hcheck]
        exact iff_of_false (by rintro ⟨_, ⟨⟩⟩) fun h => hname h.1
    | _ => exact ih found

/-- Foreign functions that have words for names are found. -/
theorem externsOf_of_words {ds : List Node} (h : ∀ name ∈ externNames ds, name.IsWord) :
    ∃ externs, externsOf ds = .ok externs := by
  refine exists_externsOf_iff.2 fun name hname => ?_
  obtain ⟨s, rfl⟩ := h name hname
  rfl

end Node

namespace Session

variable {α β : Type} {root : Node} {I I' : Interpreter σ}

/-- **Two interpreters with one journal**, up to the foreign calls of a
program that cannot name its foreign functions. -/
structure OneJournal (root : Node) (I I' : Interpreter σ) : Prop where
  /-- The state of the host is the same. -/
  host : I.journal.host = I'.journal.host
  /-- The observer was told the same. -/
  observed : I.journal.observed = I'.journal.observed
  /-- The trace is the same. -/
  trace : I.journal.trace = I'.journal.trace
  /-- The foreign calls are the same. -/
  effects : root.NamesExterns → I.journal.effects = I'.journal.effects

/-- **A step does the same in two interpreters**: the outcomes and the
journals are the same, and so is the whole interpreter if there is a
result. -/
structure DoesTheSame (root : Node) (m : Session σ α) (I I' : Interpreter σ) : Prop where
  /-- The outcome is the same. -/
  outcome : (ExceptT.run m I).1 = (ExceptT.run m I').1
  /-- The journal is the same. -/
  journal : OneJournal root (ExceptT.run m I).2 (ExceptT.run m I').2
  /-- With a result the interpreter is the same. -/
  whole : ∀ a, (ExceptT.run m I).1 = .ok a → (ExceptT.run m I).2 = (ExceptT.run m I').2

namespace DoesTheSame

theorem refl (root : Node) (m : Session σ α) (I : Interpreter σ) : DoesTheSame root m I I :=
  ⟨rfl, ⟨rfl, rfl, rfl, fun _ => rfl⟩, fun _ _ => rfl⟩

/-- After a step with a result there is only one interpreter. -/
theorem bind {m : Session σ α} (h : DoesTheSame root m I I') (g : α → Session σ β) :
    DoesTheSame root (m >>= g) I I' := by
  obtain ⟨houtcome, hjournal, hwhole⟩ := h
  rcases hm : ExceptT.run m I with ⟨f | a, K⟩ <;> rw [hm] at houtcome hjournal hwhole
  · have hfail : ExceptT.run (m >>= g) I = (.error f, K) := by rw [run_bind_eq, hm]
    have hfail' : ExceptT.run (m >>= g) I' = (.error f, (ExceptT.run m I').2) := by
      rw [run_bind_eq, show ExceptT.run m I' = (.error f, (ExceptT.run m I').2) from
        Prod.ext houtcome.symm rfl]
    refine ⟨?_, ?_, fun a ha => ?_⟩
    · rw [hfail, hfail']
    · rw [hfail, hfail']
      exact hjournal
    · rw [hfail] at ha
      cases ha
  · have hm' : ExceptT.run m I' = (.ok a, K) := Prod.ext houtcome.symm (hwhole a rfl).symm
    have hgo := run_bind_of_ok g hm
    have hgo' := run_bind_of_ok g hm'
    refine ⟨?_, ?_, fun b _ => ?_⟩
    · rw [hgo, hgo']
    · rw [hgo, hgo']
      exact (refl root (g a) K).journal
    · rw [hgo, hgo']

theorem ok_bind {a : α} {g : α → Session σ β} (h : DoesTheSame root (g a) I I') :
    DoesTheSame root (lift (.ok a) >>= g) I I' :=
  ⟨h.outcome, h.journal, h.whole⟩

/-- A check that depends on no interpreter comes before. -/
theorem lift_bind {o : Except Failure α} {g : α → Session σ β} (hjournal : OneJournal root I I')
    (h : ∀ a, o = .ok a → DoesTheSame root (g a) I I') :
    DoesTheSame root (lift o >>= g) I I' := by
  cases o with
  | ok a => exact .ok_bind (h a rfl)
  | error f => exact ⟨rfl, hjournal, fun a ha => by cases ha⟩

theorem modify_bind {g : Interpreter σ → Interpreter σ} {k : PUnit → Session σ β}
    (h : DoesTheSame root (k ⟨⟩) (g I) (g I')) :
    DoesTheSame root ((modify g : Session σ PUnit) >>= k) I I' :=
  ⟨h.outcome, h.journal, h.whole⟩

theorem get_bind {k : Interpreter σ → Session σ β} (hk : k I' = k I)
    (h : DoesTheSame root (k I) I I') :
    DoesTheSame root ((get : Session σ (Interpreter σ)) >>= k) I I' := by
  have hrun : ExceptT.run ((get : Session σ (Interpreter σ)) >>= k) I' = ExceptT.run (k I) I' := by
    rw [run_get_bind, hk]
  exact ⟨by rw [run_get_bind, hrun, h.outcome], by rw [run_get_bind, hrun]; exact h.journal,
    by rw [run_get_bind, hrun]; exact h.whole⟩

end DoesTheSame

/-- **Loading reads nothing that was left behind.** -/
theorem load_fresh (root : Node) (I : Interpreter σ) (hobserved : I.journal.observed = #[])
    (htrace : I.journal.trace = #[]) :
    DoesTheSame root (load root) I (I.fresh I.journal.host) := by
  obtain ⟨natives, intrinsics, detail, maxDepth, _, _, _, _, _,
    ⟨host, effects, observed, trace⟩⟩ := I
  obtain rfl : observed = #[] := hobserved
  obtain rfl : trace = #[] := htrace
  unfold load
  split
  · next p ds body =>
    cases hexterns : Node.externsOf ds with
    | error f =>
      -- The foreign calls of the last run are still there.
      refine ⟨rfl, ⟨rfl, rfl, rfl, ?_⟩, fun a ha => by cases ha⟩
      rintro ⟨_, _, _, ⟨⟩, hwords⟩
      obtain ⟨externs, hok⟩ := Node.externsOf_of_words hwords
      rw [hexterns] at hok
      cases hok
    | ok externs =>
      -- Until the last step the journals are the same, and then the interpreters are.
      refine .ok_bind (.modify_bind ?_)
      refine .lift_bind ⟨rfl, rfl, rfl, fun _ => rfl⟩ fun table _ => .modify_bind (.get_bind rfl ?_)
      refine .lift_bind ⟨rfl, rfl, rfl, fun _ => rfl⟩ fun _ _ => ?_
      refine .lift_bind ⟨rfl, rfl, rfl, fun _ => rfl⟩ fun cases _ => .modify_bind ?_
      exact .refl _ _ _
  · next hroot =>
    refine ⟨rfl, ⟨rfl, rfl, rfl, ?_⟩, fun a ha => by cases ha⟩
    rintro ⟨p, ds, body, h, -⟩
    exact absurd h (hroot p ds body)

/-- **Nor does a run.** -/
theorem run_fresh (root : Node) (I : Interpreter σ) (hobserved : I.journal.observed = #[])
    (htrace : I.journal.trace = #[]) :
    DoesTheSame root (run root) I (I.fresh I.journal.host) :=
  (load_fresh root I hobserved htrace).bind _

/-- **A run changes nothing that the interpreter was made with.** -/
theorem fresh_run (root : Node) (I : Interpreter σ) :
    (ExceptT.run (run root) I).2.fresh = I.fresh := by
  have hkeep {α : Type} (m : Engine σ → Run σ α) :
      Upholds (fun K => K.fresh = I.fresh) (fun _ => True) (fun _ => True) (keepEngine m) :=
    upholds_keepEngine fun K hK _ _ => ⟨hK, fun _ _ => trivial, fun _ _ => trivial⟩
  have hload : Upholds (fun K => K.fresh = I.fresh) (fun _ => True) (fun _ => True)
      (load root : Session σ Unit) := fun K hK =>
    ⟨(upholds_load (J := fun K => K.fresh = I.fresh) (fun _ _ _ _ _ _ _ h => h) root K hK).1,
      fun _ _ => trivial, fun _ _ => trivial⟩
  have hrun : Upholds (fun K => K.fresh = I.fresh) (fun _ => True) (fun _ => True)
      (run root : Session σ Value) := by
    refine hload.andThen fun _ => ?_
    split
    · exact Upholds.throw trivial
    · refine (upholds_get.mono fun _ _ => trivial).andThen fun K => ?_
      exact (hkeep _).andThen fun v => (hkeep _).andThen fun _ => Upholds.pure trivial
  exact (hrun I rfl).1

/-- The same holds of any number of runs. -/
theorem fresh_afterRuns (I : Interpreter σ) (history : List Node) :
    (I.afterRuns history).fresh = I.fresh := by
  induction history generalizing I with
  | nil => rfl
  | cons root history ih => exact (ih _).trans (fresh_run root _)

/-- A program that declares a foreign function of another arity and is then
refused, for it declares a constructor twice. -/
def refusedProgram : Node :=
  .program none
    [.externDecl none "apply" [] [.absent] .absent,
      .dataDecl none "Pair" [] [.constructorDecl none "Pair" [], .constructorDecl none "Pair" []]]
    (.unit none)

end Session

end EmberLang
