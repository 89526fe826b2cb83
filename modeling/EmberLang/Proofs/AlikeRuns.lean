import EmberLang.Interpreter
import EmberLang.Proofs.Agreement
import EmberLang.Proofs.Dispatch
import EmberLang.Proofs.Outline

/-!
# Programs that differ in positions only

Two programs that are alike do the same: they come to values that are
alike, or fail alike, call the same foreign functions on the way and leave
the same trace. A run hands the position of a node to nothing but the
failure that it may end with. To be alike is a likeness under which every
engine simulates itself (`positionFree_simulates`), so that evaluation
keeps in step.

The host can see more than the program can: a function of the host that is
given a closure could look into it. What is asked of the host is that it
does not, or more exactly, that on arguments that are alike and in states
that are related it takes actions that are alike (`Native.IgnoresPositions`).
-/

namespace EmberLang

variable {σ : Type} {R : σ → σ → Prop}

/-! ## The host -/

/-- **Two actions are alike**: they end alike, or call alike values and go
on alike from every pair of outcomes that agree. -/
def Action.Alike (R : σ → σ → Prop) : Action σ → Action σ → Prop
  | .done s r, .done s' r' => R s s' ∧ r'.erase = r.erase
  | .fail s f, .fail s' f' => R s s' ∧ f'.erase = f.erase
  | .call s f args next, .call s' f' args' next' =>
    R s s' ∧ f.Alike f' ∧ Value.eraseAll args' = Value.eraseAll args
      ∧ ∀ t t' o o', R t t' → Agree Value.Alike o o' → Alike R (next t o) (next' t' o')
  | _, _ => False

/-- **A function of the host that ignores positions**: on arguments that
are alike and in related states it takes actions that are alike. -/
def Native.IgnoresPositions (R : σ → σ → Prop) (n : Native σ) : Prop :=
  ∀ s s' args args', R s s' → Value.eraseAll args' = Value.eraseAll args →
    (n.run s args).Alike R (n.run s' args')

/-! ## A likeness -/

/-- **The likeness of programs that differ in positions.** -/
def positionFree (R : σ → σ → Prop) : Likeness σ where
  place _ _ := True
  failure f g := g.erase = f.erase
  value := Value.Alike
  code s n s' n' := s.Alike s' ∧ n.Alike n'
  host := R
  traced := True

theorem map_eq_iff_forall₂ {α β : Type} {f : α → β} {l l' : List α} :
    l'.map f = l.map f ↔ List.Forall₂ (fun a a' => f a' = f a) l l' := by
  rw [← List.forall₂_eq_eq_eq, List.forall₂_map_left_iff, List.forall₂_map_right_iff]
  exact ⟨List.Forall₂.flip, List.Forall₂.flip⟩

theorem Value.eraseAll_eq_iff {vs vs' : List Value} :
    eraseAll vs' = eraseAll vs ↔ List.Forall₂ Alike vs vs' := by
  rw [eraseAll_eq_map, eraseAll_eq_map]
  exact map_eq_iff_forall₂

theorem Effect.erase_eq_iff {e e' : Effect} :
    e'.erase = e.erase ↔ (positionFree R).Effects e e' := by
  constructor
  · intro h
    obtain ⟨hname, hargs, hdirective⟩ := Effect.mk.inj h
    exact ⟨hname, Value.eraseAll_eq_iff.1 hargs, hdirective⟩
  · intro h
    unfold Effect.erase
    rw [h.name, Value.eraseAll_eq_iff.2 h.args, h.directive]

theorem map_erase_eq_iff {es es' : Array Effect} :
    es'.map Effect.erase = es.map Effect.erase
      ↔ List.Forall₂ (positionFree R).Effects es.toList es'.toList := by
  rw [← Array.toList_inj, Array.toList_map, Array.toList_map, map_eq_iff_forall₂]
  exact ⟨.imp fun _ _ => Effect.erase_eq_iff.1, .imp fun _ _ => Effect.erase_eq_iff.2⟩

theorem Journal.alike_iff {j j' : Journal σ} :
    j.Alike R j' ↔ (positionFree R).Journals j j' :=
  ⟨fun h => ⟨h.host, map_erase_eq_iff.1 h.effects, map_erase_eq_iff.1 h.observed, fun _ => h.trace⟩,
    fun h => ⟨h.host, map_erase_eq_iff.2 h.effects, map_erase_eq_iff.2 h.observed,
      h.trace trivial⟩⟩

theorem matches_iff_runs {α β : Type} {Q : α → β → Prop} {m : Run σ α} {m' : Run σ β} :
    Matches (Journal.Alike R) Q m m' ↔ (positionFree R).Runs Q m m' := by
  refine matches_iff_inStep.trans (forall_congr' fun j => forall_congr' fun j' => ?_)
  rw [Journal.alike_iff, Journal.alike_iff]
  exact Iff.rfl

theorem results_of_erase {r r' : HostResult} (h : r'.erase = r.erase) :
    (positionFree R).Results r r' := by
  have hface : r'.face = r.face := by rw [← r'.face_erase, h, r.face_erase]
  cases r with
  | value v =>
    cases r' with
    | value v' => exact HostResult.value.inj h
    | _ => cases h
  | _ =>
    cases r' with
    | value v' => cases h
    | _ => exact hface

theorem Action.Alike.actions {action action' : Action σ} (h : action.Alike R action') :
    (positionFree R).Actions action action' := by
  induction action generalizing action' with
  | done s r =>
    cases action' with
    | done s' r' => exact ⟨h.1, results_of_erase h.2⟩
    | fail s' f' => exact h.elim
    | call s' f' args' next' => exact h.elim
  | fail s f =>
    cases action' with
    | done s' r' => exact h.elim
    | fail s' f' => exact h
    | call s' f' args' next' => exact h.elim
  | call s f args next ih =>
    cases action' with
    | done s' r' => exact h.elim
    | fail s' f' => exact h.elim
    | call s' f' args' next' =>
      obtain ⟨hs, hf, hargs, hnext⟩ := h
      exact ⟨hs, hf, Value.eraseAll_eq_iff.1 hargs,
        fun t t' o o' ht ho => ih t o (hnext t t' o o' ht (Agree.iff_concur.2 ho))⟩

theorem Native.IgnoresPositions.respects {n : Native σ} (h : n.IgnoresPositions R) :
    (positionFree R).Respects n := fun s s' args args' hs hargs =>
  (h s s' args args' hs (Value.eraseAll_eq_iff.2 hargs)).actions

namespace Engine

variable {E : Engine σ}

theorem matches_trace {m m' : Message} (htext : m'.text = m.text) (hlevel : m'.level = m.level) :
    Matches (Journal.Alike R) (fun _ _ => True) (E.trace m) (E.trace m') :=
  Run.matches_trace hlevel htext

theorem matches_trace_function {f f' : Function} (h : f'.erase = f.erase) :
    Matches (Journal.Alike R) (fun _ _ => True) (E.trace (.function f))
      (E.trace (.function f')) := by
  obtain ⟨hname, hparams, -⟩ := Function.mk.inj h
  refine matches_trace ?_ rfl
  show (do return "define function " ++ f'.name.text ++ "(" ++ (← Name.commas f'.params) ++ ")")
    = (do return "define function " ++ f.name.text ++ "(" ++ (← Name.commas f.params) ++ ")")
  rw [hname, hparams]

theorem matches_announce {ds ds' : List Node} (h : Node.eraseAll ds' = Node.eraseAll ds) :
    Matches (Journal.Alike R) (fun fs fs' => fs'.map Function.erase = fs.map Function.erase)
      (E.announce ds) (E.announce ds') := by
  have hfs := congrArg Node.declaredFunctions h
  rw [Node.declaredFunctions_eraseAll, Node.declaredFunctions_eraseAll] at hfs
  obtain ⟨hfunctions, houtcome⟩ := Prod.mk.inj hfs
  refine (Matches.forM (map_eq_iff_forall₂.1 hfunctions) fun f f' hf =>
    matches_trace_function hf).bind fun _ _ _ => ?_
  show Matches _ _ (Run.lift (Node.declaredFunctions ds).2 >>= _)
    (Run.lift (Node.declaredFunctions ds').2 >>= _)
  rw [houtcome]
  exact (Run.matches_lift (.refl _)).bind fun _ _ _ => .pure hfunctions

theorem hasRule_erase (n : Node) : hasRule n.erase = hasRule n := by cases n <;> rfl

end Engine

/-- Arms that are alike choose alike and lead to bodies that are. -/
theorem arms_of_alike {E : Engine σ} {s s' : Scope} (hs : s.Alike s') {arms arms' : List Node}
    (harms : Node.eraseAll arms' = Node.eraseAll arms) :
    (positionFree R).Arms E E s arms s' arms' := by
  rcases (Case.agree_compile (t := E.caseTable) harms).fails_or_gives with
    ⟨f, f', hc, hc', -⟩ | ⟨c, c', hc, hc', hcase⟩
  · exact .inl ⟨f, f', hc, hc'⟩
  · refine .inr ⟨c, c', hc, hc', fun v v' hv => ?_⟩
    rcases Case.select?_alike hcase hv with ⟨hr, hr'⟩ | ⟨i, b, b', hr, hr', hb⟩
    · exact .inl ⟨hr, hr'⟩
    · obtain ⟨q, pattern, body, -, -, harm, -, -⟩ := Case.armMatches_of_select? hc hr
      have hat := congrArg (·[i]?) harms
      rw [Node.eraseAll_eq_map, Node.eraseAll_eq_map, List.getElem?_map, List.getElem?_map,
        harm] at hat
      obtain ⟨n', harm', hn'⟩ := Option.map_eq_some_iff.1 hat
      obtain ⟨q', pattern', body', rfl, -, hbody⟩ := Node.Alike.eq_arm hn'
      refine .inr ⟨i, b, b', hr, hr', q, pattern, body, q', pattern', body', harm, harm', ?_, hbody⟩
      unfold Scope.Alike
      rw [Scope.bindAll_erase, Scope.bindAll_erase, hb, hs]

/-- Arguments that are alike, in scopes that are. -/
theorem forall₂_code {s s' : Scope} (hs : s.Alike s') {ns ns' : List Node}
    (h : Node.eraseAll ns' = Node.eraseAll ns) :
    List.Forall₂ (fun n n' => (positionFree R).code s n s' n') ns ns' := by
  rw [Node.eraseAll_eq_map, Node.eraseAll_eq_map, map_eq_iff_forall₂] at h
  exact h.imp fun _ _ hn => ⟨hs, hn⟩

/-- **Every engine simulates itself** on programs that differ in positions,
if the functions of the host ignore them. -/
theorem positionFree_simulates {E : Engine σ} (hnatives : ∀ n ∈ E.natives, n.IgnoresPositions R) :
    Simulates (positionFree R) E E where
  failure_refl _ := rfl
  failure_of _ _ := rfl
  place_none := trivial
  constant _ := rfl
  unitValue := rfl
  computed _ _ _ r _ := by
    cases r with
    | _ => rfl
  face := fun {v v'} h => by rw [← v'.face_erase, h, v.face_erase]
  data := fun {c d k fs fs'} _ _ _ h => by
    show Value.erase (.data d fs') = Value.erase (.data d fs)
    rw [Value.erase, Value.erase, Value.eraseAll_eq_iff.2 h]
  closure := by
    intro f s f' s' h args args' _ hargs
    obtain ⟨body', t, hclosure, hbody, hs⟩ := Value.Alike.eq_closure h
    obtain ⟨rfl, rfl⟩ := Value.closure.inj hclosure
    refine ⟨?_, hbody⟩
    unfold Scope.Alike
    rw [Scope.bindAll_erase, Scope.bindAll_erase, eraseBindings_zip, eraseBindings_zip,
      Value.eraseAll_eq_iff.2 hargs, hs]
  natives := rfl
  respects n hn := (hnatives n hn).respects
  intrinsics := rfl
  detail := rfl
  externs _ := rfl
  literal h := h.2.eq_literal
  unit h := h.2.eq_unit
  -- The conditions on the forms of expressions: what is alike has the same form,
  -- and its parts are alike.
  var := by
    rintro s p x s' n' ⟨hs, hn⟩
    obtain ⟨q, rfl⟩ := hn.eq_var
    refine ⟨q, rfl, Agree.iff_concur.1 (.of_eraseOutcome ?_)⟩
    rw [← Scope.get_erase, ← Scope.get_erase, hs]
  call := by
    rintro s p callee args s' n' ⟨hs, hn⟩
    obtain ⟨q, callee', args', rfl, hcallee, hargs⟩ := hn.eq_call
    refine ⟨q, callee', args', rfl, trivial, ⟨hs, hcallee⟩, forall₂_code hs hargs, ?_⟩
    rw [← Engine.foreignName?_erase, hs, hcallee, Engine.foreignName?_erase]
  intrinsicCall := by
    rintro s p op args s' n' ⟨hs, hn⟩
    obtain ⟨q, args', rfl, hargs⟩ := hn.eq_intrinsicCall
    exact ⟨q, args', rfl, trivial, forall₂_code hs hargs⟩
  directiveCall := by
    rintro s p name args s' n' ⟨hs, hn⟩
    obtain ⟨q, args', rfl, hargs⟩ := hn.eq_directiveCall
    exact ⟨q, args', rfl, trivial, forall₂_code hs hargs⟩
  construct := by
    rintro s p c args s' n' ⟨hs, hn⟩
    obtain ⟨q, args', rfl, hargs⟩ := hn.eq_construct
    exact ⟨q, args', rfl, trivial, forall₂_code hs hargs, rfl⟩
  caseOf := by
    rintro s p scrutinee arms s' n' ⟨hs, hn⟩
    obtain ⟨q, scrutinee', arms', rfl, hscrutinee, harms⟩ := hn.eq_caseOf
    exact ⟨q, scrutinee', arms', rfl, trivial, ⟨hs, hscrutinee⟩, arms_of_alike hs harms⟩
  letIn := by
    rintro s p name value body t s' n' ⟨hs, hn⟩
    obtain ⟨q, value', body', t', rfl, hvalue, hbody⟩ := hn.eq_letIn
    refine ⟨q, value', body', t', rfl, ⟨hs, hvalue⟩, fun v v' hv => ⟨?_, hbody⟩⟩
    unfold Scope.Alike
    rw [Scope.erase, Scope.erase, show v'.erase = v.erase from hv, hs]
  seq := by
    rintro s p first rest s' n' ⟨hs, hn⟩
    obtain ⟨q, first', rest', rfl, hfirst, hrest⟩ := hn.eq_seq
    exact ⟨q, first', rest', rfl, ⟨hs, hfirst⟩, ⟨hs, hrest⟩⟩
  lambda := by
    rintro s p params body s' n' ⟨hs, hn⟩
    obtain ⟨q, body', rfl, hbody⟩ := hn.eq_lambda
    refine ⟨q, body', rfl, ?_⟩
    show Value.erase (.closure ⟨_, params, body'⟩ s') = Value.erase (.closure ⟨_, params, body⟩ s)
    rw [Value.erase, Value.erase, hs]
    unfold Function.erase
    rw [hbody]
  block := by
    rintro s p ds body s' n' ⟨hs, hn⟩
    obtain ⟨q, ds', body', rfl, hds, hbody⟩ := hn.eq_block
    refine ⟨q, ds', body', rfl, (matches_iff_runs.1 (Engine.matches_announce hds)).mono ?_⟩
    refine fun fs fs' hfs => ⟨?_, hbody⟩
    unfold Scope.Alike
    rw [Scope.erase, Scope.erase, hfs, hs]
  misplaced := by
    rintro s n s' n' ⟨-, hn⟩ hrule
    refine ⟨?_, ?_⟩
    · rw [← Engine.hasRule_erase, hn, Engine.hasRule_erase, hrule]
    · rw [← n'.className_erase, hn, n.className_erase]

/-- **Evaluation pays no attention to positions.** -/
theorem Engine.eval_matches {E : Engine σ} (hnatives : ∀ n ∈ E.natives, n.IgnoresPositions R)
    (limit : Nat) {s s' : Scope} (hs : s.Alike s') {n n' : Node} (hn : n.Alike n') :
    Matches (Journal.Alike R) Value.Alike (E.eval (E.callAt limit 0) s n)
      (E.eval (E.callAt limit 0) s' n') := by
  have G := positionFree_simulates hnatives
  exact matches_iff_runs.2 (eval_inStep G (callAt_inStep G limit 0) n n' ⟨hs, hn⟩)

end EmberLang
