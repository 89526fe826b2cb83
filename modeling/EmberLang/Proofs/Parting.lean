import EmberLang.Proofs.Natives
import EmberLang.Proofs.Operations

/-!
# Runs that part where one of them breaks off

Two runs of one program may agree until one of them breaks off, with a
failure that the other does not meet: calls nest too deeply for it, or it
cannot word a message that the other does not write. What it has done by
then is the beginning of what the other does.

`Parting.At` says this of two computations. It goes along binds. If the
first step has broken off on one side, so has the whole, and the journal of
the other side goes on from there whatever the second step does, because
journals only grow. It goes through calls that functions of the host make
if these let the failure through and only add to the output
(`Parting.At.perform`). So it holds of evaluation as far as it holds of the
messages of the trace (`Parting.Allows.evalResult`).
-/

namespace EmberLang

variable {σ α β : Type}

/-! ## Journals that go on -/

/-- **A journal begins another**: all that is written down in it is written
down in the other, before anything else. -/
structure Journal.Begins (output : σ → List Char) (j j' : Journal σ) : Prop where
  /-- The foreign calls. -/
  effects : j.effects.toList <+: j'.effects.toList
  /-- Those that the observer was told of. -/
  observed : j.observed.toList <+: j'.observed.toList
  /-- The trace. -/
  trace : j.trace.toList <+: j'.trace.toList
  /-- The output. -/
  output : output j.host <+: output j'.host

namespace Journal.Begins

variable {output : σ → List Char}

theorem refl (j : Journal σ) : j.Begins output j :=
  ⟨List.prefix_rfl, List.prefix_rfl, List.prefix_rfl, List.prefix_rfl⟩

theorem trans {i j k : Journal σ} (h : i.Begins output j) (h' : j.Begins output k) :
    i.Begins output k :=
  ⟨h.effects.trans h'.effects, h.observed.trans h'.observed, h.trace.trans h'.trace,
    h.output.trans h'.output⟩

theorem of_eq {j j' : Journal σ} (h : j = j') : j.Begins output j' := h ▸ .refl j

/-- A message may be added to the trace. -/
theorem of_trace (E : Engine σ) (m : Message) (j : Journal σ) :
    j.Begins output ((E.trace m).run j).2 := by
  unfold Engine.trace Run.trace
  split
  · rw [run_bind_eq, Run.run_lift]
    cases m.text with
    | error f => exact .refl j
    | ok text => exact ⟨List.prefix_rfl, List.prefix_rfl, by simp, List.prefix_rfl⟩
  · exact .refl j

end Journal.Begins

/-! ## Computations that part -/

/-- **What sets two runs apart.** -/
structure Parting (σ : Type) where
  /-- The failure with which one of them breaks off. -/
  failure : Failure
  /-- Which lines of its trace are also lines of the other. -/
  lines : Array TraceLine → Array TraceLine
  /-- The output of the host. -/
  output : σ → List Char

/-- The journal of the other run while both agree. -/
def Parting.view (P : Parting σ) (j : Journal σ) : Journal σ := { j with trace := P.lines j.trace }

/-- **Two computations part at most by a failure**, from the journals with
`K` on: `m'` does what `m` does, or it breaks off with a journal that
begins the one of `m`. -/
structure Parting.At (P : Parting σ) (K : Journal σ → Prop) (m m' : Run σ α) : Prop where
  /-- Journals go on. -/
  goesOn : ∀ j, K j → j.Begins P.output (m.run j).2
  /-- They agree or part. -/
  agree_or_part : ∀ j, K (P.view j) → m.run (P.view j) = ((m'.run j).1, P.view (m'.run j).2)
    ∨ (m'.run j).1 = .error P.failure
      ∧ (P.view (m'.run j).2).Begins P.output (m.run (P.view j)).2

namespace Parting.At

variable {P : Parting σ} {K K' : Journal σ → Prop} {m m' : Run σ α}

theorem mono (h : P.At K m m') (himp : ∀ j, K' j → K j) : P.At K' m m' :=
  ⟨fun j hj => h.goesOn j (himp j hj), fun j hj => h.agree_or_part j (himp _ hj)⟩

theorem lift (outcome : Except Failure α) : P.At K (Run.lift outcome) (Run.lift outcome) := by
  constructor
  · intro j _
    rw [Run.run_lift]
    exact .refl j
  · intro j _
    rw [Run.run_lift, Run.run_lift]
    exact .inl rfl

theorem pure (a : α) : P.At K (Pure.pure a) (Pure.pure a) := lift (.ok a)

theorem host : P.At K Run.host Run.host := ⟨fun j _ => .refl j, fun _ _ => .inl rfl⟩

theorem record (effect : Effect) : P.At K (Run.record effect) (Run.record effect) :=
  ⟨fun _ _ => ⟨by simp, by simp, List.prefix_rfl, List.prefix_rfl⟩, fun _ _ => .inl rfl⟩

theorem setHost {s : σ} (h : ∀ j, K j → P.output j.host <+: P.output s) :
    P.At K (Run.setHost s) (Run.setHost s) :=
  ⟨fun j hj => ⟨List.prefix_rfl, List.prefix_rfl, List.prefix_rfl, h j hj⟩, fun _ _ => .inl rfl⟩

/-- **One step after another.** If the first breaks off, so does the
whole. -/
theorem bind {f f' : α → Run σ β} (h : P.At K m m')
    (hf : ∀ j a, K j → (m.run j).1 = .ok a → P.At (· = (m.run j).2) (f a) (f' a)) :
    P.At K (m >>= f) (m' >>= f') := by
  have hrest (j : Journal σ) (hj : K j) : (m.run j).2.Begins P.output ((m >>= f).run j).2 := by
    rw [run_bind_eq]
    rcases hrun : m.run j with ⟨e | a, k⟩
    · exact .refl k
    · have hfa := (hf j a hj (by rw [hrun])).goesOn _ rfl
      rw [hrun] at hfa
      exact hfa
  refine ⟨fun j hj => (h.goesOn j hj).trans (hrest j hj), fun j hj => ?_⟩
  rcases h.agree_or_part j hj with hagree | ⟨hfail, hbegins⟩
  · rw [run_bind_eq, run_bind_eq, hagree]
    rcases hrun' : m'.run j with ⟨e | a, k⟩
    · exact .inl rfl
    · rw [hrun'] at hagree
      exact (hf _ a hj (by rw [hagree])).agree_or_part k (by rw [hagree])
  · have hstop : (m' >>= f').run j = (.error P.failure, (m'.run j).2) := by
      rw [run_bind_eq, ← Prod.eta (m'.run j), hfail]
    rw [hstop]
    exact .inr ⟨rfl, hbegins.trans (hrest _ hj)⟩

theorem forM {ι : Type} {l : List ι} {f f' : ι → Run σ PUnit}
    (h : ∀ i ∈ l, P.At (fun _ => True) (f i) (f' i)) :
    P.At (fun _ => True) (l.forM f) (l.forM f') := by
  induction l with
  | nil => exact pure _
  | cons i l ih =>
    obtain ⟨hi, hl⟩ := List.forall_mem_cons.1 h
    exact hi.bind fun _ _ _ _ => (ih hl).mono fun _ _ => trivial

/-- **A step that is attempted**, where what follows lets the failure
through. -/
theorem attempt_bind {g g' : Except Failure α → Run σ β} (h : P.At K m m')
    (hg : ∀ j, K j → P.At (· = (m.run j).2) (g (m.run j).1) (g' (m.run j).1))
    (hthrough : ∀ k, (g' (.error P.failure)).run k = (.error P.failure, k)) :
    P.At K (Run.attempt m >>= g) (Run.attempt m' >>= g') := by
  have hrun (n : Run σ α) (k : Except Failure α → Run σ β) (j : Journal σ) :
      (Run.attempt n >>= k).run j = (k (n.run j).1).run (n.run j).2 := by
    rw [run_bind_eq, Run.run_attempt]
  constructor
  · intro j hj
    rw [hrun]
    exact (h.goesOn j hj).trans ((hg j hj).goesOn _ rfl)
  · intro j hj
    rw [hrun, hrun]
    rcases h.agree_or_part j hj with hagree | ⟨hfail, hbegins⟩
    · have hgj := (hg _ hj).agree_or_part (m'.run j).2 (by rw [hagree])
      rw [hagree] at hgj ⊢
      exact hgj
    · rw [hfail, hthrough]
      exact .inr ⟨rfl, hbegins.trans ((hg _ hj).goesOn _ rfl)⟩

variable {D : Discipline} {F : Failure → Prop} {state : σ → Prop}

/-- **Actions part** where the calls that they make do. -/
theorem perform {call call' : Value → List Value → Run σ Value}
    (hkeeps : ∀ f args, f.Kept D → Value.KeptAll D args →
      Upholds (Journal.Kept D state) F (Value.Kept D) (call f args))
    (hcall : ∀ f args, f.Kept D → Value.KeptAll D args →
      P.At (Journal.Kept D state) (call f args) (call' f args)) {a : Action σ}
    (hthrough : a.LetsThrough (· = P.failure)) (ha : a.Keeps D F state) :
    P.At (fun j => j.Kept D state ∧ a.Appends P.output j.host) (a.perform call)
      (a.perform call') := by
  induction a with
  | done s r => exact bind (setHost fun _ hj => hj.2) fun _ _ _ _ => pure r
  | fail s f => exact bind (setHost fun _ hj => hj.2) fun _ _ _ _ => lift (.error f)
  | call s f args next ih =>
    obtain ⟨hstop, hthrough⟩ := hthrough
    obtain ⟨hs, hf, hargs, hnext⟩ := ha
    refine bind (setHost fun _ hj => hj.2.1) fun j _ hj _ => ?_
    have hset : (Run.setHost s |>.run j).2.Kept D state := ⟨hs, hj.1.effects⟩
    refine attempt_bind ((hcall f args hf hargs).mono ?_) ?_ fun k => ?_
    · rintro _ rfl
      exact hset
    · rintro _ rfl
      refine bind host fun k t hk ht => ?_
      obtain ⟨hkept, hok, herror⟩ := hkeeps f args hf hargs _ hset
      subst hk
      obtain rfl := Except.ok.inj ht
      refine (ih _ _ (hthrough _ _) (hnext _ _ hkept.host hok herror)).mono ?_
      rintro _ rfl
      exact ⟨hkept, hj.2.2 _ _⟩
    · show ((next k.host (.error P.failure)).perform call').run k = _
      rw [hstop k.host _ rfl]
      rfl

end Parting.At

/-! ## Evaluation -/

/-- **What lets evaluation part at most by a failure**: the functions of the
host let it through and only add to the output, and messages part by
nothing else. The two runs may trace different levels of detail. -/
structure Parting.Allows (P : Parting σ) (D : Discipline) (state : σ → Prop) (E : Engine σ)
    (d : Nat) : Prop where
  /-- The functions of the host. -/
  natives : ∀ n ∈ E.natives, n.LetsThrough (· = P.failure) ∧ n.Appends P.output
  /-- Messages. -/
  trace : ∀ m : Message, m.Kept D →
    P.At (Journal.Kept D state) (E.trace m) ({ E with detail := d }.trace m)
  /-- The functions that a block announces. -/
  functions : ∀ {Γ p ds body}, D.Code Γ (.block p ds body) →
    ∀ f ∈ (Node.declaredFunctions ds).1, D.Params f.params

namespace Parting.Allows

variable {D : Discipline} {F : Failure → Prop} {state : σ → Prop} {E : Engine σ}
variable {P : Parting σ} {d : Nat} (S : P.Allows D state E d) (G : Governs D F state E)

include S G

section

variable {call call' : Engine.Caller σ} (hkeeps : call.Keeps D F state)
  (hcall : ∀ f args p, f.Kept D → Value.KeptAll D args →
    P.At (Journal.Kept D state) (call f args p) (call' f args p))

include hkeeps hcall

theorem callForeign (name : Name) {args : List Value} (hargs : Value.KeptAll D args)
    (directive : Bool) (p : Option Position) :
    P.At (Journal.Kept D state) (E.callForeign call name args directive p)
      ({ E with detail := d }.callForeign call' name args directive p) := by
  unfold Engine.callForeign
  refine (At.lift _).bind fun j native hj hnative => ?_
  rw [Run.run_lift] at hnative ⊢
  have hmem := Native.mem_of_resolve hnative
  obtain ⟨hthrough, happends⟩ := S.natives native hmem
  refine (At.record _).bind fun i _ hi _ => ?_
  subst hi
  refine At.host.bind fun k s hk hs => ?_
  subst hk
  obtain rfl := Except.ok.inj hs
  have hperform := At.perform (fun f args => hkeeps f args none) (fun f args => hcall f args none)
    (hthrough i.host args) (G.native native hmem i.host args hj.host hargs)
  refine (hperform.mono ?_).bind fun _ result _ _ => At.lift _
  rintro _ rfl
  exact ⟨hj.record hargs, happends i.host args⟩

/-- Parting follows evaluation. -/
theorem tracks :
    Tracks D F state E call ({ E with detail := d }.operations call')
      (fun m m' => P.At (Journal.Kept D state) m m') where
  pure a := .pure a
  bind hm h hf := h.bind fun j a hj ha => by
    refine (hf a ((hm j hj).2.1 a ha)).mono ?_
    rintro _ rfl
    exact (hm j hj).1
  lift outcome := .lift outcome
  trace m hm := S.trace m hm
  foreign name args directive p hargs := S.callForeign G hkeeps hcall name hargs directive p
  call f args p hf hargs := hcall f args p hf hargs
  functions h := S.functions h

/-- **Evaluation parts** where its calls do. -/
theorem eval {scope : Scope} (hs : scope.Kept D) {n : Node} (hcode : D.Code scope.Binds n) :
    P.At (Journal.Kept D state) (E.eval call scope n)
      ({ E with detail := d }.eval call' scope n) := by
  rw [← Engine.evalWith_operations { E with detail := d } call']
  exact Engine.eval_tracks (S.tracks G hkeeps hcall) G hkeeps d hs n hcode

theorem callOnce (depth : Nat) {f : Value} (hf : f.Kept D) {args : List Value}
    (hargs : Value.KeptAll D args) (p : Option Position) :
    P.At (Journal.Kept D state) (Engine.callOnce E call depth f args p)
      (Engine.callOnce { E with detail := d } call' depth f args p) := by
  rw [← Engine.callOnceWith_operations { E with detail := d } call']
  exact Engine.callOnce_tracks (S.tracks G hkeeps hcall) G hkeeps d depth hf hargs p

end

/-- **Calls part at most by a failure.** If it is that of calls that nest
too deeply, the limit of the run that breaks off may be lower. -/
theorem callAt {limit limit' : Nat} (hlimit : limit ≤ limit')
    (hcut : limit = limit' ∨ P.failure = .callsTooDeep) (depth : Nat) (f : Value)
    (args : List Value) (p : Option Position) (hf : f.Kept D) (hargs : Value.KeptAll D args) :
    P.At (Journal.Kept D state) (Engine.callAt E limit' depth f args p)
      (Engine.callAt { E with detail := d } limit depth f args p) := by
  induction limit' generalizing limit depth f args p with
  | zero =>
    obtain rfl := Nat.le_zero.1 hlimit
    exact .lift (.error .callsTooDeep)
  | succ limit' ih =>
    have hkeeps := Engine.callAt_keeps G limit' (depth + 1)
    cases limit with
    | zero =>
      -- One run is cut at once. That the journal of the other goes on is
      -- known from the case of equal limits.
      have hfailure : P.failure = .callsTooDeep := hcut.resolve_left (Nat.succ_ne_zero _).symm
      have hgoes := (S.callOnce G hkeeps (ih le_rfl (.inl rfl) (depth + 1)) depth hf hargs p).goesOn
      exact ⟨hgoes, fun j hj => .inr ⟨congrArg Except.error hfailure.symm, hgoes _ hj⟩⟩
    | succ limit =>
      rw [Engine.callAt_succ, Engine.callAt_succ]
      exact S.callOnce G hkeeps (ih (Nat.le_of_succ_le_succ hlimit)
        (hcut.imp_left Nat.succ.inj) (depth + 1)) depth hf hargs p

/-- **So does the evaluation of a program**, with the message about its
result. -/
theorem evalResult {limit limit' : Nat} (hlimit : limit ≤ limit')
    (hcut : limit = limit' ∨ P.failure = .callsTooDeep) {scope : Scope} (hs : scope.Kept D)
    {body : Node} (hcode : D.Code scope.Binds body) :
    P.At (Journal.Kept D state)
      (do
        let v ← E.eval (Engine.callAt E limit' 0) scope body
        E.trace (.result v)
        return v)
      (do
        let v ← { E with detail := d }.eval
          (Engine.callAt { E with detail := d } limit 0) scope body
        { E with detail := d }.trace (.result v)
        return v) := by
  have hkeeps := Engine.callAt_keeps G limit' 0
  refine (S.eval G hkeeps (S.callAt G hlimit hcut 0) hs hcode).bind fun j v hj hv => ?_
  obtain ⟨hkept, hvalue, -⟩ := Engine.eval_upholds G hkeeps hs body hcode j hj
  refine ((S.trace (.result v) (hvalue v hv)).mono ?_).bind fun _ _ _ _ => .pure v
  rintro _ rfl
  exact hkept

end Parting.Allows

end EmberLang
