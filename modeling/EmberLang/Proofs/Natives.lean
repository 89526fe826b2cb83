import EmberLang.Host.Stock
import EmberLang.Proofs.Discipline
import EmberLang.Proofs.Faces

/-!
# What the functions of a host are trusted with

Two runs that differ in a limit or in a level of detail may part where a
value is called back by a function of the host: one call fails in a way
that the other does not. A function that catches this failure can go on to
do anything. Functions that *let it through* cannot: they end with it, too.
And while a function of the host may do what it likes to its own state, of
its output we expect that it is only ever added to.

The functions of the console and the simple functions do both, for all
failures. They also keep the values that they are given, and those of the
console only look at values: they see of a closure what everyone sees, and
call nothing.
-/

namespace EmberLang

variable {σ τ : Type} {F : Failure → Prop} {output : σ → List Char}

/-- **An action lets some failures through**: where a call that it makes
fails like this, it ends with the same failure and does nothing more. -/
def Action.LetsThrough (F : Failure → Prop) : Action σ → Prop
  | .done .. => True
  | .fail .. => True
  | .call _ _ _ next =>
    (∀ s f, F f → next s (.error f) = .fail s f) ∧ ∀ s outcome, (next s outcome).LetsThrough F

/-- A function of the host lets some failures through. -/
def Native.LetsThrough (F : Failure → Prop) (n : Native σ) : Prop :=
  ∀ s args, (n.run s args).LetsThrough F

/-- **An action only adds to the output**, from the given state on. -/
def Action.Appends (output : σ → List Char) (s : σ) : Action σ → Prop
  | .done t _ => output s <+: output t
  | .fail t _ => output s <+: output t
  | .call t _ _ next =>
    output s <+: output t ∧ ∀ u outcome, (next u outcome).Appends output u

/-- A function of the host only adds to the output. -/
def Native.Appends (output : σ → List Char) (n : Native σ) : Prop :=
  ∀ s args, (n.run s args).Appends output s

/-- Every action adds nothing to no output. -/
theorem Action.appends_nil (a : Action σ) (s : σ) : a.Appends (fun _ => []) s := by
  induction a generalizing s with
  | done t r => exact List.prefix_rfl
  | fail t f => exact List.prefix_rfl
  | call t f args next ih => exact ⟨List.prefix_rfl, fun u outcome => ih u outcome u⟩

/-- **An action that calls nothing** and ends in a state with `P`, with a
result that has `Q` if it does not fail. -/
def Action.Ends (P : σ → Prop) (Q : HostResult → Prop) : Action σ → Prop
  | .done s r => P s ∧ Q r
  | .fail s _ => P s
  | .call .. => False

namespace Action.Ends

variable {P : σ → Prop} {Q : HostResult → Prop} {a : Action σ}

theorem eq_done_or_fail (h : a.Ends P Q) : (∃ s r, a = .done s r) ∨ ∃ s f, a = .fail s f := by
  cases a with
  | done s r => exact .inl ⟨s, r, rfl⟩
  | fail s f => exact .inr ⟨s, f, rfl⟩
  | call => exact h.elim

theorem letsThrough (h : a.Ends P Q) : a.LetsThrough F := by
  cases a with
  | call => exact h.elim
  | _ => trivial

theorem appends {s : σ} (h : a.Ends (output s <+: output ·) Q) : a.Appends output s := by
  cases a with
  | done => exact h.1
  | fail => exact h
  | call => exact h.elim

theorem keeps {D : Discipline} (h : a.Ends P Q) (hkept : ∀ r, Q r → r.Kept D) :
    a.Keeps D (fun _ => True) fun _ => True := by
  cases a with
  | done s r => exact ⟨trivial, hkept r h.2⟩
  | fail => exact ⟨trivial, trivial⟩
  | call => exact h.elim

end Action.Ends

/-- **A function of the host that only looks at values**: it sees closures
as their names and parameters, and does not call back. -/
structure Native.Onlooker (n : Native σ) : Prop where
  /-- It does not look into closures. -/
  faces : ∀ s args, n.run s (Value.faces args) = n.run s args
  /-- It ends at once. -/
  ends : ∀ s args, (∃ t r, n.run s args = .done t r) ∨ ∃ t f, n.run s args = .fail t f

/-! ## Functions of a part of the state -/

section Embed

variable {view : τ → σ} {update : σ → τ → τ}

theorem Action.LetsThrough.embed (hupdate : ∀ t, update (view t) t = t) {a : Action σ}
    (h : a.LetsThrough F) (t : τ) : (a.embed view update t).LetsThrough F := by
  induction a generalizing t with
  | done s r => trivial
  | fail s f => trivial
  | call s f args next ih =>
    obtain ⟨hnext, hrest⟩ := h
    refine ⟨fun u g hg => ?_, fun u outcome => ih (view u) outcome (hrest (view u) outcome) u⟩
    show (next (view u) (.error g)).embed view update u = .fail u g
    rw [hnext (view u) g hg, Action.embed, hupdate]

theorem Native.LetsThrough.embed (hupdate : ∀ t, update (view t) t = t) {n : Native σ}
    (h : n.LetsThrough F) : (n.embed view update).LetsThrough F := fun t args =>
  (h (view t) args).embed hupdate t

theorem Action.Appends.embed (hview : ∀ s t, view (update s t) = s) {a : Action σ} {t : τ}
    (h : a.Appends output (view t)) : (a.embed view update t).Appends (output ∘ view) t := by
  induction a generalizing t with
  | done s r =>
    show output (view t) <+: output (view (update s t))
    rw [hview]
    exact h
  | fail s f =>
    show output (view t) <+: output (view (update s t))
    rw [hview]
    exact h
  | call s f args next ih =>
    obtain ⟨hnow, hrest⟩ := h
    refine ⟨?_, fun u outcome => ih (view u) outcome (hrest (view u) outcome)⟩
    show output (view t) <+: output (view (update s t))
    rw [hview]
    exact hnow

theorem Native.Appends.embed (hview : ∀ s t, view (update s t) = s) {n : Native σ}
    (h : n.Appends output) : (n.embed view update).Appends (output ∘ view) := fun t args =>
  (h (view t) args).embed hview

theorem Action.Keeps.embed {D : Discipline} {a : Action σ} (h : a.Keeps D F fun _ => True)
    (t : τ) : (a.embed view update t).Keeps D F fun _ => True := by
  induction a generalizing t with
  | done s r => exact h
  | fail s f => exact h
  | call s f args next ih =>
    obtain ⟨-, hf, hargs, hnext⟩ := h
    exact ⟨trivial, hf, hargs, fun u outcome _ hok herror =>
      ih (view u) outcome (hnext (view u) outcome trivial hok herror) u⟩

theorem Native.Keeps.embed {D : Discipline} {n : Native σ} (h : n.Keeps D F fun _ => True) :
    (n.embed view update).Keeps D F fun _ => True := fun t args _ hargs =>
  (h (view t) args trivial hargs).embed t

theorem Native.Onlooker.embed {n : Native σ} (h : n.Onlooker) : (n.embed view update).Onlooker where
  faces s args := congrArg (Action.embed view update s) (h.faces (view s) args)
  ends s args := by
    rcases h.ends (view s) args with ⟨t, r, hrun⟩ | ⟨t, f, hrun⟩
    · exact .inl ⟨update t s, r, congrArg (Action.embed view update s) hrun⟩
    · exact .inr ⟨update t s, f, congrArg (Action.embed view update s) hrun⟩

end Embed

/-! ## The console and the simple functions -/

/-- **A plain result** holds no code and no data. -/
def HostResult.IsPlain : HostResult → Prop
  | .value (.data ..) => False
  | .value (.closure ..) => False
  | .list _ => False
  | _ => True

theorem HostResult.IsPlain.kept {D : Discipline} {r : HostResult} (h : r.IsPlain) : r.Kept D := by
  cases r with
  | value v =>
    cases v with
    | data => exact h.elim
    | closure => exact h.elim
    | _ => trivial
  | list => exact h.elim
  | _ => trivial

namespace Console

theorem output_writeLine (c : Console) (line : String) :
    c.output.toList <+: (c.writeLine line).output.toList := by
  rw [writeLine, String.toList_append, String.toList_append, List.append_assoc]
  exact List.prefix_append _ _

theorem output_readLine {c c' : Console} {line : List Char} (h : c.readLine = some (line, c')) :
    c'.output = c.output := by
  unfold readLine at h
  split at h
  · cases h
  · cases h
    rfl

/-- **The functions of the console** call nothing, write at the end of the
output, and give back units and integers. -/
theorem ends {n : Native Console} (h : n ∈ natives) (c : Console) (args : List Value) :
    (n.run c args).Ends (c.output.toList <+: ·.output.toList) HostResult.IsPlain := by
  simp only [natives, List.mem_cons, List.not_mem_nil, or_false] at h
  rcases h with rfl | rfl | rfl | rfl
  · dsimp only
    unfold printInt
    split
    · split
      · exact ⟨c.output_writeLine _, trivial⟩
      · exact List.prefix_rfl
    · exact List.prefix_rfl
    · exact List.prefix_rfl
  · dsimp only
    unfold print
    split
    · split
      · exact ⟨c.output_writeLine _, trivial⟩
      · exact List.prefix_rfl
    · exact List.prefix_rfl
  · dsimp only
    unfold printUnit
    split
    · exact ⟨c.output_writeLine _, trivial⟩
    · exact List.prefix_rfl
    · exact List.prefix_rfl
  · dsimp only
    unfold readInt
    split
    · exact List.prefix_rfl
    · next line c' hline =>
      have hsame : c.output.toList <+: c'.output.toList :=
        output_readLine hline ▸ List.prefix_rfl
      dsimp only
      split
      · exact ⟨hsame, trivial⟩
      · exact hsame

theorem printInt_faces (c : Console) (args : List Value) :
    c.printInt (Value.faces args) = c.printInt args := by
  cases args with
  | nil => rfl
  | cons v vs =>
    cases v with
    | int n =>
      unfold printInt
      simp only [Value.faces, Value.face]
    | _ => rfl

theorem print_faces (c : Console) (args : List Value) :
    c.print (Value.faces args) = c.print args := by
  cases args with
  | nil => rfl
  | cons v vs => rw [Value.faces, print, print, v.text_face]

theorem printUnit_faces (c : Console) (args : List Value) :
    c.printUnit (Value.faces args) = c.printUnit args := by
  cases args with
  | nil => rfl
  | cons v vs => cases v <;> rfl

/-- **The functions of the console only look at values.** -/
theorem onlooker_natives : ∀ n ∈ natives, n.Onlooker := by
  intro n hn
  refine ⟨?_, fun c args => (ends hn c args).eq_done_or_fail⟩
  simp only [natives, List.mem_cons, List.not_mem_nil, or_false] at hn
  rcases hn with rfl | rfl | rfl | rfl
  · exact printInt_faces
  · exact print_faces
  · exact printUnit_faces
  · exact fun _ _ => rfl

end Console

namespace Desk

/-- What has been written to the console. -/
def written (d : Desk) : List Char := d.console.output.toList

theorem letsThrough_consoleNatives {n : Native Desk} (h : n ∈ consoleNatives) :
    n.LetsThrough F := by
  obtain ⟨m, hm, rfl⟩ := List.mem_map.1 h
  have hthrough : m.LetsThrough F := fun c args => (Console.ends hm c args).letsThrough
  exact hthrough.embed fun _ => rfl

theorem appends_consoleNatives {n : Native Desk} (h : n ∈ consoleNatives) :
    n.Appends written := by
  obtain ⟨m, hm, rfl⟩ := List.mem_map.1 h
  have happends : m.Appends (·.output.toList) := fun c args => (Console.ends hm c args).appends
  exact happends.embed fun _ _ => rfl

theorem keeps_consoleNatives {D : Discipline} {n : Native Desk} (h : n ∈ consoleNatives) :
    n.Keeps D (fun _ => True) fun _ => True := by
  obtain ⟨m, hm, rfl⟩ := List.mem_map.1 h
  have hkeeps : m.Keeps D (fun _ => True) fun _ => True := fun c args _ _ =>
    (Console.ends hm c args).keeps fun _ hr => hr.kept
  exact hkeeps.embed

theorem onlooker_consoleNatives {n : Native Desk} (h : n ∈ consoleNatives) : n.Onlooker := by
  obtain ⟨m, hm, rfl⟩ := List.mem_map.1 h
  exact (Console.onlooker_natives m hm).embed

end Desk

namespace Stock

variable {Q : HostResult → Prop}

theorem ends_onFirst (d : Desk) {f : Value → Except HostFault HostResult}
    (hf : ∀ v r, f v = .ok r → Q r) (args : List Value) :
    (onFirst d f args).Ends (d.written <+: ·.written) Q := by
  unfold onFirst
  split
  · exact List.prefix_rfl
  · split
    · next hr => exact ⟨List.prefix_rfl, hf _ _ hr⟩
    · exact List.prefix_rfl

/-- **One of the simple functions makes a call**, the others end at once.
What they give back is plain, an argument, a list of numbers, or the fixed
result. -/
theorem ends_run (name : String) (kind : Stock) (d : Desk) (args : List Value)
    (hplain : ∀ r : HostResult, r.IsPlain → Q r) (hargs : ∀ v ∈ args, Q (.value v))
    (hlist : ∀ n, Q (.value (countdown n))) (hconst : ∀ r, kind = .const r → Q r) :
    (kind.run name d args).Ends (d.written <+: ·.written) Q
      ∨ ∃ f rest, args = f :: rest ∧ kind.run name d args = .call d f rest passOn := by
  cases kind with
  | unit => exact .inl ⟨List.prefix_rfl, hplain _ trivial⟩
  | const r => exact .inl ⟨List.prefix_rfl, hconst r rfl⟩
  | first =>
    cases args with
    | nil => exact .inl ⟨List.prefix_rfl, hplain _ trivial⟩
    | cons v rest => exact .inl ⟨List.prefix_rfl, hargs v List.mem_cons_self⟩
  | count => exact .inl ⟨List.prefix_rfl, hplain _ trivial⟩
  | nargs => exact .inl ⟨List.prefix_rfl, hplain _ trivial⟩
  | double =>
    refine .inl (ends_onFirst d (fun v r hr => hplain r ?_) args)
    unfold doubled at hr
    split at hr <;> cases hr <;> trivial
  | range =>
    refine .inl (ends_onFirst d (fun v r hr => ?_) args)
    unfold below at hr
    split at hr <;> cases hr <;> exact hlist _
  | apply =>
    cases args with
    | nil => exact .inl List.prefix_rfl
    | cons f rest => exact .inr ⟨f, rest, rfl, rfl⟩
  | fail => exact .inl List.prefix_rfl
  | reject => exact .inl List.prefix_rfl

theorem letsThrough_native (kind : Stock) (name : String) (arity? : Option Nat) :
    (kind.native name arity?).LetsThrough F := by
  intro d args
  rcases ends_run (Q := fun _ => True) name kind d args (fun _ _ => trivial) (fun _ _ => trivial)
    (fun _ => trivial) (fun _ _ => trivial) with h | ⟨f, rest, -, h⟩
  · exact h.letsThrough
  · dsimp only [native]
    rw [h]
    refine ⟨fun _ _ _ => rfl, fun t outcome => ?_⟩
    cases outcome <;> trivial

theorem appends_native (kind : Stock) (name : String) (arity? : Option Nat) :
    (kind.native name arity?).Appends Desk.written := by
  intro d args
  rcases ends_run (Q := fun _ => True) name kind d args (fun _ _ => trivial) (fun _ _ => trivial)
    (fun _ => trivial) (fun _ _ => trivial) with h | ⟨f, rest, -, h⟩
  · exact h.appends
  · dsimp only [native]
    rw [h]
    refine ⟨List.prefix_rfl, fun t outcome => ?_⟩
    cases outcome <;> exact List.prefix_rfl

theorem kept_countdown {D : Discipline} (hnil : D.Data "Nil" 0) (hcons : D.Data "Cons" 2) :
    (n : Nat) → (countdown n).Kept D
  | 0 => ⟨hnil, trivial⟩
  | n + 1 => ⟨hcons, trivial, kept_countdown hnil hcons n, trivial⟩

/-- **The simple functions keep what they are given**, if lists of numbers
may be built and the fixed result may be given back. -/
theorem keeps_native {D : Discipline} (hnil : D.Data "Nil" 0) (hcons : D.Data "Cons" 2)
    (kind : Stock) (hconst : ∀ r, kind = .const r → r.Kept D) (name : String)
    (arity? : Option Nat) : (kind.native name arity?).Keeps D (fun _ => True) fun _ => True := by
  intro d args _ hargs
  rcases ends_run name kind d args (fun _ hr => hr.kept) (Value.keptAll_iff.1 hargs)
    (kept_countdown hnil hcons) hconst with h | ⟨f, rest, rfl, h⟩
  · exact h.keeps fun _ hr => hr
  · dsimp only [native]
    rw [h]
    refine ⟨trivial, hargs.1, hargs.2, fun t outcome _ hok _ => ?_⟩
    cases outcome with
    | ok v => exact ⟨trivial, hok v rfl⟩
    | error f => exact ⟨trivial, trivial⟩

end Stock

end EmberLang
