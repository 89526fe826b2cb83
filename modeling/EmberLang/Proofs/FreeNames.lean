import EmberLang.Proofs.Arities
import EmberLang.Proofs.Natives
import EmberLang.Proofs.Simulation

/-!
# Only free names matter

An expression looks up the names that occur free in it and no others, so
it does the same in any two scopes that agree on those. What it is to
agree has to be said with care. The scopes may bind a name to different
closures, as long as nobody can tell these apart; and to tell closures
apart means to call them, which looks up the free names of their bodies in
the scopes they have captured, and so on. A layer of functions is captured
by its own functions, so this goes round in circles, and the relation is a
greatest one: two values are *indistinguishable* (`Value.Indistinguishable`)
if they belong to some relation under which related values have the same
constructors, and closures the same function and captured scopes that
relate the free names of its body.

Which names occur free depends on the constructors (`Node.hasFree`): a bare
name in a pattern is a variable unless it is that of a constructor. Here
lies the one condition. A match pairs patterns with fields as far as both
go, so it binds all variables of its pattern only if the value has as many
fields as were declared. On data with fewer fields a variable of the
pattern stays unbound, the arm sees what the name means outside, and a
name that is not free in a case matters after all
(`Engine.eval_shortData`). Evaluation never builds such data, but the host
may. The main result is for scopes and hosts whose data is as declared.
-/

namespace EmberLang

/-! ## Free names -/

namespace Node

mutual

/-- **Whether a name occurs free in a tree**, where a variable of a pattern
is a bare name but that of a constructor. -/
def hasFree (t : ConstructorTable) (x : Name) : Node → Bool
  | program _ ds body =>
    !(functionNames ds).any (·.same x) && (anyFree t x ds || hasFree t x body)
  | funDecl _ _ _ params body _ =>
    !(params.filterMap name?).any (·.same x) && hasFree t x body
  | var _ name => name.same x
  | call _ callee args => hasFree t x callee || anyFree t x args
  | intrinsicCall _ _ args => anyFree t x args
  | directiveCall _ _ args => anyFree t x args
  | construct _ _ args => anyFree t x args
  | arm _ pattern body => !(patternVars t pattern).any (·.same x) && hasFree t x body
  | caseOf _ scrutinee arms => hasFree t x scrutinee || anyFree t x arms
  | letIn _ name value body _ => hasFree t x value || (!name.same x && hasFree t x body)
  | seq _ first rest => hasFree t x first || hasFree t x rest
  | lambda _ params body => !params.any (·.same x) && hasFree t x body
  | block _ ds body =>
    !(functionNames ds).any (·.same x) && (anyFree t x ds || hasFree t x body)
  | _ => false

/-- Whether a name occurs free in one of several trees. -/
def anyFree (t : ConstructorTable) (x : Name) : List Node → Bool
  | [] => false
  | n :: ns => hasFree t x n || anyFree t x ns

end

theorem anyFree_of_mem {t : ConstructorTable} {x : Name} {n : Node} {ns : List Node} (hn : n ∈ ns)
    (hx : n.hasFree t x = true) : anyFree t x ns = true := by
  induction hn with
  | head ns => rw [anyFree, hx, Bool.true_or]
  | tail m _ ih => rw [anyFree, ih, Bool.or_true]

mutual

/-- Names that are the same occur free in the same trees. -/
theorem hasFree_congr {t : ConstructorTable} {x y : Name} (h : x.same y = true) (n : Node) :
    n.hasFree t x = n.hasFree t y := by
  cases n with
  | program p ds body =>
    simp only [hasFree, Name.same_congr h, anyFree_congr h ds, hasFree_congr h body]
  | funDecl p name tps params body r =>
    simp only [hasFree, Name.same_congr h, hasFree_congr h body]
  | var p name => exact Name.same_congr h name
  | call p callee args => rw [hasFree, hasFree, hasFree_congr h callee, anyFree_congr h args]
  | intrinsicCall p op args => exact anyFree_congr h args
  | directiveCall p name args => exact anyFree_congr h args
  | construct p c args => exact anyFree_congr h args
  | arm p pattern body => simp only [hasFree, Name.same_congr h, hasFree_congr h body]
  | caseOf p scrutinee arms =>
    rw [hasFree, hasFree, hasFree_congr h scrutinee, anyFree_congr h arms]
  | letIn p name value body type =>
    rw [hasFree, hasFree, Name.same_congr h, hasFree_congr h value, hasFree_congr h body]
  | seq p first rest => rw [hasFree, hasFree, hasFree_congr h first, hasFree_congr h rest]
  | lambda p params body => simp only [hasFree, Name.same_congr h, hasFree_congr h body]
  | block p ds body =>
    simp only [hasFree, Name.same_congr h, anyFree_congr h ds, hasFree_congr h body]
  | _ => rfl

theorem anyFree_congr {t : ConstructorTable} {x y : Name} (h : x.same y = true) (ns : List Node) :
    anyFree t x ns = anyFree t y ns := by
  cases ns with
  | nil => rfl
  | cons n ns => rw [anyFree, anyFree, hasFree_congr h n, anyFree_congr h ns]

end

end Node

/-- Whether a name occurs free in a function: in its body, and not as a
parameter. -/
def Function.hasFree (t : ConstructorTable) (x : Name) (f : Function) : Bool :=
  !f.params.any (·.same x) && f.body.hasFree t x

/-! ## Scopes that agree -/

/-- **Two scopes agree on some names**: both leave a name unbound or bind
it to values that are related. -/
def Scope.AgreeOn (R : Value → Value → Prop) (P : Name → Prop) (s s' : Scope) : Prop :=
  ∀ x, P x → Option.Rel R (s.lookup? x) (s'.lookup? x)

namespace Scope.AgreeOn

variable {R : Value → Value → Prop} {P Q : Name → Prop} {s s' : Scope}

theorem mono (h : s.AgreeOn R P s') (himp : ∀ x, Q x → P x) : s.AgreeOn R Q s' :=
  fun x hx => h x (himp x hx)

theorem imp {R' : Value → Value → Prop} (h : s.AgreeOn R P s') (himp : ∀ v w, R v w → R' v w) :
    s.AgreeOn R' P s' := by
  intro x hx
  have hx := h x hx
  revert hx
  generalize s.lookup? x = o
  generalize s'.lookup? x = o'
  rintro (hvw | _)
  · exact .some (himp _ _ hvw)
  · exact .none

/-- A name that is bound in both need not agree further out. -/
theorem bind {name : Name} {v v' : Value} (hv : R v v')
    (h : s.AgreeOn R (fun x => P x ∧ name.same x = false) s') :
    (Scope.bind name v s).AgreeOn R P (Scope.bind name v' s') := by
  intro x hx
  rw [lookup?, lookup?]
  split
  · exact .some hv
  · next hname => exact h x ⟨hx, Bool.eq_false_iff.2 hname⟩

theorem bindAll {bs bs' : List (Name × Value)}
    (hbs : List.Forall₂ (fun b b' => b'.1 = b.1 ∧ R b.2 b'.2) bs bs')
    (h : s.AgreeOn R (fun x => P x ∧ ∀ b ∈ bs, b.1.same x = false) s') :
    (s.bindAll bs).AgreeOn R P (s'.bindAll bs') := by
  induction hbs generalizing s s' with
  | nil => exact h.mono fun x hx => ⟨hx, by simp⟩
  | @cons b b' bs bs' hb _ ih =>
    obtain ⟨hname, hvalue⟩ := hb
    refine @ih (.bind b.1 b.2 s) (.bind b'.1 b'.2 s') ?_
    rw [hname]
    refine bind hvalue (h.mono ?_)
    rintro x ⟨⟨hx, hrest⟩, hfirst⟩
    exact ⟨hx, List.forall_mem_cons.2 ⟨hfirst, hrest⟩⟩

theorem isBound_eq (h : s.AgreeOn R P s') {x : Name} (hx : P x) : s'.isBound x = s.isBound x := by
  have hx := h x hx
  unfold isBound
  revert hx
  generalize s.lookup? x = o
  generalize s'.lookup? x = o'
  rintro (_ | _) <;> rfl

end Scope.AgreeOn

/-! ## Values that cannot be told apart -/

namespace Value

/-- **Two values look the same from outside** if their parts are related:
the fields of data, and what the free names of a closure mean. -/
def Resembles (t : ConstructorTable) (R : Value → Value → Prop) : Value → Value → Prop
  | data c fs, w => ∃ fs', w = data c fs' ∧ List.Forall₂ R fs fs'
  | closure f s, w => ∃ s', w = closure f s' ∧ s.AgreeOn R (fun x => f.hasFree t x = true) s'
  | v, w => w = v

/-- **Two values are indistinguishable**: some relation holds of them under
which related values resemble each other. -/
def Indistinguishable (t : ConstructorTable) (v w : Value) : Prop :=
  ∃ R : Value → Value → Prop, (∀ v w, R v w → v.Resembles t R w) ∧ R v w

variable {t : ConstructorTable} {v w : Value}

theorem Resembles.mono {R R' : Value → Value → Prop} (h : v.Resembles t R w)
    (himp : ∀ v w, R v w → R' v w) : v.Resembles t R' w := by
  cases v with
  | data c fs =>
    obtain ⟨fs', rfl, hfs⟩ := h
    exact ⟨fs', rfl, hfs.imp himp⟩
  | closure f s =>
    obtain ⟨s', rfl, hs⟩ := h
    exact ⟨s', rfl, hs.imp himp⟩
  | _ => exact h

namespace Indistinguishable

theorem resembles (h : v.Indistinguishable t w) : v.Resembles t (Indistinguishable t) w := by
  obtain ⟨R, hR, hvw⟩ := h
  exact (hR v w hvw).mono fun v w h => ⟨R, hR, h⟩

/-- **To show that values are indistinguishable** it is enough that related
values resemble each other up to what is already known to be so. -/
theorem of_relation (R : Value → Value → Prop)
    (hR : ∀ v w, R v w → v.Resembles t (fun v w => R v w ∨ v.Indistinguishable t w) w)
    (h : R v w) : v.Indistinguishable t w := by
  refine ⟨fun v w => R v w ∨ v.Indistinguishable t w, ?_, .inl h⟩
  rintro v w (h | h)
  · exact hR v w h
  · exact h.resembles.mono fun _ _ => .inr

/-- Values that resemble each other are indistinguishable if their parts
are. -/
theorem of_resembles (h : v.Resembles t (Indistinguishable t) w) : v.Indistinguishable t w :=
  of_relation (fun v w => v.Resembles t (Indistinguishable t) w)
    (fun _ _ h => h.mono fun _ _ => .inr) h

theorem refl (v : Value) : v.Indistinguishable t v := by
  refine ⟨Eq, ?_, rfl⟩
  rintro v _ rfl
  cases v with
  | data c fs => exact ⟨fs, rfl, List.forall₂_refl fs⟩
  | closure f s =>
    refine ⟨s, rfl, fun x _ => ?_⟩
    cases s.lookup? x with
    | none => exact .none
    | some v => exact .some rfl
  | _ => rfl

mutual

theorem face_eq : (v : Value) → {w : Value} → v.Indistinguishable t w → w.face = v.face
  | .data c fs, w, h => by
    obtain ⟨fs', rfl, hfs⟩ := h.resembles
    rw [face, face, faces_eq fs hfs]
  | .closure f s, w, h => by
    obtain ⟨s', rfl, -⟩ := h.resembles
    rfl
  | .int _, _, h | .real _, _, h | .bool _, _, h | .char _, _, h | .unit, _, h =>
    congrArg face h.resembles

theorem faces_eq : (vs : List Value) → {ws : List Value} →
    List.Forall₂ (Indistinguishable t) vs ws → faces ws = faces vs
  | [], _, h => by cases h; rfl
  | v :: vs, _, h => by
    cases h with
    | cons hv hvs => rw [faces, faces, face_eq v hv, faces_eq vs hvs]

end

end Indistinguishable

end Value

/-- **Layers of the same functions agree** on what their functions and the
scopes around them agree on. -/
theorem Scope.AgreeOn.functions {t : ConstructorTable} {P : Name → Prop} {fs : List Function}
    {s s' : Scope}
    (h : s.AgreeOn (Value.Indistinguishable t)
      (fun x => (∀ f ∈ fs, f.name.same x = false)
        ∧ (P x ∨ ∃ f ∈ fs, f.hasFree t x = true)) s') :
    (Scope.functions fs s).AgreeOn (Value.Indistinguishable t) P (Scope.functions fs s') := by
  -- The closures of the two layers capture the layers themselves, so the relation
  -- has to hold of all of them at once.
  let Layer (v w : Value) : Prop :=
    ∃ f ∈ fs, v = .closure f (.functions fs s) ∧ w = .closure f (.functions fs s')
  have hlookup : ∀ x, (P x ∨ ∃ f ∈ fs, f.hasFree t x = true) →
      Option.Rel (fun v w => Layer v w ∨ v.Indistinguishable t w)
        ((Scope.functions fs s).lookup? x) ((Scope.functions fs s').lookup? x) := by
    intro x hx
    rw [lookup?, lookup?]
    cases hf : fs.find? (·.name.same x) with
    | some f => exact .some (.inl ⟨f, List.mem_of_find?_eq_some hf, rfl, rfl⟩)
    | none =>
      have hnone : ∀ f ∈ fs, f.name.same x = false := by
        simpa using List.find?_eq_none.1 hf
      exact h.imp (fun _ _ => .inr) x ⟨hnone, hx⟩
  have hlayer : ∀ v w, Layer v w → v.Indistinguishable t w := fun v w =>
    Value.Indistinguishable.of_relation Layer (by
      rintro _ _ ⟨f, hf, rfl, rfl⟩
      exact ⟨_, rfl, fun x hx => hlookup x (.inr ⟨f, hf, hx⟩)⟩)
  have hagree : (Scope.functions fs s).AgreeOn _ P (Scope.functions fs s') :=
    fun x hx => hlookup x (.inl hx)
  exact hagree.imp fun v w h => h.elim (hlayer v w) id

/-! ## Evaluation -/

variable {σ : Type} {R : σ → σ → Prop} {t : ConstructorTable}

/-- **The likeness of runs in scopes that agree on free names.** Values
that correspond are indistinguishable, with data as declared. -/
def byFreeNames (t : ConstructorTable) (R : σ → σ → Prop) : Likeness σ where
  place := Eq
  failure := Eq
  value v v' := v.Indistinguishable t v' ∧ v.Kept (arities t)
  code s n s' n' := n' = n ∧ s.Kept (arities t)
    ∧ s.AgreeOn (Value.Indistinguishable t) (fun x => n.hasFree t x = true) s'
  host := R
  traced := True

section Parts

variable {s s' : Scope}

/-- The parts of an expression have no free names but its own. -/
theorem byFreeNames_parts {n : Node} {ns : List Node}
    (hn : (byFreeNames t R).code s n s' n)
    (hparts : ∀ x, Node.anyFree t x ns = true → n.hasFree t x = true) :
    List.Forall₂ (fun a a' => (byFreeNames t R).code s a s' a') ns ns := by
  refine List.forall₂_same.2 fun a ha => ⟨rfl, hn.2.1, hn.2.2.mono fun x hx => ?_⟩
  exact hparts x (Node.anyFree_of_mem ha hx)

theorem byFreeNames_part {n m : Node} (hn : (byFreeNames t R).code s n s' n)
    (hpart : ∀ x, m.hasFree t x = true → n.hasFree t x = true) :
    (byFreeNames t R).code s m s' m :=
  ⟨rfl, hn.2.1, hn.2.2.mono hpart⟩

/-- What has been bound need not be free any more. -/
theorem byFreeNames_bindAll {n : Node} {P : Name → Prop} (hs : s.Kept (arities t))
    (hagree : s.AgreeOn (Value.Indistinguishable t) P s') {bs bs' : List (Name × Value)}
    (hbs : (byFreeNames t R).Bindings bs bs')
    (hfree : ∀ x, n.hasFree t x = true → (∀ b ∈ bs, b.1.same x = false) → P x) :
    (byFreeNames t R).code (s.bindAll bs) n (s'.bindAll bs') n := by
  have hparts : List.Forall₂ (fun b b' : Name × Value => b.2.Kept (arities t)
      ∧ b'.1 = b.1 ∧ b.2.Indistinguishable t b'.2) bs bs' :=
    hbs.imp fun b b' h => ⟨h.2.2, h.1, h.2.1⟩
  obtain ⟨hkept, hsame⟩ := (List.forall₂_and_left _ _).1 hparts
  exact ⟨rfl, hs.bindAll hkept, .bindAll hsame (hagree.mono fun x hx => hfree x hx.1 hx.2)⟩

/-- **The arms of a case correspond**: a match binds all variables of its
pattern, so the names that the body still looks up outside are free in the
case. -/
theorem byFreeNames_arms {E : Engine σ} (hcases : E.caseTable = t) {p : Option Position}
    {scrutinee : Node} {arms : List Node}
    (hn : (byFreeNames t R).code s (.caseOf p scrutinee arms) s' (.caseOf p scrutinee arms)) :
    (byFreeNames t R).Arms E E s arms s' arms := by
  cases hc : Case.compile E.caseTable arms with
  | error f => exact .inl ⟨f, f, hc, hc⟩
  | ok c =>
    refine .inr ⟨c, c, hc, hc, fun v v' hv => ?_⟩
    have hface (v v' : Value) (h : (byFreeNames t R).value v v') : v'.face = v.face :=
      Value.Indistinguishable.face_eq v h.1
    have hfields (c c' : Name) (fs fs' : List Value)
        (h : (byFreeNames t R).value (.data c fs) (.data c' fs')) :
        List.Forall₂ (byFreeNames t R).value fs fs' := by
      obtain ⟨hsame, -, hkept⟩ := h
      obtain ⟨gs, hdata, hfs⟩ := hsame.resembles
      obtain ⟨rfl, rfl⟩ := Value.data.inj hdata
      have hboth := (List.forall₂_and_left _ _).2 ⟨Value.keptAll_iff.1 hkept, hfs⟩
      exact hboth.imp fun _ _ h => h.symm
    rcases c.select?_rel hface hfields hv with hnone | ⟨i, bs, bs', hr, hr', hbs⟩
    · exact .inl hnone
    · obtain ⟨q, pattern, body, resolved, names, harm, hresolve, hmatch⟩ :=
        Case.armMatches_of_select? hc hr
      refine .inr ⟨i, bs, bs', hr, hr', q, pattern, body, q, pattern, body, harm, harm, ?_⟩
      rw [hcases] at hresolve
      have hbinds := Node.matchPattern_binds (D := arities t) (fun _ _ h => h) hresolve hv.2 hmatch
      refine byFreeNames_bindAll hn.2.1 hn.2.2 hbs fun x hx hunbound => ?_
      have hvars : (pattern.patternVars t).any (·.same x) = false := by
        rw [List.any_eq_false]
        intro y hy
        obtain ⟨b, hb, rfl⟩ := List.mem_map.1 (hbinds ▸ hy)
        simp [hunbound b hb]
      have harms : Node.anyFree t x arms = true :=
        Node.anyFree_of_mem (List.mem_of_getElem? harm) (by rw [Node.hasFree, hvars, hx]; rfl)
      rw [Node.hasFree, harms, Bool.or_true]

end Parts

/-- The functions of a block are the same on both sides. -/
theorem byFreeNames_announce (E : Engine σ) (ds : List Node) :
    (byFreeNames t R).Runs (fun fs fs' => fs' = fs ∧ Node.declaredFunctions ds = (fs, .ok ()))
      (E.announce ds) (E.announce ds) := by
  unfold Engine.announce
  cases hds : Node.declaredFunctions ds with
  | mk fs outcome =>
    refine (InStep.forM (R := Eq) (List.forall₂_refl fs) ?_).bind fun _ _ _ => ?_
    · rintro f _ rfl
      exact Likeness.inStep_trace (fun _ => rfl) rfl _ _ rfl rfl
    · cases outcome with
      | error f => exact .throw rfl
      | ok u => exact .pure ⟨rfl, rfl⟩

/-- **Evaluation keeps in step** in scopes that agree on free names. -/
theorem byFreeNames_simulates {E : Engine σ} (htable : E.table = t) (hcases : E.caseTable = t)
    (hnatives : ∀ n ∈ E.natives, (byFreeNames t R).Respects n)
    (hintrinsics : ∀ i ∈ E.intrinsics.entries, i.Keeps (arities t)) :
    Simulates (byFreeNames t R) E E where
  failure_refl _ := rfl
  failure_of h c := by rw [show _ = _ from h]; rfl
  place_none := rfl
  constant l := ⟨.refl l.value, l.kept_value⟩
  unitValue := ⟨.refl .unit, trivial⟩
  computed i hi ls r hr := by
    have hkept := hintrinsics i hi ls r hr
    cases r with
    | value v => exact ⟨.refl v, hkept⟩
    | _ => rfl
  face h := h.1.face_eq
  data := by
    intro c d k fs fs' hc hlength hd hfs
    obtain ⟨hkept, hsame⟩ := (List.forall₂_and_left _ _).1 (hfs.imp fun _ _ h => h.symm)
    refine ⟨.of_resembles ⟨fs', rfl, hsame⟩, ⟨k, ?_, hlength⟩, Value.keptAll_iff.2 hkept⟩
    rw [htable] at hc
    rcases hd with rfl | rfl
    · exact hc
    · exact t.get?_name hc
  closure := by
    rintro f s f' s' ⟨hsame, -, hs⟩ args args' hlength hargs
    obtain ⟨s'', hclosure, hagree⟩ := hsame.resembles
    obtain ⟨rfl, rfl⟩ := Value.closure.inj hclosure
    refine byFreeNames_bindAll hs hagree ((byFreeNames t R).bindings_zip f'.params hargs) ?_
    intro x hx hunbound
    have hparams : f'.params.any (·.same x) = false := by
      rw [List.any_eq_false]
      intro y hy
      have hnames : (f'.params.zip args).map Prod.fst = f'.params := List.map_fst_zip hlength.ge
      rw [← hnames] at hy
      obtain ⟨b, hb, rfl⟩ := List.mem_map.1 hy
      simp [hunbound b hb]
    rw [Function.hasFree, hparams, hx]
    rfl
  natives := rfl
  respects := hnatives
  intrinsics := rfl
  detail := rfl
  externs _ := rfl
  literal := by
    rintro s p v s' _ ⟨rfl, -⟩
    exact ⟨p, rfl⟩
  unit := by
    rintro s p s' _ ⟨rfl, -⟩
    exact ⟨p, rfl⟩
  var := by
    rintro s p x s' _ ⟨rfl, hs, hagree⟩
    refine ⟨p, rfl, ?_⟩
    unfold Scope.get
    refine (Concur.refl (R := fun _ _ => True) (fun _ => rfl) (fun _ => trivial) x.check).bind ?_
    intro _ _ _
    -- a variable is free in itself, so the scopes agree on it
    have hx := hagree x x.same_self
    have hkept : ∀ v, s.lookup? x = some v → v.Kept (arities t) := fun v => hs.lookup?
    revert hx hkept
    generalize s.lookup? x = o
    generalize s'.lookup? x = o'
    rintro (hvw | _) hkept
    · exact ⟨hvw, hkept _ rfl⟩
    · exact rfl
  call := by
    rintro s p callee args s' _ hn
    obtain rfl := hn.1
    have hcallee := byFreeNames_part hn (m := callee) fun x hx => by
      rw [Node.hasFree, hx, Bool.true_or]
    refine ⟨p, callee, args, rfl, rfl, hcallee, byFreeNames_parts hn fun x hx => ?_, ?_⟩
    · rw [Node.hasFree, hx, Bool.or_true]
    · -- a callee is foreign if its name is unbound, which is the same in both scopes
      cases callee with
      | var q x =>
        rw [Engine.foreignName?, Engine.foreignName?,
          hcallee.2.2.isBound_eq (x := x) (by rw [Node.hasFree, x.same_self])]
      | _ => rfl
  intrinsicCall := by
    rintro s p op args s' _ hn
    obtain rfl := hn.1
    exact ⟨p, args, rfl, rfl, byFreeNames_parts hn fun x hx => by rwa [Node.hasFree]⟩
  directiveCall := by
    rintro s p name args s' _ hn
    obtain rfl := hn.1
    exact ⟨p, args, rfl, rfl, byFreeNames_parts hn fun x hx => by rwa [Node.hasFree]⟩
  construct := by
    rintro s p c args s' _ hn
    obtain rfl := hn.1
    exact ⟨p, args, rfl, rfl, byFreeNames_parts hn fun x hx => by rwa [Node.hasFree], rfl⟩
  caseOf := by
    rintro s p scrutinee arms s' _ hn
    obtain rfl := hn.1
    refine ⟨p, scrutinee, arms, rfl, rfl, byFreeNames_part hn fun x hx => ?_,
      byFreeNames_arms hcases hn⟩
    rw [Node.hasFree, hx, Bool.true_or]
  letIn := by
    rintro s p name value body type s' _ hn
    obtain rfl := hn.1
    refine ⟨p, value, body, type, rfl, byFreeNames_part hn fun x hx => ?_, fun v v' hv => ?_⟩
    · rw [Node.hasFree, hx, Bool.true_or]
    · have hbs : (byFreeNames t R).Bindings [(name, v)] [(name, v')] := .cons ⟨rfl, hv⟩ .nil
      refine byFreeNames_bindAll hn.2.1 hn.2.2 hbs fun x hx hunbound => ?_
      rw [Node.hasFree, hx, hunbound (name, v) List.mem_cons_self, Bool.not_false, Bool.and_self,
        Bool.or_true]
  seq := by
    rintro s p first rest s' _ hn
    obtain rfl := hn.1
    refine ⟨p, first, rest, rfl, byFreeNames_part hn fun x hx => ?_,
      byFreeNames_part hn fun x hx => ?_⟩
    · rw [Node.hasFree, hx, Bool.true_or]
    · rw [Node.hasFree, hx, Bool.or_true]
  lambda := by
    rintro s p params body s' _ ⟨rfl, hs, hagree⟩
    refine ⟨p, body, rfl, .of_resembles ⟨s', rfl, hagree.mono fun x hx => ?_⟩,
      ⟨trivial, trivial⟩, hs⟩
    rwa [Node.hasFree]
  block := by
    rintro s p ds body s' _ ⟨rfl, hs, hagree⟩
    refine ⟨p, ds, body, rfl, (byFreeNames_announce E ds).mono ?_⟩
    rintro fs _ ⟨rfl, hds⟩
    refine ⟨rfl, ⟨fun _ _ => ⟨trivial, trivial⟩, hs⟩, .functions (hagree.mono ?_)⟩
    rintro x ⟨hunbound, hx⟩
    -- names of the block's own functions never reach the scope outside
    have hnames : (Node.functionNames ds).any (·.same x) = false := by
      rw [Node.functionNames_of_declaredFunctions hds, List.any_eq_false]
      intro y hy
      obtain ⟨f, hf, rfl⟩ := List.mem_map.1 hy
      simp [hunbound f hf]
    rw [Node.hasFree, hnames]
    rcases hx with hx | ⟨f, hf, hx⟩
    · rw [hx, Bool.or_true]
      rfl
    · obtain ⟨q, tps, params, r, hmem, hparams⟩ := Node.mem_of_declaredFunctions hds hf
      rw [Function.hasFree, ← hparams] at hx
      rw [Node.anyFree_of_mem hmem (by rwa [Node.hasFree])]
      rfl
  misplaced := by
    rintro s n s' _ ⟨rfl, -⟩ hrule
    exact ⟨hrule, rfl⟩

/-! ## Loaded programs -/

namespace Interpreter

/-- **Evaluation depends on free names only.** Once a program is loaded,
every expression does the same in any two scopes that agree on the names
free in it, from states of the host that correspond: the results are
indistinguishable or the failures the same, foreign calls and traces are
the same, and the states of the host correspond again. In particular
nothing changes where a name is bound that does not occur free. Data in the
scope, and what the host gives back, has to be as declared. -/
theorem eval_only_freeNames {root : Node} {I I₁ : Interpreter σ}
    (hload : I.perform (Session.load root) = (.ok (), I₁))
    (hnatives : ∀ n ∈ I.natives, (byFreeNames I₁.table R).Respects n)
    (hintrinsics : ∀ i ∈ I.intrinsics.entries, i.Keeps (arities I₁.table)) (limit depth : Nat)
    {s : Scope} (hs : I₁.table.FitsScope s) (e : Node) :
    (∀ s', s.AgreeOn (Value.Indistinguishable I₁.table) (fun x => e.hasFree I₁.table x = true) s' →
      (byFreeNames I₁.table R).Runs (Value.Indistinguishable I₁.table)
        (I₁.engine.eval (I₁.engine.callAt limit depth) s e)
        (I₁.engine.eval (I₁.engine.callAt limit depth) s' e))
    ∧ ∀ x v, e.hasFree I₁.table x = false →
      (byFreeNames I₁.table R).Runs (Value.Indistinguishable I₁.table)
        (I₁.engine.eval (I₁.engine.callAt limit depth) s e)
        (I₁.engine.eval (I₁.engine.callAt limit depth) (.bind x v s) e) := by
  obtain ⟨hn, hi, hcases⟩ : I₁.natives = I.natives ∧ I₁.intrinsics = I.intrinsics
      ∧ I₁.caseTable = I₁.table := by
    obtain ⟨_, _, _, _, _, _, _, _, -, -, -, -, -, -, rfl⟩ := Session.load_ok hload
    exact ⟨rfl, rfl, rfl⟩
  rw [← hn] at hnatives
  rw [← hi] at hintrinsics
  have G : Simulates (byFreeNames I₁.table R) I₁.engine I₁.engine :=
    byFreeNames_simulates rfl hcases hnatives hintrinsics
  have hagree : ∀ s', s.AgreeOn (Value.Indistinguishable I₁.table)
      (fun x => e.hasFree I₁.table x = true) s' →
      (byFreeNames I₁.table R).Runs (Value.Indistinguishable I₁.table)
        (I₁.engine.eval (I₁.engine.callAt limit depth) s e)
        (I₁.engine.eval (I₁.engine.callAt limit depth) s' e) := by
    intro s' h
    have hcode : (byFreeNames I₁.table R).code s e s' e := ⟨rfl, Scope.kept_arities_iff.2 hs, h⟩
    have hrun := Engine.eval_inStep G (Engine.callAt_inStep G limit depth) e e hcode
    exact hrun.mono fun _ _ hv => hv.1
  refine ⟨hagree, fun x v hx => hagree _ fun y hy => ?_⟩
  have hxy : x.same y = false := by
    rw [Bool.eq_false_iff]
    intro h
    rw [Node.hasFree_congr h, hy] at hx
    cases hx
  rw [Scope.lookup?_bind_of_not_same hxy]
  cases s.lookup? y with
  | none => exact .none
  | some w => exact .some (.refl w)

/-- The function that calls its first argument does not look into it. -/
theorem respects_applyNative {R : Unit → Unit → Prop} :
    (byFreeNames t R).Respects Session.applyNative := by
  intro s s' args args' hs hargs
  rcases hargs with _ | ⟨hf, _ | ⟨hv, _ | ⟨hw, hrest⟩⟩⟩
  · exact ⟨hs, rfl⟩
  · exact ⟨hs, rfl⟩
  · refine ⟨hs, hf, .cons hv .nil, fun u u' o o' hu ho => ?_⟩
    cases o with
    | ok a =>
      cases o' with
      | ok b => exact ⟨hu, ho⟩
      | error f => exact ho.elim
    | error f =>
      cases o' with
      | ok b => exact ho.elim
      | error f' => exact ⟨hu, ho⟩
  · exact ⟨hs, rfl⟩

/-- A closure that adds `k` and has also captured `z`. -/
def adder (z : Int) : Value :=
  .closure ⟨"add", ["y"], .intrinsicCall none "iadd" [.var none "k", .var none "y"]⟩
    (.bind "z" (.int z) (.bind "k" (.int 10) .empty))

theorem indistinguishable_adder (t : ConstructorTable) (z z' : Int) :
    (adder z).Indistinguishable t (adder z') := by
  refine .of_resembles ⟨_, rfl, fun x hx => ?_⟩
  have hk : Name.same "k" x = true := by
    simp only [Function.hasFree, Node.hasFree, Node.anyFree, List.any_cons, List.any_nil,
      Bool.or_false, Bool.and_eq_true, Bool.or_eq_true, Bool.not_eq_true'] at hx
    rcases hx with ⟨hy, hk | hy'⟩
    · exact hk
    · rw [hy] at hy'
      cases hy'
  have hz : Name.same "z" x = false := (Name.same_congr hk "z").symm.trans (by decide)
  rw [Scope.lookup?_bind_of_not_same hz, Scope.lookup?_bind_of_not_same hz, Scope.lookup?,
    if_pos hk]
  exact .some (.refl _)

/-- Calls `f` through the host. -/
def applyCall : Node := .call none (.var none "apply") [.var none "f", .literal none (.int 2)]

/-- **Two adders are called**, and nobody can tell which; nor does it matter
whether `z` is bound around the call. -/
theorem eval_applyCall_only_freeNames :
    ∃ I₁, Interpreter.perform { natives := [Session.applyNative], journal := { host := () } }
        (Session.load Session.callbackProgram) = (.ok (), I₁)
      ∧ adder 1 ≠ adder 2
      ∧ (byFreeNames I₁.table Eq).Runs (Value.Indistinguishable I₁.table)
        (I₁.engine.eval (I₁.engine.callAt 1 0) (.bind "f" (adder 1) .empty) applyCall)
        (I₁.engine.eval (I₁.engine.callAt 1 0) (.bind "f" (adder 2) .empty) applyCall)
      ∧ (byFreeNames I₁.table Eq).Runs (Value.Indistinguishable I₁.table)
        (I₁.engine.eval (I₁.engine.callAt 1 0) (.bind "f" (adder 1) .empty) applyCall)
        (I₁.engine.eval (I₁.engine.callAt 1 0)
          (.bind "z" (.data "Pair" []) (.bind "f" (adder 1) .empty)) applyCall) := by
  let I : Interpreter Unit := { natives := [Session.applyNative], journal := { host := () } }
  have hload : (I.perform (Session.load Session.callbackProgram)).1 = .ok () := by
    decide +kernel
  have hfits (T : ConstructorTable) : T.FitsScope (.bind "f" (adder 1) .empty) :=
    Scope.kept_arities_iff.1 ⟨⟨⟨trivial, trivial⟩, trivial, trivial, trivial⟩, trivial⟩
  obtain ⟨hagree, hlet⟩ := eval_only_freeNames (I := I) (R := Eq) (Prod.ext hload rfl)
    (List.forall_mem_singleton.2 respects_applyNative) IntrinsicTable.keeps_standard 1 0
    (hfits _) applyCall
  refine ⟨_, Prod.ext hload rfl, by simp [adder], hagree _ ?_, hlet "z" _ ?_⟩
  · exact .bind (indistinguishable_adder _ 1 2) fun _ _ => .none
  · decide

/-- A case on what the host gives, a cell of a list. -/
def cellCase : Node :=
  .caseOf none (.call none (.var none "mk") [])
    [.arm none (.patternCtor none "Cons" [.patternVar none "h", .patternVar none "t"])
      (.var none "t")]

/-- A program with this case. -/
def cellProgram : Node :=
  .program none
    [.dataDecl none "L" []
      [.constructorDecl none "Nil" [], .constructorDecl none "Cons" [.absent, .absent]],
      .externDecl none "mk" [] [] .absent]
    cellCase

/-- An interpreter whose host gives a cell with one field, though two are
declared. -/
def shortHost : Interpreter Unit where
  natives := [⟨"mk", none, fun s _ => .done s (.value (.data "Cons" [.int 1]))⟩]
  journal := { host := () }

/-- What the case comes to in a scope, once the program is loaded. -/
def cellOutcome (s : Scope) : Except Failure Value :=
  let I₁ := (shortHost.perform (Session.load cellProgram)).2
  (ExceptT.run (I₁.engine.eval (I₁.engine.callAt 1 0) s cellCase) I₁.journal).1

/-- **On short data a name matters that is not free**: the pattern does not
bind its variable, and the arm sees what the name means outside. -/
theorem eval_shortData :
    (shortHost.perform (Session.load cellProgram)).1 = .ok ()
    ∧ cellCase.hasFree (shortHost.perform (Session.load cellProgram)).2.table "t" = false
    ∧ (cellOutcome .empty) = .error (.of (.unboundVariable "t") none)
    ∧ (cellOutcome (.bind "t" (.int 5) .empty)) = .ok (.int 5) := by
  refine ⟨?_, ?_, ?_, ?_⟩
  · decide +kernel
  · decide +kernel
  · decide +kernel
  · cbv

end Interpreter

end EmberLang
