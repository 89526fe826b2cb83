import EmberLang.Proofs.Faces
import EmberLang.Proofs.Positions

/-!
# Values without positions

A closure holds the body of its function, and with it the positions of the
nodes in the body. So two runs of programs that differ in positions only
come to values that differ in positions only, and to failures at other
positions. `Value.erase` and `Failure.erase` are what is left without the
positions, and two values are *alike* if they have the same rest.

Positions are not seen in a value (`Value.face_erase`), so whatever looks at
values pays no attention to them. Of the operations that take values or
nodes apart this is said in one form: on what is left of its arguments,
the operation gives what is left of its result.
-/

namespace EmberLang

/-! ## Failures and outcomes -/

/-- **A failure without its position.** -/
def Failure.erase : Failure → Failure
  | .error e => .error ⟨e.cause, none⟩
  | f => f

@[simp]
theorem Failure.erase_of (cause : Cause) (p : Option Position) :
    (Failure.of cause p).erase = .of cause none := rfl

@[simp]
theorem Failure.erase_erase (f : Failure) : f.erase.erase = f.erase := by cases f <;> rfl

@[simp]
theorem Failure.erase_shape (fault : ShapeFault) : (Failure.shape fault).erase = .shape fault := rfl

/-- **An outcome without positions**, given what is left of a result. -/
def eraseOutcome {α β : Type} (g : α → β) : Except Failure α → Except Failure β
  | .ok a => .ok (g a)
  | .error f => .error f.erase

section Outcomes

variable {α β : Type}

@[simp]
theorem eraseOutcome_ok (g : α → β) (a : α) : eraseOutcome g (.ok a) = .ok (g a) := rfl

@[simp]
theorem eraseOutcome_error (g : α → β) (f : Failure) :
    eraseOutcome g (.error f) = .error f.erase := rfl

end Outcomes

/-! ## Values and scopes -/

/-- A function without the positions in its body. -/
def Function.erase (f : Function) : Function := ⟨f.name, f.params, f.body.erase⟩

mutual

/-- **A value without positions.** -/
def Value.erase : Value → Value
  | .int n => .int n
  | .real x => .real x
  | .bool b => .bool b
  | .char s => .char s
  | .unit => .unit
  | .data c fields => .data c (Value.eraseAll fields)
  | .closure f scope => .closure f.erase (Scope.erase scope)

/-- Several values without positions. -/
def Value.eraseAll : List Value → List Value
  | [] => []
  | v :: vs => Value.erase v :: Value.eraseAll vs

/-- A scope without positions. -/
def Scope.erase : Scope → Scope
  | .empty => .empty
  | .bind name v outer => .bind name (Value.erase v) (Scope.erase outer)
  | .functions fs outer => .functions (fs.map Function.erase) (Scope.erase outer)

end

/-- Bindings without positions. -/
def eraseBindings (bindings : List (Name × Value)) : List (Name × Value) :=
  bindings.map fun b => (b.1, b.2.erase)

/-- **Two values are alike** if they are equal up to positions. -/
def Value.Alike (v w : Value) : Prop := w.erase = v.erase

/-- Two scopes are alike if they are equal up to positions. -/
def Scope.Alike (s s' : Scope) : Prop := s'.erase = s.erase

theorem Value.eraseAll_eq_map (vs : List Value) : eraseAll vs = vs.map erase := by
  induction vs with
  | nil => rfl
  | cons v vs ih => rw [eraseAll, ih, List.map_cons]

theorem Value.length_eraseAll (vs : List Value) : (eraseAll vs).length = vs.length := by
  rw [eraseAll_eq_map, List.length_map]

theorem Value.length_eq_of_eraseAll {vs ws : List Value} (h : eraseAll ws = eraseAll vs) :
    ws.length = vs.length := by
  rw [← length_eraseAll, h, length_eraseAll]

/-- What is alike to a closure is a closure of a function that is alike. -/
theorem Value.Alike.eq_closure {f : Function} {s : Scope} {v : Value}
    (h : (Value.closure f s).Alike v) :
    ∃ body s', v = .closure ⟨f.name, f.params, body⟩ s' ∧ f.body.Alike body ∧ s.Alike s' := by
  cases v with
  | closure g s' =>
    obtain ⟨hf, hs⟩ := Value.closure.inj h
    obtain ⟨hname, hparams, hbody⟩ := Function.mk.inj hf
    exact ⟨g.body, s', by rw [← hname, ← hparams], hbody, hs⟩
  | _ => cases h

/-- What was bound to names that are the same. -/
theorem eraseBindings_zip (names : List Name) (vs : List Value) :
    eraseBindings (names.zip vs) = names.zip (Value.eraseAll vs) := by
  rw [Value.eraseAll_eq_map, List.zip_map_right]
  rfl

namespace Scope

theorem lookup?_erase (name : Name) (s : Scope) :
    s.erase.lookup? name = (s.lookup? name).map Value.erase := by
  cases s with
  | empty => rfl
  | bind n v outer =>
    rw [erase, lookup?, lookup?]
    split
    · rfl
    · exact lookup?_erase name outer
  | functions fs outer =>
    have hfind : (fs.map Function.erase).find? (·.name.same name)
        = (fs.find? (·.name.same name)).map Function.erase := List.find?_map
    rw [erase, lookup?, lookup?, hfind]
    cases fs.find? (·.name.same name) with
    | none => exact lookup?_erase name outer
    | some f =>
      show _ = some (Value.erase (.closure f (functions fs outer)))
      rw [Value.erase, erase]
      rfl

theorem isBound_erase (name : Name) (s : Scope) : s.erase.isBound name = s.isBound name := by
  unfold isBound
  rw [lookup?_erase, Option.isSome_map]

theorem get_erase (s : Scope) (name : Name) (p : Option Position) :
    s.erase.get name none = eraseOutcome Value.erase (s.get name p) := by
  unfold get Name.check
  rw [lookup?_erase]
  split
  · cases s.lookup? name <;> rfl
  · rfl

theorem bindAll_erase (bindings : List (Name × Value)) (s : Scope) :
    (s.bindAll bindings).erase = s.erase.bindAll (eraseBindings bindings) := by
  unfold bindAll eraseBindings
  induction bindings generalizing s with
  | nil => rfl
  | cons b bindings ih =>
    rw [List.foldl_cons, ih, List.map_cons, List.foldl_cons, erase]

end Scope

/-! ## What is seen of a value -/

namespace Value

mutual

/-- **No positions are seen in a value.** -/
@[simp]
theorem face_erase (v : Value) : v.erase.face = v.face := by
  cases v with
  | data c fields => rw [erase, face, face, faces_eraseAll fields]
  | closure f s =>
    rw [erase, face, face]
    rfl
  | _ => rfl

@[simp]
theorem faces_eraseAll (vs : List Value) : faces (eraseAll vs) = faces vs := by
  cases vs with
  | nil => rfl
  | cons v vs => rw [eraseAll, faces, faces, face_erase v, faces_eraseAll vs]

end

theorem literal?_erase (v : Value) : v.erase.literal? = v.literal? := by
  rw [← literal?_face, face_erase, literal?_face]

theorem tag_erase (v : Value) : v.erase.tag = v.tag := by
  rw [← tag_face, face_erase, tag_face]

/-- **The text of a value shows no positions.** -/
theorem text_erase (v : Value) : v.erase.text = v.text := by
  rw [← text_face, face_erase, text_face]

end Value

/-! ## What a host gives back -/

namespace HostResult

mutual

/-- **What a host gives back, without positions.** -/
def erase : HostResult → HostResult
  | nothing => nothing
  | bool b => bool b
  | int n => int n
  | real x => real x
  | text s => text s
  | list items => list (eraseAll items)
  | value v => value v.erase

/-- Several results without positions. -/
def eraseAll : List HostResult → List HostResult
  | [] => []
  | r :: rs => erase r :: eraseAll rs

end

mutual

theorem face_erase (r : HostResult) : r.erase.face = r.face := by
  cases r with
  | list items => rw [erase, face, face, faces_eraseAll items]
  | value v => rw [erase, face, face, Value.face_erase]
  | _ => rfl

theorem faces_eraseAll (rs : List HostResult) : faces (eraseAll rs) = faces rs := by
  cases rs with
  | nil => rfl
  | cons r rs => rw [eraseAll, faces, faces, face_erase r, faces_eraseAll rs]

end

end HostResult

/-! ## What is found under a name -/

theorem ConstructorTable.lookup_erase (t : ConstructorTable) (c : Name) (p : Option Position) :
    t.lookup c none = eraseOutcome id (t.lookup c p) := by
  unfold lookup Name.check
  split
  · cases t.get? c <;> rfl
  · rfl

theorem Engine.foreignName?_erase {σ : Type} (E : Engine σ) (scope : Scope) (callee : Node) :
    E.foreignName? scope.erase callee.erase = E.foreignName? scope callee := by
  cases callee with
  | var p name =>
    rw [Node.erase, foreignName?, foreignName?, Scope.isBound_erase]
  | _ => rfl

/-! ## Declared functions -/

namespace Node

theorem paramNames_eraseAll (ps : List Node) : paramNames (eraseAll ps) = paramNames ps := by
  induction ps with
  | nil => rfl
  | cons n ns ih => rw [eraseAll, paramNames, paramNames, name?_erase, ih]

theorem declaredFunctions_eraseAll (ds : List Node) :
    declaredFunctions (eraseAll ds)
      = ((declaredFunctions ds).1.map Function.erase, (declaredFunctions ds).2) := by
  induction ds with
  | nil => rfl
  | cons d ds ih =>
    rw [eraseAll]
    cases d with
    | funDecl p name tps ps body r =>
      rw [erase, declaredFunctions, declaredFunctions, paramNames_eraseAll]
      cases paramNames ps with
      | error f => rfl
      | ok names =>
        dsimp only
        rw [ih]
        rfl
    | _ => exact ih

/-! ## Patterns and cases -/

mutual

theorem resolvePattern_erase (t : ConstructorTable) (names : List Name) (n : Node) :
    resolvePattern t names n.erase
      = eraseOutcome (fun r => (r.1.erase, r.2)) (resolvePattern t names n) := by
  cases n with
  | patternVar p name =>
    rw [erase, resolvePattern, resolvePattern]
    unfold Name.check
    split
    -- A name in a pattern is a constructor without fields if the table has it,
    -- and a variable otherwise. Both can be refused.
    · cases t.get? name with
      | some c =>
        show (if c.arity = 0 then _ else _) = eraseOutcome _ (if c.arity = 0 then _ else _)
        split
        · rfl
        · rfl
      | none =>
        show (if names.any (·.same name) then _ else _)
          = eraseOutcome _ (if names.any (·.same name) then _ else _)
        split
        · rfl
        · rfl
    · rfl
  | patternCtor p c args =>
    rw [erase, resolvePattern, resolvePattern, t.lookup_erase c p, eraseAll_eq_map,
      List.length_map, ← eraseAll_eq_map]
    cases t.lookup c p with
    | error f => rfl
    | ok known =>
      show (if args.length = known.arity then _ else _)
        = eraseOutcome _ (if args.length = known.arity then _ else _)
      split
      · rw [resolvePatterns_eraseAll t names args]
        cases resolvePatterns t names args <;> rfl
      · rfl
  | _ => rfl

theorem resolvePatterns_eraseAll (t : ConstructorTable) (names : List Name) (ns : List Node) :
    resolvePatterns t names (eraseAll ns)
      = eraseOutcome (fun r => (eraseAll r.1, r.2)) (resolvePatterns t names ns) := by
  cases ns with
  | nil => rfl
  | cons n ns =>
    rw [eraseAll, resolvePatterns, resolvePatterns, resolvePattern_erase t names n]
    cases resolvePattern t names n with
    | error f => rfl
    | ok r =>
      show (resolvePatterns t r.2 (eraseAll ns) >>= _)
        = eraseOutcome _ (resolvePatterns t r.2 ns >>= _)
      rw [resolvePatterns_eraseAll t r.2 ns]
      cases resolvePatterns t r.2 ns <;> rfl

end

mutual

/-- **Matching pays no attention to positions.** -/
theorem matchPattern_erase (bindings : List (Name × Value)) (n : Node) (v : Value) :
    matchPattern (eraseBindings bindings) n.erase v.erase
      = (matchPattern bindings n v).map eraseBindings := by
  cases n with
  | patternWild p => rfl
  | patternVar p name =>
    rw [erase, matchPattern, matchPattern]
    simp [eraseBindings]
  | patternLit p l =>
    rw [erase, matchPattern, matchPattern, Value.literal?_erase]
    cases v.literal? with
    | none => rfl
    | some k =>
      dsimp only
      split
      · rfl
      · rfl
  | patternCtor p c args =>
    cases v with
    | data d fields =>
      rw [erase, Value.erase, matchPattern, matchPattern]
      split
      · exact matchPatterns_eraseAll bindings args fields
      · rfl
    | _ => rfl
  | _ => rfl

theorem matchPatterns_eraseAll (bindings : List (Name × Value)) (ns : List Node)
    (vs : List Value) :
    matchPatterns (eraseBindings bindings) (eraseAll ns) (Value.eraseAll vs)
      = (matchPatterns bindings ns vs).map eraseBindings := by
  cases ns with
  | nil => rfl
  | cons n ns =>
    cases vs with
    | nil => rfl
    | cons v vs =>
      rw [eraseAll, Value.eraseAll, matchPatterns, matchPatterns, matchPattern_erase bindings n v]
      cases matchPattern bindings n v with
      | none => rfl
      | some more => exact matchPatterns_eraseAll more ns vs

end

theorem patternTag?_erase (n : Node) : n.erase.patternTag? = n.patternTag? := by
  cases n <;> rfl

end Node

namespace Case

/-- A compiled case without positions. -/
def erase (c : Case) : Case :=
  ⟨c.arms.map fun a => ⟨a.index, a.pattern.erase, a.body.erase, a.bindings⟩, c.dispatch⟩

theorem erase_add (c : Case) (pattern body : Node) (bindings : List Name) :
    (c.add pattern body bindings).erase = c.erase.add pattern.erase body.erase bindings := by
  unfold add erase
  rw [Node.patternTag?_erase, List.map_append, List.length_map]
  rfl

theorem compileFrom_erase (t : ConstructorTable) (done : Case) (arms : List Node) :
    compileFrom t done.erase (Node.eraseAll arms)
      = eraseOutcome erase (compileFrom t done arms) := by
  induction arms generalizing done with
  | nil => rfl
  | cons n arms ih =>
    rw [Node.eraseAll]
    cases n with
    | arm p pattern body =>
      rw [Node.erase, compileFrom, compileFrom, Node.resolvePattern_erase]
      cases pattern.resolvePattern t [] with
      | error f => rfl
      | ok r =>
        show compileFrom t (done.erase.add r.1.erase body.erase r.2) (Node.eraseAll arms)
          = eraseOutcome erase (compileFrom t (done.add r.1 body r.2) arms)
        rw [← erase_add, ih]
    | _ => rfl

/-- **A case compiles alike** up to positions. -/
theorem compile_erase (t : ConstructorTable) (arms : List Node) :
    compile t (Node.eraseAll arms) = eraseOutcome erase (compile t arms) :=
  compileFrom_erase t .empty arms

theorem attempt?_erase (c : Case) (v : Value) (index : Nat) :
    c.erase.attempt? v.erase index
      = (c.attempt? v index).map fun r => (r.1, eraseBindings r.2) := by
  unfold attempt? erase
  rw [List.getElem?_map]
  cases c.arms[index]? with
  | none => rfl
  | some arm =>
    show (arm.pattern.erase.matchPattern (eraseBindings []) v.erase >>= _)
      = Option.map _ (arm.pattern.matchPattern [] v >>= _)
    rw [Node.matchPattern_erase]
    cases arm.pattern.matchPattern [] v <;> rfl

/-- **A case chooses alike** up to positions. -/
theorem select?_erase (c : Case) (v : Value) :
    c.erase.select? v.erase = (c.select? v).map fun r => (r.1, eraseBindings r.2) := by
  have hcandidates : c.erase.candidates v.erase = c.candidates v := by
    unfold candidates erase
    rw [Value.tag_erase]
  unfold select?
  rw [hcandidates]
  induction c.candidates v with
  | nil => rfl
  | cons i rest ih =>
    rw [List.findSome?_cons, List.findSome?_cons, attempt?_erase]
    cases c.attempt? v i with
    | none => exact ih
    | some r => rfl

end Case

end EmberLang
