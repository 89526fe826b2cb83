import EmberLang.Proofs.Accepted
import EmberLang.Proofs.JsonText
import EmberLang.Proofs.SavedTrees

/-!
# Programs as text files

A program that was read from a text can be saved to a file, and what is
loaded from the file is the program (`Node.ofJson_parse_render`). Two
things could be lost on the way, an integer too long to be written and a
name that is no word, and a tree is savable if it has neither. The
integers are literals and positions: a literal that was read is not too
long, and the positions of a text are at most as long as the text.

That every program is savable is shown where its parts are put together:
by the readers, which keep any shape that all ways to build a tree keep,
and by the resolution of names, which changes variables and calls only.
-/

namespace EmberLang

/-! ## Savable trees -/

/-- Whether a position can be written. -/
def Position.isPrintable (p : Position) : Bool :=
  Decimal.isPrintable p.line && Decimal.isPrintable p.column

namespace Name

/-- Whether a name is loaded from its text as it is. -/
def isSavable (n : Name) : Bool := n.isLoaded && n.toJson.isWritable

theorem isSavable_word (s : String) : (word s).isSavable = true := rfl

end Name

namespace TypeSpec

mutual

/-- Whether a type is loaded from its text as it is. -/
def isSavable : TypeSpec → Bool
  | mk kind args => kind.isSavable && areSavable args

/-- Whether some types are. -/
def areSavable : List TypeSpec → Bool
  | [] => true
  | t :: ts => isSavable t && areSavable ts

end

theorem areSavable_iff {ts : List TypeSpec} :
    areSavable ts = true ↔ ∀ t ∈ ts, t.isSavable = true := by
  induction ts with
  | nil => simp [areSavable]
  | cons t ts ih => rw [areSavable, Bool.and_eq_true, ih, List.forall_mem_cons]

end TypeSpec

namespace Node

mutual

/-- **Whether a tree is loaded from its text as it is.** -/
def isSavable : Node → Bool
  | atom a => a.toJson.isWritable
  | typeSpec t => t.isSavable
  | program p ds b => p.all Position.isPrintable && areSavable ds && isSavable b
  | externDecl p name tps pts r =>
    p.all Position.isPrintable && name.isSavable && tps.all Name.isSavable && areSavable pts
      && isSavable r
  | dataDecl p name tps cs =>
    p.all Position.isPrintable && name.isSavable && tps.all Name.isSavable && areSavable cs
  | constructorDecl p name fts =>
    p.all Position.isPrintable && name.isSavable && areSavable fts
  | typeDecl p name tps t =>
    p.all Position.isPrintable && name.isSavable && tps.all Name.isSavable && isSavable t
  | param p name t => p.all Position.isPrintable && name.isSavable && isSavable t
  | funDecl p name tps ps b r =>
    p.all Position.isPrintable && name.isSavable && tps.all Name.isSavable && areSavable ps
      && isSavable b && isSavable r
  | literal p v => p.all Position.isPrintable && v.toJson.isWritable
  | unit p => p.all Position.isPrintable
  | var p name => p.all Position.isPrintable && name.isSavable
  | call p c as => p.all Position.isPrintable && isSavable c && areSavable as
  | intrinsicCall p op as => p.all Position.isPrintable && op.isSavable && areSavable as
  | directiveCall p name as => p.all Position.isPrintable && name.isSavable && areSavable as
  | construct p c as => p.all Position.isPrintable && c.isSavable && areSavable as
  | arm p t b => p.all Position.isPrintable && isSavable t && isSavable b
  | caseOf p s as => p.all Position.isPrintable && isSavable s && areSavable as
  | letIn p name v b t =>
    p.all Position.isPrintable && name.isSavable && isSavable v && isSavable b && isSavable t
  | seq p f r => p.all Position.isPrintable && isSavable f && isSavable r
  | lambda p ps b => p.all Position.isPrintable && ps.all Name.isSavable && isSavable b
  | block p ds b => p.all Position.isPrintable && areSavable ds && isSavable b
  | patternVar p name => p.all Position.isPrintable && name.isSavable
  | patternWild p => p.all Position.isPrintable
  | patternLit p v => p.all Position.isPrintable && v.toJson.isWritable
  | patternCtor p c as => p.all Position.isPrintable && c.isSavable && areSavable as

/-- Whether some trees are. -/
def areSavable : List Node → Bool
  | [] => true
  | n :: ns => isSavable n && areSavable ns

end

theorem areSavable_iff {ns : List Node} :
    areSavable ns = true ↔ ∀ n ∈ ns, n.isSavable = true := by
  induction ns with
  | nil => simp [areSavable]
  | cons n ns ih => rw [areSavable, Bool.and_eq_true, ih, List.forall_mem_cons]

end Node

/-! ## A savable tree is loaded from its text -/

theorem Name.all_isLoaded {names : List Name} (h : names.all Name.isSavable = true) :
    names.all Name.isLoaded = true := by
  rw [List.all_eq_true] at h ⊢
  exact fun n hn => (Bool.and_eq_true_iff.1 (h n hn)).1

theorem Name.isWritable_namesToJson {names : List Name} (h : names.all Name.isSavable = true) :
    (Node.namesToJson names).isWritable = true := by
  rw [Node.namesToJson, Json.isWritable]
  induction names with
  | nil => rfl
  | cons n names ih =>
    rw [List.all_cons, Bool.and_eq_true] at h
    rw [List.map_cons, Json.areWritable, ih h.2, (Bool.and_eq_true_iff.1 h.1).2]
    rfl

namespace TypeSpec

mutual

theorem isLoaded_of_isSavable {t : TypeSpec} (h : t.isSavable = true) :
    t.isLoaded = true ∧ t.toJson.isWritable = true := by
  cases t with
  | mk kind args =>
    simp only [isSavable, Name.isSavable, Bool.and_eq_true] at h
    obtain ⟨hload, hwrite⟩ := areLoaded_of_areSavable h.2
    constructor
    · rw [isLoaded, h.1.1, hload]
      rfl
    · simp [toJson, Json.isWritable, Json.membersAreWritable, h.1.2, hwrite]

theorem areLoaded_of_areSavable {ts : List TypeSpec} (h : areSavable ts = true) :
    areLoaded ts = true ∧ Json.areWritable (toJsonAll ts) = true := by
  cases ts with
  | nil => exact ⟨rfl, rfl⟩
  | cons t ts =>
    rw [areSavable, Bool.and_eq_true] at h
    obtain ⟨hload, hwrite⟩ := isLoaded_of_isSavable h.1
    obtain ⟨hloads, hwrites⟩ := areLoaded_of_areSavable h.2
    constructor
    · rw [areLoaded, hload, hloads]
      rfl
    · rw [toJsonAll, Json.areWritable, hwrite, hwrites]
      rfl

end

end TypeSpec

namespace Node

theorem membersAreWritable_append {ms ms' : List (String × Json)} :
    Json.membersAreWritable (ms ++ ms')
      = (Json.membersAreWritable ms && Json.membersAreWritable ms') := by
  induction ms with
  | nil => rfl
  | cons m ms ih =>
    rw [List.cons_append, Json.membersAreWritable, Json.membersAreWritable, ih, Bool.and_assoc]

theorem membersAreWritable_positionMember {p : Option Position}
    (h : p.all Position.isPrintable = true) :
    Json.membersAreWritable (positionMember p) = true := by
  cases p with
  | none => rfl
  | some q =>
    rw [Option.all_some, Position.isPrintable, Bool.and_eq_true] at h
    simp [positionMember, Json.membersAreWritable, Json.isWritable, Json.areWritable, h.1, h.2]

/-- **The object of a node can be written** if its parts can. -/
theorem isWritable_savedObject {className : String} {p : Option Position}
    {parts : List (String × Json)} (hkeys : ("pos" :: "type" :: parts.map Prod.fst).Nodup)
    (hp : p.all Position.isPrintable = true) (hparts : Json.membersAreWritable parts = true) :
    (savedObject className p parts).isWritable = true := by
  have hnodup :
      ((("type", Json.str className) :: parts ++ positionMember p).map Prod.fst).Nodup := by
    cases p with
    | none =>
      rw [show positionMember none = [] from rfl, List.append_nil]
      exact (List.nodup_cons.1 hkeys).2
    | some q =>
      rw [List.map_append]
      exact (List.perm_append_singleton _ _).nodup_iff.2 hkeys
  rw [savedObject, Json.isWritable, decide_eq_true hnodup, membersAreWritable_append,
    Json.membersAreWritable, Json.isWritable, hparts, membersAreWritable_positionMember hp]
  rfl

mutual

/-- **A savable tree has the names that are loaded and the values that are
written.** -/
theorem isLoaded_of_isSavable {n : Node} (h : n.isSavable = true) :
    n.isLoaded = true ∧ n.toJson.isWritable = true := by
  cases n with
  | atom a => exact ⟨rfl, h⟩
  | typeSpec t =>
    obtain ⟨hload, hwrite⟩ := TypeSpec.isLoaded_of_isSavable h
    exact ⟨hload, by simp [toJson, Json.isWritable, Json.membersAreWritable, hwrite]⟩
  | program p ds b | block p ds b =>
    simp only [isSavable, Bool.and_eq_true] at h
    obtain ⟨⟨hp, hds⟩, hb⟩ := h
    have hds := areLoaded_of_areSavable hds
    have hb := isLoaded_of_isSavable hb
    refine ⟨by simp [isLoaded, hds, hb], isWritable_savedObject (by simp) hp ?_⟩
    simp [Json.membersAreWritable, Json.isWritable, hds, hb]
  | externDecl p name tps pts r =>
    simp only [isSavable, Name.isSavable, Bool.and_eq_true] at h
    obtain ⟨⟨⟨⟨hp, hname⟩, htps⟩, hpts⟩, hr⟩ := h
    have hpts := areLoaded_of_areSavable hpts
    have hr := isLoaded_of_isSavable hr
    have htps' := Name.all_isLoaded htps
    have htps := Name.isWritable_namesToJson htps
    refine ⟨by simp [isLoaded, hname, htps', hpts, hr], isWritable_savedObject (by simp) hp ?_⟩
    simp [Json.membersAreWritable, Json.isWritable, hname, htps, hpts, hr]
  | dataDecl p name tps cs =>
    simp only [isSavable, Name.isSavable, Bool.and_eq_true] at h
    obtain ⟨⟨⟨hp, hname⟩, htps⟩, hcs⟩ := h
    have hcs := areLoaded_of_areSavable hcs
    have htps' := Name.all_isLoaded htps
    have htps := Name.isWritable_namesToJson htps
    refine ⟨by simp [isLoaded, hname, htps', hcs], isWritable_savedObject (by simp) hp ?_⟩
    simp [Json.membersAreWritable, Json.isWritable, hname, htps, hcs]
  | typeDecl p name tps t =>
    simp only [isSavable, Name.isSavable, Bool.and_eq_true] at h
    obtain ⟨⟨⟨hp, hname⟩, htps⟩, ht⟩ := h
    have ht := isLoaded_of_isSavable ht
    have htps' := Name.all_isLoaded htps
    have htps := Name.isWritable_namesToJson htps
    refine ⟨by simp [isLoaded, hname, htps', ht], isWritable_savedObject (by simp) hp ?_⟩
    simp [Json.membersAreWritable, hname, htps, ht]
  | constructorDecl p name as | intrinsicCall p name as | directiveCall p name as
  | construct p name as | patternCtor p name as =>
    simp only [isSavable, Name.isSavable, Bool.and_eq_true] at h
    obtain ⟨⟨hp, hname⟩, has⟩ := h
    have has := areLoaded_of_areSavable has
    refine ⟨by simp [isLoaded, hname, has], isWritable_savedObject (by simp) hp ?_⟩
    simp [Json.membersAreWritable, Json.isWritable, hname, has]
  | param p name t =>
    simp only [isSavable, Name.isSavable, Bool.and_eq_true] at h
    obtain ⟨⟨hp, hname⟩, ht⟩ := h
    have ht := isLoaded_of_isSavable ht
    refine ⟨by simp [isLoaded, hname, ht], isWritable_savedObject (by simp) hp ?_⟩
    simp [Json.membersAreWritable, hname, ht]
  | funDecl p name tps ps b r =>
    simp only [isSavable, Name.isSavable, Bool.and_eq_true] at h
    obtain ⟨⟨⟨⟨⟨hp, hname⟩, htps⟩, hps⟩, hb⟩, hr⟩ := h
    have hps := areLoaded_of_areSavable hps
    have hb := isLoaded_of_isSavable hb
    have hr := isLoaded_of_isSavable hr
    have htps' := Name.all_isLoaded htps
    have htps := Name.isWritable_namesToJson htps
    refine ⟨by simp [isLoaded, hname, htps', hps, hb, hr], isWritable_savedObject (by simp) hp ?_⟩
    simp [Json.membersAreWritable, Json.isWritable, hname, htps, hps, hb, hr]
  | literal p v | patternLit p v =>
    rw [isSavable, Bool.and_eq_true] at h
    refine ⟨rfl, isWritable_savedObject (by simp) h.1 ?_⟩
    simp [Json.membersAreWritable, Json.isWritable, h.2]
  | unit p | patternWild p => exact ⟨rfl, isWritable_savedObject (by simp) h rfl⟩
  | var p name | patternVar p name =>
    simp only [isSavable, Name.isSavable, Bool.and_eq_true] at h
    refine ⟨h.2.1, isWritable_savedObject (by simp) h.1 ?_⟩
    simp [Json.membersAreWritable, h.2.2]
  | call p s as | caseOf p s as =>
    simp only [isSavable, Bool.and_eq_true] at h
    obtain ⟨⟨hp, hs⟩, has⟩ := h
    have hs := isLoaded_of_isSavable hs
    have has := areLoaded_of_areSavable has
    refine ⟨by simp [isLoaded, hs, has], isWritable_savedObject (by simp) hp ?_⟩
    simp [Json.membersAreWritable, Json.isWritable, hs, has]
  | arm p f r | seq p f r =>
    simp only [isSavable, Bool.and_eq_true] at h
    obtain ⟨⟨hp, hf⟩, hr⟩ := h
    have hf := isLoaded_of_isSavable hf
    have hr := isLoaded_of_isSavable hr
    refine ⟨by simp [isLoaded, hf, hr], isWritable_savedObject (by simp) hp ?_⟩
    simp [Json.membersAreWritable, hf, hr]
  | letIn p name v b t =>
    simp only [isSavable, Name.isSavable, Bool.and_eq_true] at h
    obtain ⟨⟨⟨⟨hp, hname⟩, hv⟩, hb⟩, ht⟩ := h
    have hv := isLoaded_of_isSavable hv
    have hb := isLoaded_of_isSavable hb
    have ht := isLoaded_of_isSavable ht
    refine ⟨by simp [isLoaded, hname, hv, hb, ht], isWritable_savedObject (by simp) hp ?_⟩
    simp [Json.membersAreWritable, hname, hv, hb, ht]
  | lambda p ps b =>
    simp only [isSavable, Bool.and_eq_true] at h
    obtain ⟨⟨hp, hps⟩, hb⟩ := h
    have hb := isLoaded_of_isSavable hb
    have hps' := Name.all_isLoaded hps
    have hps := Name.isWritable_namesToJson hps
    refine ⟨by simp [isLoaded, hps', hb], isWritable_savedObject (by simp) hp ?_⟩
    simp [Json.membersAreWritable, hps, hb]

/-- Savable trees have them. -/
theorem areLoaded_of_areSavable {ns : List Node} (h : areSavable ns = true) :
    areLoaded ns = true ∧ Json.areWritable (toJsonAll ns) = true := by
  cases ns with
  | nil => exact ⟨rfl, rfl⟩
  | cons n ns =>
    rw [areSavable, Bool.and_eq_true] at h
    obtain ⟨hload, hwrite⟩ := isLoaded_of_isSavable h.1
    obtain ⟨hloads, hwrites⟩ := areLoaded_of_areSavable h.2
    constructor
    · rw [areLoaded, hload, hloads]
      rfl
    · rw [toJsonAll, Json.areWritable, hwrite, hwrites]
      rfl

end

/-- **A savable tree is loaded from its text as it was.** -/
theorem ofJson_parse_render (l : Json.Layout) {n : Node} (h : n.isSavable = true) :
    (Json.parse (n.toJson.render l) >>= ofJson) = .ok n := by
  obtain ⟨hload, hwrite⟩ := isLoaded_of_isSavable h
  rw [Json.parse_render l hwrite, ok_bind, ofJson_toJson hload]

/-! ## Programs that were read are savable -/

theorem isPrintable_position? {n : Node} (h : n.isSavable = true) :
    n.position?.all Position.isPrintable = true := by
  cases n <;> simp_all [isSavable, position?]

theorem isSavable_name? {n : Node} (h : n.isSavable = true) {name : Name}
    (hname : n.name? = some name) : name.isSavable = true := by
  cases n <;> simp_all [isSavable, name?]

end Node

namespace TypeSpec

theorem isSavable_params {t : TypeSpec} (h : t.isSavable = true) :
    ∀ u ∈ t.params, u.isSavable = true := by
  obtain ⟨kind, args⟩ := t
  rw [isSavable, Bool.and_eq_true, areSavable_iff] at h
  intro u hu
  unfold params at hu
  split at hu
  · exact h.2 u (List.mem_of_mem_dropLast hu)
  · cases hu

theorem isSavable_result {t : TypeSpec} (h : t.isSavable = true) :
    (t.result?.getD t).isSavable = true := by
  obtain ⟨kind, args⟩ := t
  have hargs := h
  rw [isSavable, Bool.and_eq_true, areSavable_iff] at hargs
  unfold result?
  split
  · cases hlast : (TypeSpec.mk kind args).args.getLast? with
    | none => exact h
    | some u => exact hargs.2 u (List.mem_of_getLast? hlast)
  · exact h

end TypeSpec

theorem Literal.isWritable_toJson {v : Literal} (h : v.isWritable = true) :
    v.toJson.isWritable = true := by
  cases v with
  | int n => rwa [toJson, Json.isWritable]
  | _ => rfl

namespace Parser

/-- **The shape of a savable tree.** -/
def savable : Shape where
  lexeme l := l.isProper = true
  position p := p.isPrintable = true
  name n := n.isSavable = true
  type t := t.isSavable = true
  pattern n := n.isSavable = true
  expression n := n.isSavable = true
  arm n := n.isSavable = true
  param n := n.isSavable = true
  constructorDecl n := n.isSavable = true
  declaration n := n.isSavable = true

theorem isPrintable_of_place {p : Option Position} (h : savable.Place p) :
    p.all Position.isPrintable = true := by
  cases p with
  | none => rfl
  | some q =>
    rw [Option.all_some]
    exact h q rfl

theorem isSavable_of_typeNode {n : Node} (h : savable.TypeNode n) : n.isSavable = true := by
  obtain ⟨t, rfl, ht⟩ := h
  exact ht

theorem isSavable_of_optionalType {n : Node} (h : savable.OptionalType n) : n.isSavable = true := by
  rcases h with rfl | h
  · rfl
  · exact isSavable_of_typeNode h

theorem savable_closed : savable.Closed where
  ident _ := Name.isSavable_word _
  functionType := by
    intro params result hparams hresult
    show TypeSpec.isSavable (.mk "fun" (params ++ [result])) = true
    rw [TypeSpec.isSavable, Name.isSavable_word, Bool.true_and, TypeSpec.areSavable_iff,
      List.forall_mem_append]
    exact ⟨hparams, List.forall_mem_singleton.2 hresult⟩
  unitType := rfl
  namedType hn hargs := Bool.and_eq_true_iff.2 ⟨hn, TypeSpec.areSavable_iff.2 hargs⟩
  patternLit hp hl hv := Bool.and_eq_true_iff.2 ⟨isPrintable_of_place hp,
    Literal.isWritable_toJson (Lexeme.isWritable_of_literal? hl hv)⟩
  patternWild hp := isPrintable_of_place hp
  patternVar hp hn _ := Bool.and_eq_true_iff.2 ⟨isPrintable_of_place hp, hn⟩
  patternCtor hp hn _ hargs := Bool.and_eq_true_iff.2
    ⟨Bool.and_eq_true_iff.2 ⟨isPrintable_of_place hp, hn⟩, Node.areSavable_iff.2 hargs⟩
  paramOf hp hn ht := Bool.and_eq_true_iff.2
    ⟨Bool.and_eq_true_iff.2 ⟨isPrintable_of_place hp, hn⟩, isSavable_of_optionalType ht⟩
  constructor hp hn hts := Bool.and_eq_true_iff.2
    ⟨Bool.and_eq_true_iff.2 ⟨isPrintable_of_place hp, hn⟩,
      Node.areSavable_iff.2 fun t ht => isSavable_of_typeNode (hts t ht)⟩
  externDecl := by
    intro p n tps t hp hn htps ht
    have hparams : Node.areSavable (t.params.map Node.typeSpec) = true := by
      rw [Node.areSavable_iff, List.forall_mem_map]
      exact TypeSpec.isSavable_params ht
    have hresult : Node.isSavable (.typeSpec (t.result?.getD t)) = true :=
      TypeSpec.isSavable_result ht
    show Node.isSavable (.externDecl p n tps _ _) = true
    rw [Node.isSavable, isPrintable_of_place hp, show n.isSavable = true from hn,
      List.all_eq_true.2 htps, hparams, hresult]
    rfl
  dataDecl := by
    intro p n tps c cs hp hn htps hc hcs
    show Node.isSavable (.dataDecl p n tps (c :: cs)) = true
    rw [Node.isSavable, isPrintable_of_place hp, show n.isSavable = true from hn,
      List.all_eq_true.2 htps, Node.areSavable_iff.2 (List.forall_mem_cons.2 ⟨hc, hcs⟩)]
    rfl
  typeDecl := by
    intro p n tps t hp hn htps ht
    show Node.isSavable (.typeDecl p n tps t) = true
    rw [Node.isSavable, isPrintable_of_place hp, show n.isSavable = true from hn,
      List.all_eq_true.2 htps, isSavable_of_typeNode ht]
    rfl
  funDecl := by
    intro p n tps params body t hp hn htps hparams hbody ht
    show Node.isSavable (.funDecl p n tps params body t) = true
    rw [Node.isSavable, isPrintable_of_place hp, show n.isSavable = true from hn,
      List.all_eq_true.2 htps, Node.areSavable_iff.2 hparams,
      show body.isSavable = true from hbody, isSavable_of_optionalType ht]
    rfl
  literal hp hl hv := Bool.and_eq_true_iff.2 ⟨isPrintable_of_place hp,
    Literal.isWritable_toJson (Lexeme.isWritable_of_literal? hl hv)⟩
  unit hp := isPrintable_of_place hp
  var hp _ := Bool.and_eq_true_iff.2 ⟨isPrintable_of_place hp, Name.isSavable_word _⟩
  intrinsicCall hp _ hargs := Bool.and_eq_true_iff.2
    ⟨Bool.and_eq_true_iff.2 ⟨isPrintable_of_place hp, Name.isSavable_word _⟩,
      Node.areSavable_iff.2 hargs⟩
  directiveCall hp _ hargs := Bool.and_eq_true_iff.2
    ⟨Bool.and_eq_true_iff.2 ⟨isPrintable_of_place hp, Name.isSavable_word _⟩,
      Node.areSavable_iff.2 hargs⟩
  call := by
    intro p callee args hp hcallee hargs
    have hplace : (callee.position?.or p).all Position.isPrintable = true := by
      have hcallee := Node.isPrintable_position? hcallee
      cases hq : callee.position? with
      | none => exact isPrintable_of_place hp
      | some q =>
        rw [hq] at hcallee
        exact hcallee
    show Node.isSavable (.call _ callee args) = true
    rw [Node.isSavable, hplace, show callee.isSavable = true from hcallee,
      Node.areSavable_iff.2 hargs]
    rfl
  armOf hp hpattern hbody := Bool.and_eq_true_iff.2
    ⟨Bool.and_eq_true_iff.2 ⟨isPrintable_of_place hp, hpattern⟩, hbody⟩
  caseOf hp hscrutinee _ harms := Bool.and_eq_true_iff.2
    ⟨Bool.and_eq_true_iff.2 ⟨isPrintable_of_place hp, hscrutinee⟩, Node.areSavable_iff.2 harms⟩
  letIn := by
    intro p n value body t hp hn hvalue hbody ht
    show Node.isSavable (.letIn p n value body t) = true
    rw [Node.isSavable, isPrintable_of_place hp, show n.isSavable = true from hn,
      show value.isSavable = true from hvalue, show body.isSavable = true from hbody,
      isSavable_of_optionalType ht]
    rfl
  seq hp hfirst hrest := Bool.and_eq_true_iff.2
    ⟨Bool.and_eq_true_iff.2 ⟨isPrintable_of_place hp, hfirst⟩, hrest⟩
  lambda := by
    intro p params body hp hparams hbody
    have hnames : (params.filterMap Node.name?).all Name.isSavable = true := by
      rw [List.all_eq_true]
      intro name hname
      obtain ⟨n, hn, hnamed⟩ := List.mem_filterMap.1 hname
      exact Node.isSavable_name? (hparams n hn) hnamed
    exact Bool.and_eq_true_iff.2
      ⟨Bool.and_eq_true_iff.2 ⟨isPrintable_of_place hp, hnames⟩, hbody⟩
  block hp hds hbody := Bool.and_eq_true_iff.2
    ⟨Bool.and_eq_true_iff.2
      ⟨isPrintable_of_place hp, Node.areSavable_iff.2 fun d hd => (hds d hd).1⟩,
      hbody⟩

end Parser

/-! ### Names and constructors -/

namespace Node

variable {t : ConstructorTable}

mutual

/-- **Resolving names keeps a tree savable**: a variable and the
constructor it becomes have the same name and the same place. -/
theorem isSavable_resolved (n : Node) (h : n.isSavable = true) :
    (resolved t n).isSavable = true := by
  cases n with
  | var p name =>
    rw [resolved]
    split
    · rw [isSavable, Bool.and_eq_true] at h
      rw [isSavable, h.1, h.2]
      rfl
    · exact h
  | call p callee args =>
    rw [isSavable, Bool.and_eq_true, Bool.and_eq_true] at h
    have hcallee := isSavable_resolved callee h.1.2
    have hargs := areSavable_resolvedAll args h.2
    cases hvar : callee.isVar with
    | false =>
      rw [resolved_call hvar, isSavable, h.1.1, hcallee, hargs]
      rfl
    | true =>
      cases callee with
      | var q name =>
        have hname := h.1.2
        rw [isSavable, Bool.and_eq_true] at hname
        rw [resolved]
        split
        · rw [isSavable, h.1.1, hname.2, hargs]
          rfl
        · rw [isSavable, h.1.1, h.1.2, hargs]
          rfl
      | _ => cases hvar
  | construct p c args | intrinsicCall p c args | directiveCall p c args =>
    rw [isSavable, Bool.and_eq_true] at h
    rw [resolved, isSavable, h.1, areSavable_resolvedAll args h.2]
    rfl
  | caseOf p scrutinee arms =>
    rw [isSavable, Bool.and_eq_true, Bool.and_eq_true] at h
    rw [resolved, isSavable, h.1.1, isSavable_resolved scrutinee h.1.2,
      areSavable_resolvedArms arms h.2]
    rfl
  | letIn p name value body valueType =>
    simp only [isSavable, Bool.and_eq_true] at h
    obtain ⟨⟨⟨⟨hp, hname⟩, hvalue⟩, hbody⟩, htype⟩ := h
    rw [resolved, isSavable, hp, hname, isSavable_resolved value hvalue,
      isSavable_resolved body hbody, htype]
    rfl
  | seq p first rest =>
    rw [isSavable, Bool.and_eq_true, Bool.and_eq_true] at h
    rw [resolved, isSavable, h.1.1, isSavable_resolved first h.1.2, isSavable_resolved rest h.2]
    rfl
  | lambda p params body =>
    rw [isSavable, Bool.and_eq_true] at h
    rw [resolved, isSavable, h.1, isSavable_resolved body h.2]
    rfl
  | block p ds body =>
    rw [isSavable, Bool.and_eq_true, Bool.and_eq_true] at h
    rw [resolved, isSavable, h.1.1, areSavable_resolvedDeclarations ds h.1.2,
      isSavable_resolved body h.2]
    rfl
  | _ => exact h

theorem areSavable_resolvedAll (ns : List Node) (h : areSavable ns = true) :
    areSavable (resolvedAll t ns) = true := by
  cases ns with
  | nil => rfl
  | cons n ns =>
    rw [areSavable, Bool.and_eq_true] at h
    rw [resolvedAll, areSavable, isSavable_resolved n h.1, areSavable_resolvedAll ns h.2]
    rfl

theorem areSavable_resolvedArms (ns : List Node) (h : areSavable ns = true) :
    areSavable (resolvedArms t ns) = true := by
  cases ns with
  | nil => rfl
  | cons n ns =>
    rw [areSavable, Bool.and_eq_true] at h
    rw [resolvedArms, areSavable, areSavable_resolvedArms ns h.2, Bool.and_true]
    cases n with
    | arm p pattern body =>
      rw [isSavable, Bool.and_eq_true] at h
      rw [resolvedArm, isSavable, h.1.1, isSavable_resolved body h.1.2]
      rfl
    | _ => exact h.1

theorem areSavable_resolvedDeclarations (ns : List Node) (h : areSavable ns = true) :
    areSavable (resolvedDeclarations t ns) = true := by
  cases ns with
  | nil => rfl
  | cons n ns =>
    rw [areSavable, Bool.and_eq_true] at h
    rw [resolvedDeclarations, areSavable, areSavable_resolvedDeclarations ns h.2, Bool.and_true]
    cases n with
    | funDecl p name tps params body returnType =>
      simp only [isSavable, Bool.and_eq_true] at h
      rw [resolvedDeclaration, isSavable, h.1.1.1.1.1.1, h.1.1.1.1.1.2, h.1.1.1.1.2, h.1.1.1.2,
        isSavable_resolved body h.1.1.2, h.1.2]
      rfl
    | _ => exact h.1

end

end Node

/-! ### Positions -/

namespace Position

/-- Each character moves a position by one line or one column at most. -/
theorem after_bounds {p : Position} (hline : 1 ≤ p.line) (hcolumn : 1 ≤ p.column) (cs : List Char) :
    (1 ≤ (p.after cs).line ∧ (p.after cs).line ≤ p.line + cs.length)
      ∧ 1 ≤ (p.after cs).column ∧ (p.after cs).column ≤ p.column + cs.length := by
  induction cs generalizing p with
  | nil => simp [hline, hcolumn]
  | cons c cs ih =>
    rw [after_cons, List.length_cons]
    unfold next
    split
    · have h := @ih ⟨p.line + 1, 1⟩ (by dsimp only; omega) (le_refl 1)
      dsimp only at h
      omega
    · have h := @ih ⟨p.line, p.column + 1⟩ hline (by dsimp only; omega)
      dsimp only at h
      omega

/-- A position within the first `size` lines and columns. -/
def Within (size : Nat) (p : Position) : Prop :=
  (1 ≤ p.line ∧ p.line ≤ size) ∧ 1 ≤ p.column ∧ p.column ≤ size

theorem Within.isPrintable {size : Nat} {p : Position} (h : p.Within size)
    (hsize : Decimal.isPrintable size = true) : p.isPrintable = true := by
  obtain ⟨⟨hline, hline'⟩, hcolumn, hcolumn'⟩ := h
  rw [Decimal.isPrintable, decide_eq_true_eq] at hsize
  rw [Position.isPrintable, Decimal.isPrintable, Decimal.isPrintable, Bool.and_eq_true,
    decide_eq_true_eq, decide_eq_true_eq]
  -- the power itself is never computed
  generalize Nat.pow 10 Decimal.maxDigits = limit at hsize ⊢
  omega

end Position

namespace Scan

/-- The tokens that the loop reads lie within as many lines and columns as
there are characters. -/
theorem loop_within {size : Nat} {done : List Token} {p : Position} {cs : List Char} {s : Scanned}
    (h : loop done p cs = .ok s) (hline : 1 ≤ p.line ∧ p.line + cs.length ≤ size + 1)
    (hcolumn : 1 ≤ p.column ∧ p.column + cs.length ≤ size + 1)
    (hdone : ∀ t ∈ done, t.position.Within size) : ∀ t ∈ s.tokens, t.position.Within size := by
  -- along the loop, what a position gains in lines or columns is lost in characters
  fun_induction loop done p cs with
  | case1 done p =>
    obtain rfl := Except.ok.inj h
    exact fun t ht => hdone t (List.mem_reverse.1 ht)
  | case2 done p c more s' hg ih =>
    have hlength := congrArg List.length (gap?_eq hg).1
    rw [List.length_append] at hlength
    have hafter := Position.after_bounds hline.1 hcolumn.1 s'.1
    exact ih h (by omega) (by omega) hdone
  | case3 done p c more hg l rest hl ih =>
    have hlength := congrArg List.length (lexeme?_eq hl).1
    rw [List.length_append] at hlength
    have hafter := Position.after_bounds hline.1 hcolumn.1 l.text.toList
    refine ih h (by omega) (by omega) (List.forall_mem_cons.2 ⟨?_, hdone⟩)
    rw [List.length_cons] at hline hcolumn
    show p.Within size
    unfold Position.Within
    omega
  | case4 done p c more hg hl => cases h

end Scan

theorem within_of_scan {text : String} {s : Scanned} (h : scan text = .ok s) :
    ∀ t ∈ s.tokens, t.position.Within text.length := by
  refine Scan.loop_within h ?_ ?_ (List.forall_mem_nil _)
  · rw [String.length_toList]
    simp [Position.start, add_comm]
  · rw [String.length_toList]
    simp [Position.start, add_comm]

namespace Node

/-- **Every program that is read from a text can be saved**, if the length of
the text is a number that can be written. -/
theorem isSavable_of_ofSource {text : String} {frames : Int} {root : Node}
    (hsize : Decimal.isPrintable text.length = true) (h : ofSource text frames = .ok root) :
    root.isSavable = true := by
  unfold ofSource at h
  split at h
  · cases h
  · next s hscan =>
    obtain ⟨q, hq, hroot⟩ := bind_eq_ok h
    have hproper := proper_of_scan hscan
    have hfit : Parser.savable.Fit s.tokens := fun t ht =>
      ⟨(hproper t ht).1, (within_of_scan hscan t ht).isPrintable hsize⟩
    have hprogram := isProgram_of_ofTokens hproper hq
    obtain ⟨t, ht, -⟩ := bind_eq_ok hroot
    rw [resolveProgram_eq hprogram ht] at hroot
    obtain rfl := Except.ok.inj hroot
    -- the tree before its names were resolved is savable by its shape
    unfold ofTokens at hq
    split at hq
    · next r rest hrun =>
      obtain rfl := Except.ok.inj hq
      obtain ⟨p, ds, body, rfl, hp, hds, hbody⟩ :=
        ((Parser.program_gives Parser.savable_closed _ s.tokens hfit).1 r rest hrun).1
      rw [resolvedProgram, isSavable, Parser.isPrintable_of_place hp,
        areSavable_resolvedDeclarations ds (areSavable_iff.2 hds), isSavable_resolved body hbody]
      rfl
    · cases hq

end Node

end EmberLang
