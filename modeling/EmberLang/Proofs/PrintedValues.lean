import EmberLang.Proofs.ClashFree
import EmberLang.Proofs.Spacing
import EmberLang.Proofs.ValidPrograms
import EmberLang.Proofs.ValueText

/-!
# A printed value is a program for itself

The text of a value that is made of integers, truth values, the unit value
and data is an expression, and its value is the value that was printed. For
this the data types must be declared as they were: the declarations of the
types and the text of the value, put together in any layout, are a program
that is accepted, and that comes to the value without a foreign call
(`Value.run_printed`).

The way there is over the tree that a value is (`Value.expression`). Its
text is the text of the value, it is well formed, and evaluating it gives
the value back.
-/

namespace EmberLang

namespace Value

/-- The text of a value that has one. -/
theorem text_of_textOf {v : Value} {s : String} (h : v.textOf = .ok s) : v.text = .ok s :=
  v.text_eq_textOf.trans h

theorem textOf_int {n : Int} (h : Decimal.isPrintable n = true) :
    (int n).textOf = .ok (toString n) := by
  have htext : Decimal.intText? n = some (toString n) := by rw [Decimal.intText?, if_pos h]
  rw [textOf, plainText]
  · unfold intText
    -- the text is put in place by hand: the bound on its length must not be evaluated
    generalize Decimal.intText? n = o at htext ⊢
    rw [htext]
  · simp
  · simp

/-! ## Plain values -/

/-- **A plain value** over a table of constructors: an integer that is not
too long, a truth value, the unit value, or data with a constructor of the
table and as many plain values as it takes fields. -/
inductive IsPlain (t : ConstructorTable) : Value → Prop
  | int {n : Int} (h : Decimal.isPrintable n = true) : IsPlain t (int n)
  | bool (b : Bool) : IsPlain t (bool b)
  | unit : IsPlain t unit
  | data {c : Constructor} {fields : List Value} (hc : c ∈ t.all)
      (harity : fields.length = c.arity) (hfields : ∀ v ∈ fields, IsPlain t v) :
      IsPlain t (data c.name fields)

mutual

/-- **The expression that a plain value is.** Other values are no
expressions. -/
def expression : Value → Node
  | int n => .literal none (.int n)
  | bool b => .literal none (.bool b)
  | unit => .unit none
  | data c fields => .construct none c (expressions fields)
  | _ => .absent

/-- The expressions that several values are. -/
def expressions : List Value → List Node
  | [] => []
  | v :: vs => expression v :: expressions vs

end

theorem expressions_eq_map (vs : List Value) : expressions vs = vs.map expression := by
  induction vs with
  | nil => rfl
  | cons v vs ih => rw [expressions, ih, List.map_cons]

/-- Values whose texts are those of their expressions have their texts one by
one. -/
theorem exists_texts {vs : List Value}
    (h : ∀ v ∈ vs, ∃ s, v.textOf = .ok s
      ∧ ∀ indent, v.expression.phrase .operand indent = .ok s) :
    ∃ ss, textsOf vs = .ok ss ∧ ∀ indent, Node.phrases indent (expressions vs) = .ok ss := by
  induction vs with
  | nil => exact ⟨[], rfl, fun _ => rfl⟩
  | cons v vs ih =>
    obtain ⟨⟨s, hs, hphrase⟩, hvs⟩ := List.forall_mem_cons.1 h
    obtain ⟨ss, hss, hphrases⟩ := ih hvs
    refine ⟨s :: ss, ?_, fun indent => ?_⟩
    · rw [textsOf, hs, hss]
      rfl
    · rw [expressions, Node.phrases, hphrase, hphrases]
      rfl

namespace IsPlain

variable {t : ConstructorTable} {v : Value}

/-- Data without fields is a bare name. -/
theorem isIdent_of_bareName? (ht : ∀ c ∈ t.all, c.name.isIdent = true) (hv : v.IsPlain t)
    {name : Name} (h : v.expression.bareName? = some name) : name.isIdent = true := by
  cases hv with
  | @data c fields hc _ _ =>
    cases fields with
    | nil =>
      obtain rfl := Option.some.inj h
      exact ht c hc
    | cons f fs => cases h
  | _ => cases h

/-- **A plain value has a text**, and so has the expression that it is,
which is the same. -/
theorem exists_text (ht : ∀ c ∈ t.all, c.name.isIdent = true) (hv : v.IsPlain t) :
    ∃ s, v.textOf = .ok s ∧ ∀ indent, v.expression.phrase .operand indent = .ok s := by
  induction hv with
  | @int n h =>
    refine ⟨toString n, textOf_int h, fun indent => ?_⟩
    rw [expression, Node.phrase, Literal.text, Literal.text?, Decimal.intText?, if_pos h]
    rfl
  | bool b => exact ⟨_, rfl, fun indent => rfl⟩
  | unit => exact ⟨_, rfl, fun indent => rfl⟩
  | @data c fields hc _ hfields ih =>
    obtain ⟨ss, hss, hphrases⟩ := exists_texts ih
    have hname : constructorText c.name = .ok c.name.text := by
      rw [constructorText, Name.needWord_of_isIdent (ht c hc)]
      rfl
    have hlist : Node.listText (expressions fields) ss = .ok (Node.commas ss) := by
      refine Node.listText_eq (fun name hn => ?_) ss
      rw [expressions_eq_map] at hn
      obtain ⟨n, hn, hbare⟩ := List.mem_filterMap.1 hn
      obtain ⟨v, hv, rfl⟩ := List.mem_map.1 hn
      exact isIdent_of_bareName? ht (hfields v hv) hbare
    cases fields with
    | nil => exact ⟨c.name.text, hname, fun indent => rfl⟩
    | cons f fs =>
      refine ⟨c.name.text ++ "(" ++ ", ".intercalate ss ++ ")", ?_, fun indent => ?_⟩
      · obtain ⟨s, hs, h⟩ := bind_eq_ok hss
        obtain ⟨ss', hss', h⟩ := bind_eq_ok h
        obtain rfl := Except.ok.inj h
        rw [textOf, hname, hs, hss']
        rfl
      · rw [expression, Node.phrase, hphrases]
        show (Node.listText (expressions (f :: fs)) ss >>= _) = _
        rw [hlist]
        rfl

/-- **A plain value is a well-formed expression.** -/
theorem isExpression_expression (ht : ∀ c ∈ t.all, c.name.isIdent = true) (hv : v.IsPlain t) :
    v.expression.isExpression (.resolved t Literal.isReadable false) = true := by
  induction hv with
  | int h =>
    simp only [expression, Node.isExpression, Node.Vocabulary.resolved, Literal.isReadable, h]
  | bool b => rfl
  | unit => rfl
  | @data c fields hc _ _ ih =>
    have hcontains : t.contains c.name = true := by
      rw [ConstructorTable.contains, ConstructorTable.get?, List.find?_isSome]
      exact ⟨c, hc, Name.same_self c.name⟩
    rw [expression, Node.isExpression, ht c hc]
    show (true && t.contains c.name && _) = true
    rw [hcontains, Bool.and_self, Bool.true_and, Node.areExpressions_iff, expressions_eq_map]
    exact List.forall_mem_map.2 ih

end IsPlain

end Value

/-! ## Programs of data types and a value -/

namespace Node

variable {V : Vocabulary}

/-- **The data types that a program declares at its top.** -/
def topTypes : Node → List Node
  | program _ ds _ => ds.filter isDataDecl
  | _ => []

/-- Whether a node is none of those that are looked for when a program is
checked: blocks, cases and calls of intrinsics. -/
def isInert : Node → Bool
  | block .. | caseOf .. | intrinsicCall .. => false
  | _ => true

/-- The nodes of the declaration of a data type are inert. -/
theorem isInert_of_mem_dataDecl {d : Node} (h : d.isDeclaration V = true)
    (hdata : d.isDataDecl = true) {n : Node} (hn : n ∈ d.preorder) : n.isInert = true := by
  cases d with
  | dataDecl p name tps cs =>
    rw [isDeclaration, Bool.and_eq_true] at h
    rw [preorder] at hn
    rcases List.mem_cons.1 hn with rfl | hn
    · rfl
    obtain ⟨c, hc, hn⟩ := exists_of_mem_preorderAll hn
    have hdecl := List.all_eq_true.1 h.2 c hc
    cases c with
    | constructorDecl q name' fieldTypes =>
      rw [isConstructorDecl, Bool.and_eq_true] at hdecl
      rw [preorder, preorderAll_of_isType hdecl.2] at hn
      obtain rfl := List.mem_singleton.1 hn
      rfl
    | _ => cases hdecl
  | _ => cases hdata

/-- So are those of a program of data types, if those of its body are. -/
theorem isInert_of_mem_program {p : Option Position} {ds : List Node} {body : Node}
    (hds : ∀ d ∈ ds, d.isDeclaration V = true ∧ d.isDataDecl = true)
    (hbody : ∀ n ∈ body.preorder, n.isInert = true) :
    ∀ n ∈ (program p ds body).preorder, n.isInert = true := by
  intro n hn
  rw [preorder] at hn
  rcases List.mem_cons.1 hn with rfl | hn
  · rfl
  rcases List.mem_append.1 hn with hn | hn
  · obtain ⟨d, hd, hn⟩ := exists_of_mem_preorderAll hn
    exact isInert_of_mem_dataDecl (hds d hd).1 (hds d hd).2 hn
  · exact hbody n hn

/-- A program with inert nodes only is valid. -/
theorem isValid_of_isInert {root : Node} (h : ∀ n ∈ root.preorder, n.isInert = true)
    (t : ConstructorTable) (intrinsics : IntrinsicTable) : root.IsValid t intrinsics where
  known p op args hn := absurd (h _ hn) (by simp [isInert])
  patterns p scrutinee arms hn := absurd (h _ hn) (by simp [isInert])

/-- **The constructors of some data types**, as a table. -/
def typesTable (ds : List Node) : ConstructorTable := ⟨ds.filterMap typeOf?⟩

/-- Constructors as written have identifiers for names. -/
theorem isIdent_of_mem_typesTable {ds : List Node} (h : ∀ d ∈ ds, d.isDeclaration V = true) :
    ∀ c ∈ (typesTable ds).all, c.name.isIdent = true := by
  intro c hc
  obtain ⟨entry, hentry, hc⟩ := List.mem_flatMap.1 hc
  obtain ⟨d, hd, htype⟩ := List.mem_filterMap.1 hentry
  cases d with
  | dataDecl p name tps cs =>
    obtain rfl := Option.some.inj htype
    obtain ⟨n, hn, hconstructor⟩ := List.mem_filterMap.1 hc
    have hdecl := h _ hd
    rw [isDeclaration, Bool.and_eq_true] at hdecl
    have hn := List.all_eq_true.1 hdecl.2 n hn
    cases n with
    | constructorDecl q name' fieldTypes =>
      obtain rfl := Option.some.inj hconstructor
      rw [isConstructorDecl, Bool.and_eq_true] at hn
      exact hn.1
    | _ => cases hconstructor
  | _ => cases htype

theorem typesTable_filter (ds : List Node) : typesTable (ds.filter isDataDecl) = typesTable ds := by
  have htype (d : Node) : (if d.isDataDecl = true then d.typeOf? else none) = d.typeOf? := by
    cases d <;> rfl
  rw [typesTable, typesTable, List.filterMap_filter]
  exact congrArg (fun f => (⟨ds.filterMap f⟩ : ConstructorTable)) (funext htype)

/-- The data types at the top of a program without clashes do not clash. -/
theorem IsClashFree.distinct_typesTable {p : Option Position} {ds : List Node} {body : Node}
    (h : (program p ds body).IsClashFree) : (typesTable ds).Distinct := by
  have hdeclared : (program p ds body).declared = ⟨ds.filterMap typeOf?
      ++ ((program p ds body).preorder.filterMap block?).flatten.filterMap typeOf?⟩ := by
    rw [declared, declarationLists, List.flatten_cons, List.filterMap_append]
  have htypes := h.types
  have hconstructors := h.constructors
  rw [hdeclared, ConstructorTable.typeNames, List.map_append, Name.Distinct.append_iff] at htypes
  rw [hdeclared, ConstructorTable.all_append, List.map_append, Name.Distinct.append_iff]
    at hconstructors
  exact ⟨htypes.1, hconstructors.1⟩

/-- **Data types that do not clash pass the check on their own**, with any
body that declares nothing. -/
theorem checkDeclarations_of_distinct {ds : List Node} {body : Node}
    (hds : ∀ d ∈ ds, d.isDeclaration V = true ∧ d.isDataDecl = true)
    (ht : (typesTable ds).Distinct) (hbody : ∀ n ∈ body.preorder, n.isInert = true) :
    (program none ds body).checkDeclarations = .ok (typesTable ds) := by
  have hscopes : (program none ds body).scopes ds = [ds] := by
    rw [scopes_eq]
    refine congrArg (ds :: ·) (List.filterMap_eq_nil_iff.2 fun n hn => ?_)
    have hinert := isInert_of_mem_program hds hbody n hn
    cases n with
    | block => cases hinert
    | _ => rfl
  have hnames : ds.filterMap name? = (typesTable ds).typeNames := by
    rw [typesTable, ConstructorTable.typeNames, List.map_filterMap]
    refine List.filterMap_congr fun d hd => ?_
    have hdata := (hds d hd).2
    cases d with
    | dataDecl => rfl
    | _ => cases hdata
  rw [checkDeclarations_eq_ok_iff, hscopes, List.flatten_singleton]
  refine ⟨(forall₂_isType_iff fun d hd => (hds d hd).1).2 rfl, ht, ?_⟩
  rintro _ (_ | ⟨_, ⟨⟩⟩)
  refine (isClear_iff fun d hd => (hds d hd).1).2 ⟨hnames ▸ ht.types, fun d hd hdata => ?_⟩
  cases (hds d hd).2.symm.trans hdata

end Node

/-! ## Running them -/

/-- **A constructor of a table builds what it is asked for.** -/
theorem ConstructorTable.construct_of_mem {t : ConstructorTable} (ht : t.Distinct)
    {c : Constructor} (hc : c ∈ t.all) (hname : c.name.isIdent = true) {fields : List Value}
    (harity : fields.length = c.arity) (p : Option Position) :
    t.construct c.name fields p = .ok (.data c.name fields) := by
  have hget : t.get? c.name = some c := ht.get?_eq_some_iff.2 ⟨hc, Name.same_self c.name⟩
  have hlookup : t.lookup c.name p = .ok c := by
    rw [lookup, Node.check_of_isIdent hname, hget]
    rfl
  unfold construct
  rw [hlookup]
  show (if fields.length = c.arity then
      Except.ok (Value.data (if fields.isEmpty then c.name else c.name) fields)
    else .error _) = _
  rw [if_pos harity, ite_self]

/-- **Expressions that change nothing but the trace** do so one after the
other. -/
theorem Engine.evalAll_of_forall₂ {σ : Type} {E : Engine σ} {call : Caller σ} {scope : Scope}
    {vs : List Value} {ns : List Node}
    (h : List.Forall₂ (fun v n => ∀ j, ∃ trace,
      (E.eval call scope n).run j = (.ok v, { j with trace := trace })) vs ns) (j : Journal σ) :
    ∃ trace, (E.evalAll call scope ns).run j = (.ok vs, { j with trace := trace }) := by
  induction h generalizing j with
  | nil => exact ⟨j.trace, rfl⟩
  | @cons v n vs ns hv _ ih =>
    obtain ⟨trace, hn⟩ := hv j
    obtain ⟨trace', hns⟩ := ih { j with trace := trace }
    exact ⟨trace', (run_bind_of_ok _ hn).trans (run_bind_of_ok _ hns)⟩

namespace Value

variable {t : ConstructorTable}

/-- What is alike to the expressions of some values is alike one by one. -/
theorem forall₂_expression_alike {vs : List Value} {ns : List Node}
    (h : Node.eraseAll ns = Node.eraseAll (expressions vs)) :
    List.Forall₂ (fun v n => v.expression.Alike n) vs ns := by
  rw [Node.eraseAll_eq_map, Node.eraseAll_eq_map, expressions_eq_map] at h
  exact List.forall₂_map_left_iff.1 (map_eq_iff_forall₂.1 h)

namespace IsPlain

/-- The nodes of the expression of a plain value are inert. -/
theorem isInert_expression {v : Value} (hv : v.IsPlain t) {n : Node} (hn : v.expression.Alike n) :
    ∀ m ∈ n.preorder, m.isInert = true := by
  induction hv generalizing n with
  | int h =>
    obtain ⟨q, rfl⟩ := hn.eq_literal
    exact List.forall_mem_singleton.2 rfl
  | bool b =>
    obtain ⟨q, rfl⟩ := hn.eq_literal
    exact List.forall_mem_singleton.2 rfl
  | unit =>
    obtain ⟨q, rfl⟩ := hn.eq_unit
    exact List.forall_mem_singleton.2 rfl
  | @data c fields _ _ _ ih =>
    obtain ⟨q, args, rfl, hargs⟩ := hn.eq_construct
    refine List.forall_mem_cons.2 ⟨rfl, fun m hm => ?_⟩
    obtain ⟨a, ha, hm⟩ := Node.exists_of_mem_preorderAll hm
    obtain ⟨v, hv, halike⟩ := exists_mem_of_forall₂ (forall₂_expression_alike hargs) ha
    exact ih v hv halike m hm

variable {σ : Type} {E : Engine σ}

/-- **Evaluating the expression of a plain value gives the value**, and
changes nothing but the trace. -/
theorem eval_expression (ht : E.table.Distinct)
    (hnames : ∀ c ∈ E.table.all, c.name.isIdent = true) (call : Engine.Caller σ) (scope : Scope)
    {v : Value} (hv : v.IsPlain E.table) {n : Node} (hn : v.expression.Alike n) (j : Journal σ) :
    ∃ trace, (E.eval call scope n).run j = (.ok v, { j with trace := trace }) := by
  have htrace (m : Node) (j : Journal σ) :
      ∃ trace, (E.trace (.eval m)).run j = (.ok (), { j with trace := trace }) :=
    Run.trace_of_text E.detail ⟨_, rfl⟩ j
  induction hv generalizing n j with
  | int h =>
    obtain ⟨q, rfl⟩ := hn.eq_literal
    obtain ⟨trace, h⟩ := htrace _ j
    exact ⟨trace, run_bind_of_ok _ h⟩
  | bool b =>
    obtain ⟨q, rfl⟩ := hn.eq_literal
    obtain ⟨trace, h⟩ := htrace _ j
    exact ⟨trace, run_bind_of_ok _ h⟩
  | unit =>
    obtain ⟨q, rfl⟩ := hn.eq_unit
    obtain ⟨trace, h⟩ := htrace _ j
    exact ⟨trace, run_bind_of_ok _ h⟩
  | @data c fields hc harity _ ih =>
    obtain ⟨q, args, rfl, hargs⟩ := hn.eq_construct
    have hfields := List.forall₂_and_left _ _ |>.2 ⟨fun _ h => h, forall₂_expression_alike hargs⟩
    have hevals := Engine.evalAll_of_forall₂ (hfields.imp fun v n hvn => ih v hvn.1 hvn.2)
    obtain ⟨trace, h⟩ := htrace (.construct q c.name args) j
    obtain ⟨trace', h'⟩ := hevals { j with trace := trace }
    refine ⟨trace', (run_bind_of_ok _ h).trans ((run_bind_of_ok _ h').trans ?_)⟩
    rw [ConstructorTable.construct_of_mem ht hc (hnames c hc) harity]
    rfl

end IsPlain

end Value

/-- The message about a result that has a text has a text. -/
theorem Message.text_result {v : Value} {s : String} (h : v.text = .ok s) :
    ∃ text, (Message.result v).text = .ok text := by
  rw [text, h]
  exact ⟨_, rfl⟩

/-- **A program of data types whose body is a plain value comes to this
value**, whatever the interpreter did before, and calls nothing. -/
theorem Session.run_plain {σ : Type} {V : Node.Vocabulary} {p : Option Position} {ds : List Node}
    {body : Node} {t : ConstructorTable} (h : (Node.program p ds body).isProgram V = true)
    (hdata : ∀ d ∈ ds, d.isDataDecl = true)
    (ht : (Node.program p ds body).checkDeclarations = .ok t) (hdistinct : t.Distinct)
    (hnames : ∀ c ∈ t.all, c.name.isIdent = true) {v : Value} (hv : v.IsPlain t)
    (hbody : v.expression.Alike body) (I : Interpreter σ) :
    (I.perform (run (.program p ds body))).1 = .ok v
      ∧ (I.perform (run (.program p ds body))).2.journal.effects = #[]
      ∧ (I.perform (run (.program p ds body))).2.journal.observed = #[] := by
  have hparts := h
  rw [Node.isProgram, Bool.and_eq_true] at hparts
  have hinert := Node.isInert_of_mem_program (p := p)
    (fun d hd => ⟨Node.areDeclarations_iff.1 hparts.1 d hd, hdata d hd⟩)
    (hv.isInert_expression hbody)
  unfold Interpreter.perform
  rcases load_of_isProgram h ht
      { I with journal := { I.journal with observed := #[], trace := #[] } } with
    ⟨-, I', hload⟩ | ⟨hinvalid, -⟩
  · obtain ⟨q, es, b, externs, T, cases, fs, trace, heq, -, hT, -, -, -, hI'⟩ := load_ok hload
    cases heq
    obtain rfl := Except.ok.inj (hT.symm.trans ht)
    obtain ⟨s, hs, -⟩ := hv.exists_text hnames
    have htable : I'.engine.table = T := by rw [hI']; rfl
    obtain ⟨trace₁, heval⟩ := Value.IsPlain.eval_expression (E := I'.engine) (htable ▸ hdistinct)
      (htable ▸ hnames) (I'.engine.callAt I'.runDepth 0) I'.globals (htable ▸ hv) hbody I'.journal
    obtain ⟨trace₂, hresult⟩ := Run.trace_of_text I'.engine.detail
      (Message.text_result (Value.text_of_textOf hs)) { I'.journal with trace := trace₁ }
    have hrun := (run_bind_of_ok (fun v => do I'.engine.trace (.result v); return v) heval).trans
      (run_bind_of_ok _ hresult)
    rw [run_of_loaded hload, run_keepEngine, hrun]
    refine ⟨rfl, ?_, ?_⟩
    · rw [hI']
      rfl
    · rw [hI']
      rfl
  · exact absurd (Node.isValid_of_isInert hinert t _) hinvalid

/-! ## Printed values -/

namespace Node

/-- **The data types at the top of a program that was read from a text** are
declared as written, and do not clash. -/
theorem topTypes_of_ofSource {source : String} {frames : Int} {root : Node}
    (h : ofSource source frames = .ok root) :
    (∀ V, ∀ d ∈ root.topTypes, d.isDeclaration V = true ∧ d.isDataDecl = true)
      ∧ (typesTable root.topTypes).Distinct := by
  obtain ⟨t, ht, hprogram⟩ := isProgram_of_ofSource h
  cases root with
  | program p ds body =>
    have hfree := ((checkDeclarations_eq_ok_iff_isClashFree hprogram).1 ht).2
    rw [isProgram, Bool.and_eq_true] at hprogram
    refine ⟨fun V d hd => ?_, ?_⟩
    · obtain ⟨hd, hdata⟩ := List.mem_filter.1 hd
      have hdecl := areDeclarations_iff.1 hprogram.1 d hd
      cases d with
      | dataDecl => exact ⟨hdecl, rfl⟩
      | _ => cases hdata
    · rw [topTypes, typesTable_filter]
      exact hfree.distinct_typesTable
  | _ => cases hprogram

/-- Declarations of data types read as they are written. -/
theorem unresolvedDeclarations_eq_self {ds : List Node} (h : ∀ d ∈ ds, d.isDataDecl = true) :
    unresolvedDeclarations ds = ds := by
  rw [unresolvedDeclarations_eq_map]
  refine (List.map_congr_left fun d hd => ?_).trans (List.map_id ds)
  have hdata := h d hd
  cases d with
  | dataDecl => rfl
  | _ => cases hdata

end Node

namespace Value

variable {t : ConstructorTable} {v : Value} {ds : List Node}

/-- The lexemes of the expression of a value are the same in every place. -/
theorem lexemes_unresolved_expression (v : Value) (place : Node.Place) :
    v.expression.unresolved.lexemes place = v.expression.unresolved.lexemes .operand := by
  cases v with
  | data c fields => cases fields <;> rfl
  | _ => rfl

/-- **Declarations of data types and a plain value are a well-formed
program.** -/
theorem isWellFormed_printed (hnames : ∀ c ∈ t.all, c.name.isIdent = true) (hv : v.IsPlain t)
    (hds : ∀ V, ∀ d ∈ ds, d.isDeclaration V = true ∧ d.isDataDecl = true) :
    (Node.program none ds v.expression).isWellFormed t = true := by
  rw [Node.isWellFormed, Node.isProgram, Bool.and_eq_true]
  exact ⟨Node.areDeclarations_iff.2 fun d hd => (hds _ d hd).1, hv.isExpression_expression hnames⟩

/-- **The declarations and the value, laid out, spell the program.** -/
theorem spells_printed (hnames : ∀ c ∈ t.all, c.name.isIdent = true) (hv : v.IsPlain t)
    (hds : ∀ V, ∀ d ∈ ds, d.isDeclaration V = true ∧ d.isDataDecl = true) (indent : Nat) :
    ∃ s texts, v.text = .ok s ∧ Node.declarationTexts indent ds = .ok texts
      ∧ ∀ text, LaidOut ("begin" :: texts ++ ["in", s, "end"]) text →
        Spells text (Node.program none ds v.expression).unresolvedProgram.programLexemes := by
  have hwell := isWellFormed_printed hnames hv hds
  rw [Node.isWellFormed_eq, Bool.and_eq_true] at hwell
  have hraw := Node.isProgram_unresolved
    (fun v hv hname => (Node.unnamed_of_none hname).trans hv) hwell.1
  have hself := Node.unresolvedDeclarations_eq_self fun d hd => (hds .faithful d hd).2
  rw [Node.unresolvedProgram, hself] at hraw ⊢
  rw [Node.isProgram, Bool.and_eq_true] at hraw
  -- the text of the value is that of its expression, which spells its lexemes
  obtain ⟨s, hs, hphrase⟩ := hv.exists_text hnames
  obtain ⟨s', hs', hbody⟩ := Node.phrase_spells Node.spelled_source .operand 0 _ hraw.2
  rw [Node.phrase_unresolved, hphrase] at hs'
  obtain rfl := Except.ok.inj hs'
  obtain ⟨texts, htexts, hdeclarations⟩ :=
    Node.declarationTexts_spell Node.spelled_source indent ds hraw.1
  refine ⟨s, texts, text_of_textOf hs, htexts, fun text htext => ?_⟩
  have hparts := List.Forall₂.cons (Spells.keyword .kwBegin) (List.rel_append hdeclarations
    (.cons (Spells.keyword .kwIn) (.cons hbody (.cons (Spells.keyword .kwEnd) .nil))))
  refine (Spells.laidOut hparts htext).congr ?_
  rw [Node.programLexemes, lexemes_unresolved_expression v .items]
  simp

/-- **A printed value is a program for itself.** Take a program that was read
from a text, and a plain value over the data types declared at its top. The
value has a text, and so have the declarations at every indentation. Put
them together in any layout, with `begin` before them, `in` between them,
and `end` after them. The text that results is accepted if there are levels
enough to read it, and the program that is read comes to the value, on every
interpreter and without a foreign call. -/
theorem run_printed {source : String} {frames : Int} {root : Node}
    (h : Node.ofSource source frames = .ok root) :
    ∃ t, ConstructorTable.empty.declareAll root.topTypes = .ok t
      ∧ ∀ v : Value, v.IsPlain t → ∀ indent, ∃ s ds, v.text = .ok s
        ∧ Node.declarationTexts indent root.topTypes = .ok ds
        ∧ ∀ before text after, IsFiller before → IsFiller after →
          LaidOut ("begin" :: ds ++ ["in", s, "end"]) text →
          ∀ frames', (Node.program none root.topTypes v.expression).programDepth
              ≤ Node.levelsOf frames' →
            ∃ q, Node.ofSource (before ++ text ++ after) frames' = .ok q
              ∧ ∀ (σ : Type) (I : Interpreter σ), (I.perform (Session.run q)).1 = .ok v
                ∧ (I.perform (Session.run q)).2.journal.effects = #[]
                ∧ (I.perform (Session.run q)).2.journal.observed = #[] := by
  obtain ⟨htypes, hdistinct⟩ := Node.topTypes_of_ofSource h
  generalize root.topTypes = types at htypes hdistinct ⊢
  have hnames := Node.isIdent_of_mem_typesTable fun d hd => (htypes .faithful d hd).1
  refine ⟨Node.typesTable types, ?_, fun v hv indent => ?_⟩
  · refine (ConstructorTable.declareAll_eq_ok_iff ConstructorTable.distinct_empty).2
      ⟨_, (Node.forall₂_isType_iff fun d hd => (htypes .faithful d hd).1).2 rfl, rfl, hdistinct⟩
  have hcheck := Node.checkDeclarations_of_distinct (htypes .faithful) hdistinct
    (hv.isInert_expression rfl)
  have hwell := isWellFormed_printed hnames hv htypes
  obtain ⟨s, ds, hs, hds, hspells⟩ := spells_printed hnames hv htypes indent
  refine ⟨s, ds, hs, hds, fun before text after hbefore hafter htext frames' hdepth => ?_⟩
  obtain ⟨q, hq, halike⟩ := Node.ofSource_of_spells hcheck hwell hdepth
    ((hspells text htext).between hbefore hafter)
  refine ⟨q, hq, fun σ I => ?_⟩
  have hqwell : q.isWellFormed (Node.typesTable types) = true := by
    rw [Node.isWellFormed, ← Node.isProgram_erase, halike, Node.isProgram_erase]
    exact hwell
  have hqcheck := Node.checkDeclarations_of_alike hwell halike hcheck
  obtain ⟨p, es, body, rfl, hes, hbody⟩ := halike.eq_program
  refine Session.run_plain hqwell (fun e he => ?_) hqcheck hdistinct hnames hv hbody I
  have hmem : e.erase ∈ types.map Node.erase := by
    rw [← Node.eraseAll_eq_map, ← hes, Node.eraseAll_eq_map]
    exact List.mem_map_of_mem he
  obtain ⟨d, hd, herase⟩ := List.mem_map.1 hmem
  rw [← Node.isDataDecl_erase, ← herase, Node.isDataDecl_erase, (htypes .faithful d hd).2]

/-- A program that declares lists, and something else. -/
def listsText : String := "begin data L=N|C(Int,L)end fun f()=1 in f() end"

/-- The program that it holds. -/
def listsProgram : Node :=
  .program (some ⟨1, 1⟩)
    [.dataDecl (some ⟨1, 7⟩) "L" []
      [.constructorDecl (some ⟨1, 14⟩) "N" [],
        .constructorDecl (some ⟨1, 16⟩) "C" [.typeSpec (.mk "Int" []), .typeSpec (.mk "L" [])]],
      .funDecl (some ⟨1, 28⟩) "f" [] [] (.literal (some ⟨1, 36⟩) (.int 1)) .absent]
    (.call (some ⟨1, 41⟩) (.var (some ⟨1, 41⟩) "f") [])

theorem ofSource_listsText : Node.ofSource listsText 1000 = .ok listsProgram := by
  refine @Node.ofSource_of_tokens _ _ ?tokens listsProgram _ ?scanned ?read ?resolved
  case scanned =>
    cbv
    rfl
  case read => rfl
  case resolved =>
    unfold Node.resolveProgram Node.checkDeclarations Node.scopes
    rw [Node.walk_eq_preorder rfl]
    rfl

/-- A list of one number. -/
def minusOneList : Value := data "C" [int (-1), data "N" []]

/-- The text of a list, below the declaration of lists, is a program that
comes to the list. -/
theorem run_printed_minusOneList :
    Node.ofSource listsText 1000 = .ok listsProgram
      ∧ minusOneList.text = .ok "C(-1, N)"
      ∧ Node.declarationTexts 0 listsProgram.topTypes
        = .ok ["data L =\n  | N\n  | C(Int, L)\nend;"]
      ∧ ∃ q, Node.ofSource
          "begin\ndata L =\n  | N\n  | C(Int, L)\nend;\nin\nC(-1, N)\nend" 1000 = .ok q
        ∧ ((Session.usedInterpreter .empty).perform (Session.run q)).1 = .ok minusOneList
        ∧ ((Session.usedInterpreter .empty).perform (Session.run q)).2.journal.effects = #[] := by
  obtain ⟨t, ht, hvalues⟩ := run_printed ofSource_listsText
  have htable : ConstructorTable.empty.declareAll listsProgram.topTypes
      = .ok ⟨[("L", [⟨"N", "L", 0⟩, ⟨"C", "L", 2⟩])]⟩ := rfl
  obtain rfl := Except.ok.inj (htable.symm.trans ht)
  have hone : Decimal.isPrintable (-1) = true := by
    rw [Decimal.isPrintable, decide_eq_true_eq, Nat.pow_eq, show Int.natAbs (-1) = 1 from rfl]
    exact Nat.one_lt_pow (by decide) (by decide)
  have hnil : IsPlain ⟨[("L", [⟨"N", "L", 0⟩, ⟨"C", "L", 2⟩])]⟩ (data "N" []) :=
    .data (c := ⟨"N", "L", 0⟩) List.mem_cons_self rfl (List.forall_mem_nil _)
  have hv : IsPlain ⟨[("L", [⟨"N", "L", 0⟩, ⟨"C", "L", 2⟩])]⟩ minusOneList :=
    .data (c := ⟨"C", "L", 2⟩) (List.mem_cons_of_mem _ List.mem_cons_self) rfl
      (List.forall_mem_cons.2 ⟨.int hone, List.forall_mem_singleton.2 hnil⟩)
  obtain ⟨s, ds, hs, hds, hreads⟩ := hvalues minusOneList hv 0
  have htext : minusOneList.text = .ok "C(-1, N)" := by
    refine text_of_textOf ?_
    rw [minusOneList, textOf, textOf_int hone]
    rfl
  have hdeclaration : Node.declarationTexts 0 listsProgram.topTypes
      = .ok ["data L =\n  | N\n  | C(Int, L)\nend;"] := by cbv
  obtain rfl := Except.ok.inj (htext.symm.trans hs)
  obtain rfl := Except.ok.inj (hdeclaration.symm.trans hds)
  have hnewline : IsFiller "\n" := .of_mem_filling (Rule.blank_mem_filling (c := '\n') rfl) rfl
  have hlaid : LaidOut ["begin", "data L =\n  | N\n  | C(Int, L)\nend;", "in", "C(-1, N)", "end"]
      ("begin" ++ "\n" ++ ("data L =\n  | N\n  | C(Int, L)\nend;" ++ "\n" ++ ("in" ++ "\n"
        ++ ("C(-1, N)" ++ "\n" ++ "end")))) :=
    .cons _ hnewline (by decide) (.cons _ hnewline (by decide)
      (.cons _ hnewline (by decide) (.cons _ hnewline (by decide) (.single _))))
  obtain ⟨q, hq, hrun⟩ := hreads "" _ "" .empty .empty hlaid 1000 (by decide +kernel)
  have hlines : "" ++ ("begin" ++ "\n" ++ ("data L =\n  | N\n  | C(Int, L)\nend;" ++ "\n"
      ++ ("in" ++ "\n" ++ ("C(-1, N)" ++ "\n" ++ "end")))) ++ ""
      = "begin\ndata L =\n  | N\n  | C(Int, L)\nend;\nin\nC(-1, N)\nend" := by decide +kernel
  rw [hlines] at hq
  obtain ⟨hvalue, heffects, -⟩ := hrun Unit (Session.usedInterpreter .empty)
  exact ⟨ofSource_listsText, htext, hdeclaration, q, hq, hvalue, heffects⟩

end Value

end EmberLang
