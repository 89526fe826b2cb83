import EmberLang.Tree
import Mathlib.Data.List.Forall2

/-!
# Trees up to positions

Two trees that were read from two layouts of one program differ in the
positions of their nodes and in nothing else. `Node.erase` forgets the
positions, and two trees are alike if they are equal without them.
-/

namespace EmberLang.Node

mutual

/-- **A tree without its positions.** -/
def erase : Node → Node
  | atom a => atom a
  | typeSpec t => typeSpec t
  | program _ ds b => program none (eraseAll ds) (erase b)
  | externDecl _ n tps pts r => externDecl none n tps (eraseAll pts) (erase r)
  | dataDecl _ n tps cs => dataDecl none n tps (eraseAll cs)
  | constructorDecl _ n fts => constructorDecl none n (eraseAll fts)
  | typeDecl _ n tps t => typeDecl none n tps (erase t)
  | param _ n t => param none n (erase t)
  | funDecl _ n tps ps b r => funDecl none n tps (eraseAll ps) (erase b) (erase r)
  | literal _ v => literal none v
  | unit _ => unit none
  | var _ n => var none n
  | call _ c as => call none (erase c) (eraseAll as)
  | intrinsicCall _ op as => intrinsicCall none op (eraseAll as)
  | directiveCall _ n as => directiveCall none n (eraseAll as)
  | construct _ c as => construct none c (eraseAll as)
  | arm _ t b => arm none (erase t) (erase b)
  | caseOf _ s as => caseOf none (erase s) (eraseAll as)
  | letIn _ n v b t => letIn none n (erase v) (erase b) (erase t)
  | seq _ f r => seq none (erase f) (erase r)
  | lambda _ ps b => lambda none ps (erase b)
  | block _ ds b => block none (eraseAll ds) (erase b)
  | patternVar _ n => patternVar none n
  | patternWild _ => patternWild none
  | patternLit _ v => patternLit none v
  | patternCtor _ c as => patternCtor none c (eraseAll as)

/-- Several trees without their positions. -/
def eraseAll : List Node → List Node
  | [] => []
  | n :: ns => erase n :: eraseAll ns

end

theorem eraseAll_eq_map (ns : List Node) : eraseAll ns = ns.map erase := by
  induction ns with
  | nil => rfl
  | cons n ns ih => rw [eraseAll, ih, List.map_cons]

mutual

theorem erase_erase (n : Node) : n.erase.erase = n.erase := by
  cases n with
  | atom a => rfl
  | typeSpec t => rfl
  | program p ds b => rw [erase, erase, eraseAll_eraseAll ds, erase_erase b]
  | externDecl p n tps pts r => rw [erase, erase, eraseAll_eraseAll pts, erase_erase r]
  | dataDecl p n tps cs => rw [erase, erase, eraseAll_eraseAll cs]
  | constructorDecl p n fts => rw [erase, erase, eraseAll_eraseAll fts]
  | typeDecl p n tps t => rw [erase, erase, erase_erase t]
  | param p n t => rw [erase, erase, erase_erase t]
  | funDecl p n tps ps b r =>
    rw [erase, erase, eraseAll_eraseAll ps, erase_erase b, erase_erase r]
  | literal p v => rfl
  | unit p => rfl
  | var p n => rfl
  | call p c as => rw [erase, erase, erase_erase c, eraseAll_eraseAll as]
  | intrinsicCall p op as => rw [erase, erase, eraseAll_eraseAll as]
  | directiveCall p n as => rw [erase, erase, eraseAll_eraseAll as]
  | construct p c as => rw [erase, erase, eraseAll_eraseAll as]
  | arm p t b => rw [erase, erase, erase_erase t, erase_erase b]
  | caseOf p s as => rw [erase, erase, erase_erase s, eraseAll_eraseAll as]
  | letIn p n v b t => rw [erase, erase, erase_erase v, erase_erase b, erase_erase t]
  | seq p f r => rw [erase, erase, erase_erase f, erase_erase r]
  | lambda p ps b => rw [erase, erase, erase_erase b]
  | block p ds b => rw [erase, erase, eraseAll_eraseAll ds, erase_erase b]
  | patternVar p n => rfl
  | patternWild p => rfl
  | patternLit p v => rfl
  | patternCtor p c as => rw [erase, erase, eraseAll_eraseAll as]

theorem eraseAll_eraseAll (ns : List Node) : eraseAll (eraseAll ns) = eraseAll ns := by
  cases ns with
  | nil => rfl
  | cons n ns => rw [eraseAll, eraseAll, erase_erase n, eraseAll_eraseAll ns]

end

theorem name?_erase (n : Node) : n.erase.name? = n.name? := by cases n <;> rfl

theorem arity?_erase (n : Node) : n.erase.arity? = n.arity? := by
  cases n with
  | constructorDecl p name fts =>
    rw [erase, arity?, arity?, eraseAll_eq_map, List.length_map]
  | externDecl p name tps pts r =>
    rw [erase, arity?, arity?, eraseAll_eq_map, List.length_map]
  | _ => rfl

/-- **Two trees are alike** if they are equal up to positions. -/
def Alike (n m : Node) : Prop := m.erase = n.erase

theorem className_erase (n : Node) : n.erase.className = n.className := by
  cases n with
  | atom a => cases a <;> rfl
  | _ => rfl

/-! ## What is alike to a node

A node that is alike to a node of some form has the same form, and its
parts are alike. -/

namespace Alike

variable {n : Node} {p : Option Position}

theorem eq_literal {v : Literal} (h : (literal p v).Alike n) : ∃ q, n = literal q v := by
  cases n with
  | literal q w =>
    obtain ⟨-, rfl⟩ := literal.inj h
    exact ⟨q, rfl⟩
  | _ => cases h

theorem eq_unit (h : (unit p).Alike n) : ∃ q, n = unit q := by
  cases n with
  | unit q => exact ⟨q, rfl⟩
  | _ => cases h

theorem eq_var {name : Name} (h : (var p name).Alike n) : ∃ q, n = var q name := by
  cases n with
  | var q name' =>
    obtain ⟨-, rfl⟩ := var.inj h
    exact ⟨q, rfl⟩
  | _ => cases h

theorem eq_call {c : Node} {as : List Node} (h : (call p c as).Alike n) :
    ∃ q c' as', n = call q c' as' ∧ c.Alike c' ∧ eraseAll as' = eraseAll as := by
  cases n with
  | call q c' as' =>
    obtain ⟨-, hc, has⟩ := call.inj h
    exact ⟨q, c', as', rfl, hc, has⟩
  | _ => cases h

theorem eq_intrinsicCall {op : Name} {as : List Node} (h : (intrinsicCall p op as).Alike n) :
    ∃ q as', n = intrinsicCall q op as' ∧ eraseAll as' = eraseAll as := by
  cases n with
  | intrinsicCall q op' as' =>
    obtain ⟨-, rfl, has⟩ := intrinsicCall.inj h
    exact ⟨q, as', rfl, has⟩
  | _ => cases h

theorem eq_directiveCall {name : Name} {as : List Node} (h : (directiveCall p name as).Alike n) :
    ∃ q as', n = directiveCall q name as' ∧ eraseAll as' = eraseAll as := by
  cases n with
  | directiveCall q name' as' =>
    obtain ⟨-, rfl, has⟩ := directiveCall.inj h
    exact ⟨q, as', rfl, has⟩
  | _ => cases h

theorem eq_construct {c : Name} {as : List Node} (h : (construct p c as).Alike n) :
    ∃ q as', n = construct q c as' ∧ eraseAll as' = eraseAll as := by
  cases n with
  | construct q c' as' =>
    obtain ⟨-, rfl, has⟩ := construct.inj h
    exact ⟨q, as', rfl, has⟩
  | _ => cases h

theorem eq_arm {pattern body : Node} (h : (arm p pattern body).Alike n) :
    ∃ q pattern' body', n = arm q pattern' body' ∧ pattern.Alike pattern' ∧ body.Alike body' := by
  cases n with
  | arm q pattern' body' =>
    obtain ⟨-, hpattern, hbody⟩ := arm.inj h
    exact ⟨q, pattern', body', rfl, hpattern, hbody⟩
  | _ => cases h

theorem eq_caseOf {scrutinee : Node} {arms : List Node} (h : (caseOf p scrutinee arms).Alike n) :
    ∃ q scrutinee' arms', n = caseOf q scrutinee' arms' ∧ scrutinee.Alike scrutinee'
      ∧ eraseAll arms' = eraseAll arms := by
  cases n with
  | caseOf q scrutinee' arms' =>
    obtain ⟨-, hscrutinee, harms⟩ := caseOf.inj h
    exact ⟨q, scrutinee', arms', rfl, hscrutinee, harms⟩
  | _ => cases h

theorem eq_letIn {name : Name} {value body t : Node} (h : (letIn p name value body t).Alike n) :
    ∃ q value' body' t', n = letIn q name value' body' t' ∧ value.Alike value'
      ∧ body.Alike body' := by
  cases n with
  | letIn q name' value' body' t' =>
    obtain ⟨-, rfl, hvalue, hbody, -⟩ := letIn.inj h
    exact ⟨q, value', body', t', rfl, hvalue, hbody⟩
  | _ => cases h

theorem eq_seq {first rest : Node} (h : (seq p first rest).Alike n) :
    ∃ q first' rest', n = seq q first' rest' ∧ first.Alike first' ∧ rest.Alike rest' := by
  cases n with
  | seq q first' rest' =>
    obtain ⟨-, hfirst, hrest⟩ := seq.inj h
    exact ⟨q, first', rest', rfl, hfirst, hrest⟩
  | _ => cases h

theorem eq_lambda {params : List Name} {body : Node} (h : (lambda p params body).Alike n) :
    ∃ q body', n = lambda q params body' ∧ body.Alike body' := by
  cases n with
  | lambda q params' body' =>
    obtain ⟨-, rfl, hbody⟩ := lambda.inj h
    exact ⟨q, body', rfl, hbody⟩
  | _ => cases h

theorem eq_block {ds : List Node} {body : Node} (h : (block p ds body).Alike n) :
    ∃ q ds' body', n = block q ds' body' ∧ eraseAll ds' = eraseAll ds ∧ body.Alike body' := by
  cases n with
  | block q ds' body' =>
    obtain ⟨-, hds, hbody⟩ := block.inj h
    exact ⟨q, ds', body', rfl, hds, hbody⟩
  | _ => cases h

theorem eq_program {ds : List Node} {body : Node} (h : (program p ds body).Alike n) :
    ∃ q ds' body', n = program q ds' body' ∧ eraseAll ds' = eraseAll ds ∧ body.Alike body' := by
  cases n with
  | program q ds' body' =>
    obtain ⟨-, hds, hbody⟩ := program.inj h
    exact ⟨q, ds', body', rfl, hds, hbody⟩
  | _ => cases h

end Alike

theorem eraseAll_eq_nil {ms : List Node} (h : eraseAll ms = eraseAll []) : ms = [] := by
  cases ms with
  | nil => rfl
  | cons m ms => cases h

end EmberLang.Node
