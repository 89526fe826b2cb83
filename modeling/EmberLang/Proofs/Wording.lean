import EmberLang.Host.Result
import EmberLang.Message
import EmberLang.Proofs.Outcome

/-!
# How wording fails

Values, results of the host and messages of the trace are put into words
while a program runs, and this can fail in two ways only: an integer is
too long to be written, or what stands for a name is no word. The second
way is open only if some name that the wording looks at is no word
(`Value.Worded`, `Message.Worded`). Whatever else a failure of a run may
be, it does not come from wording.
-/

namespace EmberLang

/-- A name is a word. -/
def Name.IsWord (n : Name) : Prop := ∃ s, n = word s

/-- **A failure of wording**: an integer too long, or a name that is no
word, which cannot be if everything is `worded`. -/
def Failure.IsWording (worded : Prop) (f : Failure) : Prop :=
  f = .numeralTooLong ∨ (f = .shape .unfitName ∧ ¬ worded)

/-- **A wording**: it has a text or fails as wordings do. -/
abbrev Wording {α : Type} (worded : Prop) (outcome : Except Failure α) : Prop :=
  FailsOnly (Failure.IsWording worded) outcome

theorem Wording.mono {α : Type} {worded worded' : Prop} {outcome : Except Failure α}
    (h : Wording worded outcome) (himp : worded' → worded) : Wording worded' outcome :=
  FailsOnly.mono h fun _ hf => hf.imp_right fun ⟨hname, hnot⟩ => ⟨hname, mt himp hnot⟩

theorem wording_intText (n : Int) : Wording True (intText n) := by
  unfold intText
  split
  · exact .ok _
  · exact .error (Or.inl rfl)

namespace Name

theorem wording_needWord (n : Name) : Wording n.IsWord n.needWord := by
  cases n with
  | word s => exact .ok ()
  | other j => exact .error (Or.inr ⟨rfl, by rintro ⟨s, ⟨⟩⟩⟩)

theorem wording_forM_needWord (names : List Name) :
    Wording (∀ n ∈ names, n.IsWord) (names.forM needWord) :=
  .forM fun n hn => n.wording_needWord.mono fun h => h n hn

theorem wording_commas (names : List Name) : Wording (∀ n ∈ names, n.IsWord) (commas names) :=
  (wording_forM_needWord names).bind fun _ _ => .ok _

end Name

namespace Value

mutual

/-- **All names in the wording of a value are words**: those of its
constructors, and those of the parameters of its closures. -/
def Worded : Value → Prop
  | data c fs => c.IsWord ∧ WordedAll fs
  | closure f _ => ∀ n ∈ f.params, n.IsWord
  | _ => True

/-- All names in the wording of several values are words. -/
def WordedAll : List Value → Prop
  | [] => True
  | v :: vs => Worded v ∧ WordedAll vs

end

theorem wording_closureText (f : Function) :
    Wording (∀ n ∈ f.params, n.IsWord) (closureText f) :=
  (Name.wording_commas f.params).bind fun _ _ => .ok _

theorem wording_constructorText (c : Name) : Wording c.IsWord (constructorText c) :=
  (Name.wording_needWord c).bind fun _ _ => .ok _

theorem wording_plainText (v : Value) : Wording v.Worded v.plainText := by
  cases v with
  | int n => exact wording_intText n
  | data c fs => exact (wording_constructorText c).mono fun h => h.1
  | closure f s => exact wording_closureText f
  | _ => exact .ok _

namespace Piece

/-- All names in the wording of some pieces are words. -/
def Worded (pieces : List Piece) : Prop := ∀ v, value v ∈ pieces → v.Worded

theorem worded_ofFields {fs : List Value} (h : WordedAll fs) {rest : List Piece}
    (hrest : Worded rest) : Worded (ofFields fs ++ rest) := by
  induction fs with
  | nil =>
    intro v hv
    simp only [ofFields, List.cons_append, List.nil_append, List.mem_cons, reduceCtorEq,
      false_or] at hv
    exact hrest v hv
  | cons f fs ih =>
    intro v hv
    simp only [ofFields, List.cons_append, List.mem_cons, reduceCtorEq, value.injEq,
      false_or] at hv
    rcases hv with rfl | hv
    · exact h.1
    · exact ih h.2 v hv

end Piece

theorem wording_writePieces (done : String) (pieces : List Piece) :
    Wording (Piece.Worded pieces) (writePieces done pieces) := by
  fun_induction writePieces done pieces with
  | case1 done => exact .ok _
  | case2 done s rest ih => exact Wording.mono ih fun h v hv => h v (List.mem_cons_of_mem _ hv)
  | case3 done c f fs rest s hs ih =>
    refine Wording.mono ih fun h v hv => ?_
    obtain ⟨-, hf, hfs⟩ := h (data c (f :: fs)) List.mem_cons_self
    rcases List.mem_cons.1 hv with hv | hv
    · obtain rfl := Piece.value.inj hv
      exact hf
    · exact Piece.worded_ofFields hfs (fun w hw => h w (List.mem_cons_of_mem _ hw)) v hv
  | case4 done c f fs rest e he =>
    exact .error (((wording_constructorText c).mono fun h => (h _ List.mem_cons_self).1) e he)
  | case5 done v rest _ s hs ih =>
    exact Wording.mono ih fun h w hw => h w (List.mem_cons_of_mem _ hw)
  | case6 done v rest _ e he =>
    exact .error (((wording_plainText v).mono fun h => h _ List.mem_cons_self) e he)

theorem wording_text (v : Value) : Wording v.Worded v.text :=
  (wording_writePieces "" [.value v]).mono fun h w hw => by
    obtain rfl := Piece.value.inj (List.mem_singleton.1 hw)
    exact h

theorem wording_mapM_text (vs : List Value) : Wording (WordedAll vs) (vs.mapM text) := by
  induction vs with
  | nil => exact .ok _
  | cons v vs ih =>
    rw [List.mapM_cons]
    refine ((wording_text v).mono fun h => h.1).bind fun _ _ => ?_
    exact (Wording.mono ih fun h => h.2).bind fun _ _ => .ok _

theorem wording_texts (vs : List Value) : Wording (WordedAll vs) (texts vs) :=
  (wording_mapM_text vs).bind fun _ _ => .ok _

theorem wording_caseLabel (v : Value) : Wording v.Worded v.caseLabel := by
  cases v with
  | data c fs => exact .ok _
  | _ => exact wording_text _

mutual

theorem wording_shown : (v : Value) → Wording v.Worded v.shown
  | .int n => by
    rw [shown]
    exact ((wording_intText n).mono fun _ => trivial).bind fun _ _ => .ok _
  | .data c fs => by
    rw [shown]
    exact ((wording_shownAll fs).mono fun h => h.2).bind fun _ _ => .ok _
  | .closure f s => by
    rw [shown]
    exact wording_closureText f
  | .real _ => .ok _
  | .bool _ => .ok _
  | .char _ => .ok _
  | .unit => .ok _

theorem wording_shownAll : (vs : List Value) → Wording (WordedAll vs) (shownAll vs)
  | [] => .ok _
  | v :: vs => by
    rw [shownAll]
    refine ((wording_shown v).mono fun h => h.1).bind fun _ _ => ?_
    exact ((wording_shownAll vs).mono fun h => h.2).bind fun _ _ => .ok _

end

end Value

namespace HostResult

mutual

/-- **All names in the wording of a result are words.** -/
def Worded : HostResult → Prop
  | value v => v.Worded
  | list items => WordedAll items
  | _ => True

/-- All names in the wording of several results are words. -/
def WordedAll : List HostResult → Prop
  | [] => True
  | r :: rs => Worded r ∧ WordedAll rs

end

mutual

theorem wording_shown : (r : HostResult) → Wording r.Worded r.shown
  | .int n => wording_intText n
  | .list items => by
    rw [shown]
    exact (wording_shownAll items).bind fun _ _ => .ok _
  | .value v => v.wording_shown
  | .nothing => .ok _
  | .bool _ => .ok _
  | .real _ => .ok _
  | .text _ => .ok _

theorem wording_shownAll : (rs : List HostResult) → Wording (WordedAll rs) (shownAll rs)
  | [] => .ok _
  | r :: rs => by
    rw [shownAll]
    refine ((wording_shown r).mono fun h => h.1).bind fun _ _ => ?_
    exact ((wording_shownAll rs).mono fun h => h.2).bind fun _ _ => .ok _

end

end HostResult

namespace Message

/-- **All names that the wording of a message looks at are words.** -/
def Worded : Message → Prop
  | function f => ∀ n ∈ f.params, n.IsWord
  | result v => v.Worded
  | directive _ args => Value.WordedAll args
  | foreignCall _ args => Value.WordedAll args
  | call _ _ args => Value.WordedAll args
  | chosen v _ => v.Worded
  | _ => True

/-- **The wording of a message is a wording.** -/
theorem wording_text (m : Message) : Wording m.Worded m.text := by
  cases m with
  | function f => exact (Name.wording_commas f.params).bind fun _ _ => .ok _
  | result v => exact v.wording_text.bind fun _ _ => .ok _
  | directive name args => exact (Value.wording_texts args).bind fun _ _ => .ok _
  | foreignCall name args => exact (Value.wording_texts args).bind fun _ _ => .ok _
  | call depth name args => exact (Value.wording_texts args).bind fun _ _ => .ok _
  | chosen v index => exact v.wording_caseLabel.bind fun _ _ => .ok _
  | _ => exact .ok _

end Message

end EmberLang
