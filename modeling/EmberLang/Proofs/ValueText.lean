import EmberLang.Proofs.Wording

/-!
# Writing a value piece by piece

A value is written without recursion: a list of pieces is still to be
written, and a data value on it is replaced by its fields and by the marks
between them. The text that comes of it is the one of the recursive
definition, for values of any depth and with any number of fields, and also
if some part of the value has no text.

While pieces are written, what is done and what the rest of the pieces come
to make up the same text at every step (`Value.writePieces_eq`). The step
that replaces a data value is the one that has to be looked at: its marks
are put down one by one, and have to be those of a list with commas
(`Value.textOf_fields`). `Value.text_follows_recursion` adds that no other
function follows the recursion, and which values have a text.
-/

namespace EmberLang.Value

/-! ## What the pieces come to -/

/-- The text of a piece. -/
def Piece.textOf : Piece → Except Failure String
  | text s => .ok s
  | value v => v.textOf

/-- **The text of some pieces**, one after the other. -/
def Piece.textsOf : List Piece → Except Failure String
  | [] => .ok ""
  | p :: ps => do return (← p.textOf) ++ (← textsOf ps)

theorem Piece.textsOf_cons (p : Piece) (ps : List Piece) :
    textsOf (p :: ps) = do return (← p.textOf) ++ (← textsOf ps) := rfl

theorem Piece.textsOf_append (ps qs : List Piece) :
    textsOf (ps ++ qs) = do return (← textsOf ps) ++ (← textsOf qs) := by
  induction ps with
  | nil => simp only [List.nil_append, textsOf, ok_bind, String.empty_append, bind_pure]
  | cons p ps ih =>
    simp only [List.cons_append, textsOf, ih, bind_assoc, pure_bind, String.append_assoc]

/-- The fields after the first, with the marks before and after them. -/
theorem Piece.textsOf_ofFields (vs : List Value) (first : String) :
    (do return first ++ (← textsOf (ofFields vs)))
      = (do return ", ".intercalate (first :: (← Value.textsOf vs)) ++ ")") := by
  induction vs generalizing first with
  | nil =>
    simp only [ofFields, textsOf, Piece.textOf, Value.textsOf, ok_bind, pure_bind,
      String.intercalate_singleton, String.append_empty]
  | cons v vs ih =>
    simp only [ofFields, textsOf, Piece.textOf, Value.textsOf, ok_bind, pure_bind, bind_assoc]
    refine bind_congr fun s => ?_
    have hrest := congrArg (fun m => do return first ++ ", " ++ (← m)) (ih s)
    simpa only [bind_assoc, pure_bind, String.intercalate_cons_cons, String.append_assoc]
      using hrest

/-- **A data value with fields**, its marks put down one by one. -/
theorem textOf_fields (c : Name) (f : Value) (fs : List Value) :
    (data c (f :: fs)).textOf = do
      let name ← constructorText c
      return name ++ "(" ++ (← Piece.textsOf (.value f :: Piece.ofFields fs)) := by
  rw [textOf]
  refine bind_congr fun name => ?_
  simp only [Piece.textsOf, Piece.textOf, bind_assoc, pure_bind]
  refine bind_congr fun first => ?_
  have hrest := congrArg (fun m => do return name ++ "(" ++ (← m)) (Piece.textsOf_ofFields fs first)
  simpa only [bind_assoc, pure_bind, String.append_assoc] using hrest.symm

theorem textOf_plain {v : Value} (hv : ∀ c f fs, v ≠ data c (f :: fs)) :
    v.textOf = v.plainText := by
  cases v with
  | data c fs =>
    cases fs with
    | nil => rw [textOf, plainText]
    | cons f fs => exact absurd rfl (hv c f fs)
  | _ => rw [textOf] <;> simp

/-- **What is done and what the pieces come to** make up the text, at every
step. -/
theorem writePieces_eq (done : String) (pieces : List Piece) :
    writePieces done pieces = do return done ++ (← Piece.textsOf pieces) := by
  fun_induction writePieces done pieces with
  | case1 done => simp only [Piece.textsOf, ok_bind, String.append_empty, pure_eq_ok]
  | case2 done s rest ih =>
    simp only [ih, Piece.textsOf, Piece.textOf, ok_bind, bind_assoc, pure_bind, String.append_assoc]
  | case3 done c f fs rest s hs ih =>
    have hdata : (Piece.value (data c (f :: fs))).textOf = do
        return s ++ "(" ++ (← Piece.textsOf (.value f :: Piece.ofFields fs)) := by
      rw [Piece.textOf, textOf_fields, hs, ok_bind]
    rw [ih, ← List.cons_append, Piece.textsOf_append, Piece.textsOf_cons (.value _) rest, hdata]
    simp only [bind_assoc, pure_bind, String.append_assoc]
  | case4 done c f fs rest e he =>
    rw [Piece.textsOf, Piece.textOf, textOf_fields, he]
    rfl
  | case5 done v rest hv s hs ih =>
    rw [ih, Piece.textsOf, Piece.textOf, textOf_plain hv, hs]
    simp only [ok_bind, bind_assoc, pure_bind, String.append_assoc]
  | case6 done v rest hv e he =>
    rw [Piece.textsOf, Piece.textOf, textOf_plain hv, he]
    rfl

/-- **The text that is written piece by piece** is the one of the recursive
definition, or fails with it. -/
theorem text_eq_textOf (v : Value) : v.text = v.textOf := by
  rw [text, writePieces_eq]
  simp only [Piece.textsOf, Piece.textOf, ok_bind, String.append_empty, String.empty_append,
    bind_pure]

/-! ## The recursion -/

/-- **A printer that follows the recursion**: a data value without fields is
its constructor, one with fields is its constructor and the texts of its
fields, and any other value is a text of its own. -/
structure IsPrinter (print : Value → Except Failure String) : Prop where
  /-- Data without fields. -/
  bare : ∀ c, print (data c []) = constructorText c
  /-- Data with fields. -/
  fields : ∀ c fs, fs ≠ [] → print (data c fs) = do
    let name ← constructorText c
    let texts ← fs.mapM print
    return name ++ "(" ++ ", ".intercalate texts ++ ")"
  /-- What is no data. -/
  plain : ∀ v, (∀ c fs, v ≠ data c fs) → print v = v.plainText

theorem textsOf_eq_mapM (vs : List Value) : textsOf vs = vs.mapM textOf := by
  induction vs with
  | nil => rfl
  | cons v vs ih => rw [textsOf, ih, List.mapM_cons]

theorem isPrinter_textOf : IsPrinter textOf where
  bare c := textOf_plain fun _ _ _ => by simp
  fields c fs hfs := by
    obtain ⟨f, fs, rfl⟩ := List.exists_cons_of_ne_nil hfs
    rw [textOf, List.mapM_cons, textsOf_eq_mapM]
    simp only [bind_assoc, pure_bind]
  plain v hv := textOf_plain fun c f fs => hv c (f :: fs)

namespace IsPrinter

variable {print print' : Value → Except Failure String}

mutual

/-- **The recursion has one solution.** -/
theorem unique (h : IsPrinter print) (h' : IsPrinter print') (v : Value) :
    print v = print' v := by
  cases v with
  | data c fs =>
    cases fs with
    | nil => rw [h.bare, h'.bare]
    | cons f fs =>
      rw [h.fields c _ (List.cons_ne_nil f fs), h'.fields c _ (List.cons_ne_nil f fs),
        uniqueAll h h' (f :: fs)]
  | _ => rw [h.plain _ (by simp), h'.plain _ (by simp)]

theorem uniqueAll (h : IsPrinter print) (h' : IsPrinter print') (vs : List Value) :
    vs.mapM print = vs.mapM print' := by
  cases vs with
  | nil => rfl
  | cons v vs => rw [List.mapM_cons, List.mapM_cons, unique h h' v, uniqueAll h h' vs]

end

end IsPrinter

/-! ## Which values have a text -/

mutual

/-- **A value that has a text**: its integers are not too long, and the
names that are written are words. -/
def HasText : Value → Prop
  | int n => Decimal.isPrintable n = true
  | data c fs => c.IsWord ∧ HaveTexts fs
  | closure f _ => ∀ n ∈ f.params, n.IsWord
  | _ => True

/-- Several values that have texts. -/
def HaveTexts : List Value → Prop
  | [] => True
  | v :: vs => HasText v ∧ HaveTexts vs

end

/-- Two steps have a result if the first has one that the second can go on
with. -/
theorem exists_bind_iff {α β : Type} {m : Except Failure α} {g : α → Except Failure β} :
    (∃ b, m >>= g = .ok b) ↔ ∃ a, m = .ok a ∧ ∃ b, g a = .ok b := by
  constructor
  · rintro ⟨b, h⟩
    obtain ⟨a, ha, hb⟩ := bind_eq_ok h
    exact ⟨a, ha, b, hb⟩
  · rintro ⟨a, rfl, b, hb⟩
    exact ⟨b, hb⟩

theorem exists_needWord_iff {n : Name} : (∃ u, n.needWord = .ok u) ↔ n.IsWord := by
  cases n with
  | word s => exact iff_of_true ⟨(), rfl⟩ ⟨s, rfl⟩
  | other j => exact iff_of_false (by rintro ⟨_, ⟨⟩⟩) (by rintro ⟨_, ⟨⟩⟩)

theorem exists_forM_needWord_iff {names : List Name} :
    (∃ u, names.forM Name.needWord = .ok u) ↔ ∀ n ∈ names, n.IsWord := by
  induction names with
  | nil => exact iff_of_true ⟨(), rfl⟩ (List.forall_mem_nil _)
  | cons n names ih =>
    rw [List.forall_mem_cons, ← ih, ← exists_needWord_iff]
    show (∃ u, n.needWord >>= (fun _ => names.forM Name.needWord) = .ok u) ↔ _
    rw [exists_bind_iff, exists_and_right]

theorem exists_constructorText_iff {c : Name} : (∃ s, constructorText c = .ok s) ↔ c.IsWord := by
  rw [constructorText, exists_bind_iff, ← exists_needWord_iff]
  simp

theorem exists_closureText_iff {f : Function} :
    (∃ s, closureText f = .ok s) ↔ ∀ n ∈ f.params, n.IsWord := by
  rw [closureText, Name.commas, ← exists_forM_needWord_iff]
  simp only [exists_bind_iff, pure_eq_ok, Except.ok.injEq, exists_eq', and_true]

theorem exists_intText_iff {n : Int} :
    (∃ s, intText n = .ok s) ↔ Decimal.isPrintable n = true := by
  unfold intText Decimal.intText?
  -- the bound on the length must not be evaluated
  generalize Decimal.isPrintable n = printable
  cases printable <;> simp

theorem exists_plainText_iff {v : Value} (hv : ∀ c fs, v ≠ data c fs) :
    (∃ s, v.plainText = .ok s) ↔ v.HasText := by
  cases v with
  | int n =>
    rw [plainText, HasText]
    exact exists_intText_iff
  | closure f s => exact exists_closureText_iff
  | data c fs => exact absurd rfl (hv c fs)
  | _ => exact iff_of_true ⟨_, rfl⟩ trivial

mutual

/-- **A value has a text** if all of its parts do. -/
theorem exists_textOf_iff (v : Value) : (∃ s, v.textOf = .ok s) ↔ v.HasText := by
  cases v with
  | data c fs =>
    rw [HasText, ← exists_constructorText_iff]
    cases fs with
    | nil => simp only [textOf, HaveTexts, and_true]
    | cons f fs =>
      rw [HaveTexts, ← exists_textOf_iff f, ← exists_textsOf_iff fs, textOf, exists_bind_iff]
      simp only [exists_bind_iff, pure_eq_ok, Except.ok.injEq, exists_eq', and_true,
        exists_and_right]
  | _ =>
    rw [textOf_plain (by simp)]
    exact exists_plainText_iff (by simp)

theorem exists_textsOf_iff (vs : List Value) : (∃ ss, textsOf vs = .ok ss) ↔ HaveTexts vs := by
  cases vs with
  | nil => exact iff_of_true ⟨[], rfl⟩ trivial
  | cons v vs =>
    rw [HaveTexts, ← exists_textOf_iff v, ← exists_textsOf_iff vs, textsOf]
    simp only [exists_bind_iff, pure_eq_ok, Except.ok.injEq, exists_eq', and_true,
      exists_and_right]

end

/-- **Writing piece by piece is the recursion.** The text of a value, of any
depth and with any number of fields, is the one of the recursive definition;
a function follows the recursion if and only if it is this one; and a value
has a text if and only if its integers are not too long and its names are
words. -/
theorem text_follows_recursion :
    (∀ v : Value, v.text = v.textOf)
      ∧ (∀ print : Value → Except Failure String, IsPrinter print ↔ print = text)
      ∧ ∀ v : Value, (∃ s, v.text = .ok s) ↔ v.HasText := by
  have htext : text = textOf := funext text_eq_textOf
  refine ⟨text_eq_textOf, fun print => ?_, fun v => ?_⟩
  · rw [htext]
    constructor
    · exact fun h => funext (h.unique isPrinter_textOf)
    · rintro rfl
      exact isPrinter_textOf
  · rw [text_eq_textOf]
    exact exists_textOf_iff v

end EmberLang.Value
