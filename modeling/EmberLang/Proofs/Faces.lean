import EmberLang.Eval
import EmberLang.Proofs.Wording

/-!
# What is seen of a value

Two runs of programs that do the same rarely come to the same closures: a
closure holds the body of its function and the scope it was made in. All
that a program or a message shows of a closure is its name and its
parameters. The *face* of a value is what is left of it when the rest of
its closures is taken away, and every operation that looks at a value
without calling it gives the same for a value and for its face.
-/

namespace EmberLang

namespace Value

mutual

/-- **What is seen of a value**: of a closure its name and its
parameters. -/
def face : Value → Value
  | int n => int n
  | real x => real x
  | bool b => bool b
  | char s => char s
  | unit => unit
  | data c fields => data c (faces fields)
  | closure f _ => closure ⟨f.name, f.params, .unit none⟩ .empty

/-- What is seen of several values. -/
def faces : List Value → List Value
  | [] => []
  | v :: vs => face v :: faces vs

end

theorem faces_eq_map (vs : List Value) : faces vs = vs.map face := by
  induction vs with
  | nil => rfl
  | cons v vs ih => rw [faces, ih, List.map_cons]

@[simp]
theorem typeName_face (v : Value) : v.face.typeName = v.typeName := by
  cases v <;> simp [face, typeName]

@[simp]
theorem literal?_face (v : Value) : v.face.literal? = v.literal? := by
  cases v <;> simp [face, literal?]

@[simp]
theorem tag_face (v : Value) : v.face.tag = v.tag := by
  unfold tag
  rw [literal?_face, typeName_face]

/-! ## Texts -/

@[simp]
theorem plainText_face (v : Value) : v.face.plainText = v.plainText := by
  cases v <;> rw [face] <;> rfl

/-- What is seen of a piece of a text. -/
def Piece.face : Piece → Piece
  | .text s => .text s
  | .value v => .value v.face

theorem Piece.map_face_ofFields (vs : List Value) :
    (Piece.ofFields vs).map Piece.face = Piece.ofFields (faces vs) := by
  induction vs with
  | nil => rfl
  | cons v vs ih => rw [ofFields, List.map_cons, List.map_cons, ih, faces, ofFields]; rfl

/-- What has no fields shows none. -/
theorem face_ne_data {v : Value} (h : ∀ c f fs, v = data c (f :: fs) → False) :
    ∀ c f fs, v.face = data c (f :: fs) → False := by
  intro c f fs he
  cases v with
  | data d gs =>
    cases gs with
    | nil => cases he
    | cons g gs => exact h d g gs rfl
  | _ => cases he

theorem writePieces_face (done : String) (pieces : List Piece) :
    writePieces done (pieces.map Piece.face) = writePieces done pieces := by
  fun_induction writePieces done pieces with
  | case1 done => rw [List.map_nil, writePieces]
  | case2 done s rest ih => rw [List.map_cons, Piece.face, writePieces, ih]
  | case3 done c f fs rest s hs ih =>
    rw [List.map_cons, List.map_append, Piece.map_face_ofFields] at ih
    rw [List.map_cons, Piece.face, face, faces, writePieces, hs]
    exact ih
  | case4 done c f fs rest e he =>
    rw [List.map_cons, Piece.face, face, faces, writePieces, he]
  | case5 done v rest hv s hs ih =>
    rw [List.map_cons, Piece.face, writePieces, plainText_face, hs]
    · exact ih
    · exact face_ne_data hv
  | case6 done v rest hv e he =>
    rw [List.map_cons, Piece.face, writePieces, plainText_face, he]
    exact face_ne_data hv

/-- **The text of a value shows its face only.** -/
@[simp]
theorem text_face (v : Value) : v.face.text = v.text := writePieces_face "" [.value v]

@[simp]
theorem texts_faces (vs : List Value) : texts (faces vs) = texts vs := by
  have hmap : (faces vs).mapM text = vs.mapM text := by
    rw [faces_eq_map, List.mapM_map]
    exact congrArg (vs.mapM ·) (funext text_face)
  unfold texts
  rw [hmap]

@[simp]
theorem caseLabel_face (v : Value) : v.face.caseLabel = v.caseLabel := by
  cases v with
  | data c fields => rw [face, caseLabel, caseLabel]
  | closure f scope => exact text_face (closure f scope)
  | _ => rfl

mutual

@[simp]
theorem shown_face (v : Value) : v.face.shown = v.shown := by
  cases v with
  | data c fields => rw [face, shown, shown, shownAll_faces fields]
  | closure f scope => rw [face, shown, shown]; rfl
  | _ => rfl

@[simp]
theorem shownAll_faces (vs : List Value) : shownAll (faces vs) = shownAll vs := by
  cases vs with
  | nil => rfl
  | cons v vs => rw [faces, shownAll, shownAll, shown_face v, shownAll_faces vs]

end

end Value

/-! ## What a host gives back -/

namespace HostResult

mutual

/-- What is seen of a result of the host. -/
def face : HostResult → HostResult
  | nothing => nothing
  | bool b => bool b
  | int n => int n
  | real x => real x
  | text s => text s
  | list items => list (faces items)
  | value v => value v.face

/-- What is seen of several results. -/
def faces : List HostResult → List HostResult
  | [] => []
  | r :: rs => face r :: faces rs

end

mutual

theorem shown_face (r : HostResult) : r.face.shown = r.shown := by
  cases r with
  | list items => rw [face, shown, shown, shownAll_faces items]
  | value v => rw [face, shown, shown, Value.shown_face]
  | _ => rfl

theorem shownAll_faces (rs : List HostResult) : shownAll (faces rs) = shownAll rs := by
  cases rs with
  | nil => rfl
  | cons r rs => rw [faces, shownAll, shownAll, shown_face r, shownAll_faces rs]

end

theorem refuse_face (r : HostResult) (native : String) (p : Option Position) :
    r.face.refuse native p = r.refuse native p := by
  unfold refuse
  rw [shown_face]

end HostResult

/-- What is seen of a foreign call. -/
def Effect.face (e : Effect) : Effect := ⟨e.name, Value.faces e.args, e.directive⟩

end EmberLang
