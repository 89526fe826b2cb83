import EmberLang.Proofs.Reading

/-!
# Tokens that begin a phrase

A reader that stops at a token has taken the tokens before it, and these
begin a phrase: some lexemes complete them (`Parser.Completable`). It has
also seen no more than these tokens and the one it stopped at, so it ends in
the same way whatever comes after (`Parser.Settles`). Both are said of a
reader with some levels and of the same reader with more, since a phrase
that completes what was read may be nested further.

`Parser.Viable` says both of a reader, and its rules follow the way readers
are built from others. Where one reader comes after another, what the first
has taken is completed and the second still needs a phrase to read: a
`Parser.Phrase` is viable and comes with lexemes of which this is known. The
lexemes that may follow matter as they do for `Parser.Reads`.
-/

namespace EmberLang.Parser

variable {α β : Type} {more : Prop}

/-- **How a reader ends by the tokens alone**: it gives something, or it
needed something else than what comes next. -/
def outcome (r : Except (List String) α) (rest : List Token) : Except Stuck (α × List Token) :=
  match r with
  | .ok a => .ok (a, rest)
  | .error expected => .error (.unexpected expected rest)

theorem eq_of_ok_eq_outcome {a : α} {mid rest : List Token} {r : Except (List String) α}
    (h : .ok (a, mid) = outcome r rest) : r = .ok a ∧ mid = rest := by
  cases r with
  | ok b =>
    obtain ⟨rfl, rfl⟩ := Prod.mk.inj (Except.ok.inj h)
    exact ⟨rfl, rfl⟩
  | error expected => cases h

theorem eq_of_error_eq_outcome {e : Stuck} {rest : List Token} {r : Except (List String) α}
    (h : .error e = outcome r rest) :
    ∃ expected, r = .error expected ∧ e = .unexpected expected rest := by
  cases r with
  | ok b => cases h
  | error expected => exact ⟨expected, rfl, Except.error.inj h⟩

theorem bind_of_ok {p : Parser α} {f : α → Parser β} {a : α} {ts mid : List Token}
    (h : p ts = .ok (a, mid)) : (p >>= f) ts = f a mid := by
  show (p ts >>= fun s => f s.1 s.2) = _
  rw [h]
  rfl

theorem bind_of_error {p : Parser α} {f : α → Parser β} {e : Stuck} {ts : List Token}
    (h : p ts = .error e) : (p >>= f) ts = .error e := by
  show (p ts >>= fun s => f s.1 s.2) = _
  rw [h]
  rfl

/-- What is made of a result does not change how a reader ends. -/
theorem map_eq_outcome {p : Parser α} {g : α → β} {r : Except (List String) β}
    {ts rest : List Token} (h : (p >>= fun a => pure (g a)) ts = outcome r rest) :
    ∃ r', p ts = outcome r' rest ∧ r = r'.map g := by
  cases hp : p ts with
  | error e =>
    rw [bind_of_error hp] at h
    obtain ⟨expected, rfl, rfl⟩ := eq_of_error_eq_outcome h
    exact ⟨.error expected, rfl, rfl⟩
  | ok s =>
    rw [bind_of_ok hp] at h
    obtain ⟨rfl, rfl⟩ := eq_of_ok_eq_outcome h
    exact ⟨.ok s.1, rfl, rfl⟩

theorem map_of_eq_outcome {p : Parser α} {r : Except (List String) α} {ts rest : List Token}
    (h : p ts = outcome r rest) (g : α → β) :
    (p >>= fun a => pure (g a)) ts = outcome (r.map g) rest := by
  cases r with
  | ok a => exact bind_of_ok h
  | error expected => exact bind_of_error h

/-! ## What follows does not matter -/

/-- **A reader ends with `r` behind the tokens `us`**, whatever comes after
them, as long as the next token is the given one. -/
def Settles (p : Parser α) (us : List Token) (r : Except (List String) α) (next : Option Token) :
    Prop :=
  ∀ rest : List Token, rest.head? = next → p (us ++ rest) = outcome r rest

theorem head?_append_congr {us rest rest' : List Token} (h : rest'.head? = rest.head?) :
    (us ++ rest').head? = (us ++ rest).head? := by
  cases us with
  | nil => exact h
  | cons u us => rfl

theorem head?_append_of_ne_nil {us : List Token} (h : us ≠ []) (rest rest' : List Token) :
    (us ++ rest).head? = (us ++ rest').head? := by
  rw [List.head?_append_of_ne_nil us h, List.head?_append_of_ne_nil us h]

namespace Settles

variable {p : Parser α} {f : α → Parser β} {us us' rest : List Token}

theorem bind {a : α} {r : Except (List String) β}
    (hp : Settles p us (.ok a) (us' ++ rest).head?) (hf : Settles (f a) us' r rest.head?) :
    Settles (p >>= f) (us ++ us') r rest.head? := by
  intro rest' hrest'
  rw [List.append_assoc, bind_of_ok (hp (us' ++ rest') (head?_append_congr hrest'))]
  exact hf rest' hrest'

theorem bind_error {expected : List String} {o : Option Token}
    (hp : Settles p us (.error expected) o) : Settles (p >>= f) us (.error expected) o :=
  fun rest' hrest' => bind_of_error (hp rest' hrest')

end Settles

/-! ## What can be completed -/

/-- **Tokens that begin a phrase**: there are lexemes such that the tokens,
and any tokens with these lexemes after them, are read as a phrase, provided
that what comes next is as `next` says. -/
def Completable (p : Parser α) (us : List Token) (next : Option Lexeme → Prop) : Prop :=
  ∃ ms : List Lexeme, ∀ vs rest : List Token, vs.map Token.lexeme = ms →
    next (rest.head?.map Token.lexeme) → ∃ a, p (us ++ (vs ++ rest)) = .ok (a, rest)

namespace Completable

variable {p : Parser α} {f : α → Parser β} {us us' : List Token} {F G : Option Lexeme → Prop}

/-- What the first reader has taken is completed, and a phrase for the second
comes after it. -/
theorem bind_reads (hp : Completable p us F) {ms : List Lexeme}
    (hf : ∀ a, Reads (f a) ms G fun _ => True) (hnext : ∀ o, G o → F (follow ms o)) :
    Completable (p >>= f) us G := by
  obtain ⟨ls, hls⟩ := hp
  refine ⟨ls ++ ms, fun vs rest hvs hrest => ?_⟩
  obtain ⟨vs₁, vs₂, rfl, h₁, h₂⟩ := List.map_eq_append_iff.1 hvs
  have hF := hnext _ hrest
  rw [← Reads.head?_append h₂] at hF
  obtain ⟨a, ha⟩ := hls vs₁ (vs₂ ++ rest) h₁ hF
  obtain ⟨b, hb, -⟩ := hf a vs₂ rest h₂ hrest
  rw [← List.append_assoc] at ha
  exact ⟨b, by rw [List.append_assoc vs₁, ← List.append_assoc us, bind_of_ok ha, hb]⟩

/-- What the second reader has taken is completed, behind what the first
has read. -/
theorem bind {a : α} {rest : List Token} (hp : Settles p us (.ok a) (us' ++ rest).head?)
    (hne : us' ≠ []) (hf : Completable (f a) us' G) : Completable (p >>= f) (us ++ us') G := by
  obtain ⟨ms, hms⟩ := hf
  refine ⟨ms, fun vs rest' hvs hrest' => ?_⟩
  rw [List.append_assoc, bind_of_ok (hp _ (head?_append_of_ne_nil hne _ _))]
  exact hms vs rest' hvs hrest'

theorem before (h : Completable p us F) (hnext : ∀ o, G o → F o) : Completable p us G := by
  obtain ⟨ms, hms⟩ := h
  exact ⟨ms, fun vs rest hvs hrest => hms vs rest hvs (hnext _ hrest)⟩

end Completable

/-! ## Viable readers -/

/-- **How a reader ends on some tokens**: the second reader, which has more
levels, ends in the same way behind the tokens that were taken, and if it has
enough of them, then what was taken begins a phrase. -/
def ViableOn (more : Prop) (p p' : Parser α) (next : Option Lexeme → Prop) (ts : List Token) :
    Prop :=
  ∀ r rest, p ts = outcome r rest → ∃ us, ts = us ++ rest ∧ Settles p' us r rest.head?
    ∧ (more → us ≠ [] → Completable p' us next)

/-- **A viable reader.** -/
def Viable (more : Prop) (p p' : Parser α) (next : Option Lexeme → Prop) : Prop :=
  ∀ ts, ViableOn more p p' next ts

/-- A reader that is viable where the next lexeme is the given one. -/
def ViableAt (more : Prop) (o : Option Lexeme) (p p' : Parser α) (next : Option Lexeme → Prop) :
    Prop :=
  ∀ ts : List Token, ts.head?.map Token.lexeme = o → ViableOn more p p' next ts

/-- **A viable reader with a phrase** that it reads. -/
structure Phrase (more : Prop) (p p' : Parser α) (ms : List Lexeme) (next : Option Lexeme → Prop) :
    Prop where
  /-- It is viable. -/
  viable : Viable more p p' next
  /-- It reads the given lexemes. -/
  reads : more → Reads p' ms next fun _ => True

variable {p p' : Parser α} {f f' : α → Parser β} {ls ms : List Lexeme}
variable {F G : Option Lexeme → Prop}

namespace ViableOn

variable {ts : List Token}

/-- A reader that takes nothing. -/
theorem stays (h : ∀ r rest, p ts = outcome r rest →
    rest = ts ∧ Settles p' [] r ts.head?) : ViableOn more p p' G ts := by
  intro r rest hread
  obtain ⟨rfl, hsettles⟩ := h r rest hread
  exact ⟨[], rfl, hsettles, fun _ hne => absurd rfl hne⟩

/-- A reader that ends for another reason than the tokens. -/
theorem never {e : Stuck} (h : p ts = .error e)
    (he : ∀ expected rest, e ≠ .unexpected expected rest) : ViableOn more p p' G ts := by
  intro r rest hread
  obtain ⟨expected, -, heq⟩ := eq_of_error_eq_outcome (h.symm.trans hread)
  exact absurd heq (he expected rest)

theorem taken {t : Token} {a : α} (h : ∀ rest, p (t :: rest) = .ok (a, rest)) (rest : List Token) :
    ViableOn more p p G (t :: rest) := by
  intro r rest' hread
  obtain ⟨rfl, rfl⟩ := eq_of_ok_eq_outcome ((h rest).symm.trans hread)
  refine ⟨[t], rfl, fun rest _ => h rest, fun _ _ => ⟨[], fun vs rest hvs _ => ?_⟩⟩
  obtain rfl := List.map_eq_nil_iff.1 hvs
  exact ⟨a, h rest⟩

theorem refused (expected : List String)
    (h : ∀ rest : List Token, rest.head? = ts.head? → p rest = .error (.unexpected expected rest)) :
    ViableOn more p p G ts := by
  refine .stays fun r rest hread => ?_
  obtain ⟨_, rfl, heq⟩ := eq_of_error_eq_outcome ((h ts rfl).symm.trans hread)
  obtain ⟨rfl, rfl⟩ := Stuck.unexpected.inj heq
  exact ⟨rfl, h⟩

/-- **One reader after another.** -/
theorem bind (hp : ViableOn more p p' F ts) (hnext : ∀ o, G o → F (follow ms o))
    (hf : ∀ a, Phrase more (f a) (f' a) ms G) : ViableOn more (p >>= f) (p' >>= f') G ts := by
  intro r rest hread
  cases hpts : p ts with
  | error e =>
    rw [bind_of_error hpts] at hread
    obtain ⟨expected, rfl, rfl⟩ := eq_of_error_eq_outcome hread
    obtain ⟨us, rfl, hsettles, hcomplete⟩ := hp (.error expected) rest hpts
    exact ⟨us, rfl, hsettles.bind_error, fun hmore hne =>
      (hcomplete hmore hne).bind_reads (fun a => (hf a).reads hmore) hnext⟩
  | ok s =>
    obtain ⟨a, mid⟩ := s
    rw [bind_of_ok hpts] at hread
    obtain ⟨us, rfl, hsettles, hcomplete⟩ := hp (.ok a) mid hpts
    obtain ⟨us', rfl, hsettles', hcomplete'⟩ := (hf a).viable mid r rest hread
    refine ⟨us ++ us', (List.append_assoc ..).symm, hsettles.bind hsettles', fun hmore hne => ?_⟩
    by_cases hus' : us' = []
    · subst hus'
      rw [List.append_nil] at hne ⊢
      exact (hcomplete hmore hne).bind_reads (fun a => (hf a).reads hmore) hnext
    · exact .bind hsettles hus' (hcomplete' hmore hus')

end ViableOn

namespace Viable

theorem bind (hp : Viable more p p' F) (ms : List Lexeme) (hnext : ∀ o, G o → F (follow ms o))
    (hf : ∀ a, Phrase more (f a) (f' a) ms G) : Viable more (p >>= f) (p' >>= f') G :=
  fun ts => (hp ts).bind hnext hf

/-- After a reader whose phrases may be followed by anything. -/
theorem andThen (hp : Viable more p p' anything) (ms : List Lexeme)
    (hf : ∀ a, Phrase more (f a) (f' a) ms G) : Viable more (p >>= f) (p' >>= f') G :=
  hp.bind ms (fun _ _ => trivial) hf

theorem before (h : Viable more p p' F) (hnext : ∀ o, G o → F o) : Viable more p p' G := by
  intro ts r rest hread
  obtain ⟨us, hts, hsettles, hcomplete⟩ := h ts r rest hread
  exact ⟨us, hts, hsettles, fun hmore hne => (hcomplete hmore hne).before hnext⟩

theorem at_next (h : Viable more p p' G) (o : Option Lexeme) : ViableAt more o p p' G :=
  fun ts _ => h ts

theorem needed (expected : List String) :
    Viable more (Parser.needed expected : Parser α) (Parser.needed expected) G := by
  refine fun ts => .stays fun r rest hread => ?_
  obtain ⟨_, rfl, heq⟩ := eq_of_error_eq_outcome hread
  obtain ⟨rfl, rfl⟩ := Stuck.unexpected.inj heq
  exact ⟨rfl, fun _ _ => rfl⟩

/-- What would come after it does not matter. -/
theorem needed_bind (expected : List String) :
    Viable more ((Parser.needed expected : Parser α) >>= f) (Parser.needed expected >>= f') G := by
  refine fun ts => .stays fun r rest hread => ?_
  obtain ⟨_, rfl, heq⟩ := eq_of_error_eq_outcome hread
  obtain ⟨rfl, rfl⟩ := Stuck.unexpected.inj heq
  exact ⟨rfl, fun _ _ => rfl⟩

theorem tooDeep : Viable more (Parser.tooDeep : Parser α) p' G :=
  fun _ => .never rfl fun _ _ h => by cases h

/-! ### Looking ahead -/

/-- **A reader that only looks at the next token.** If something is taken
after it, then what was taken begins with this token; so the reader looks at
the same token again. -/
theorem look {γ : Type} {look : Parser γ} {g : Option Token → γ} {f f' : γ → Parser β}
    (hlook : ∀ ts, look ts = .ok (g ts.head?, ts))
    (h : ∀ ts, ViableOn more (f (g ts.head?)) (f' (g ts.head?)) G ts) :
    Viable more (look >>= f) (look >>= f') G := by
  intro ts r rest hread
  rw [bind_of_ok (hlook ts)] at hread
  obtain ⟨us, rfl, hsettles, hcomplete⟩ := h ts r rest hread
  refine ⟨us, rfl, fun rest' hrest' => ?_, fun hmore hne => ?_⟩
  · rw [bind_of_ok (hlook _), head?_append_congr hrest']
    exact hsettles rest' hrest'
  · obtain ⟨ms, hms⟩ := hcomplete hmore hne
    refine ⟨ms, fun vs rest' hvs hrest' => ?_⟩
    rw [bind_of_ok (hlook _), head?_append_of_ne_nil hne (vs ++ rest') rest]
    exact hms vs rest' hvs hrest'

theorem peek {f f' : Option Lexeme → Parser β} (h : ∀ o, ViableAt more o (f o) (f' o) G) :
    Viable more (Parser.peek >>= f) (Parser.peek >>= f') G :=
  look (g := Option.map Token.lexeme) (fun _ => rfl) fun ts => h _ ts rfl

theorem isNext {l : Lexeme} {f f' : Bool → Parser β} (h : ∀ b, Viable more (f b) (f' b) G) :
    Viable more (Parser.isNext l >>= f) (Parser.isNext l >>= f') G :=
  look (g := fun o => o.map Token.lexeme == some l) (fun _ => rfl) fun ts => h _ ts

theorem here {f f' : Option Position → Parser β} (h : ∀ q, Viable more (f q) (f' q) G) :
    Viable more (Parser.here >>= f) (Parser.here >>= f') G :=
  look (g := Option.map Token.position) (fun _ => rfl) fun ts => h _ ts

end Viable

/-- A reader that takes the next token and goes on. -/
theorem ViableAt.cons {l : Lexeme} {k k' : Position → Parser α}
    (hk : ∀ q, Phrase more (k q) (k' q) ms G)
    (hp : ∀ t ts, t.lexeme = l → p (t :: ts) = k t.position ts)
    (hp' : ∀ t ts, t.lexeme = l → p' (t :: ts) = k' t.position ts) :
    ViableAt more (some l) p p' G := by
  intro ts hhead r rest hread
  obtain ⟨t, ts, rfl⟩ : ∃ t ts', ts = t :: ts' := by
    cases ts with
    | nil => cases hhead
    | cons t ts => exact ⟨t, ts, rfl⟩
  have ht : t.lexeme = l := Option.some.inj hhead
  rw [hp t ts ht] at hread
  obtain ⟨us, rfl, hsettles, hcomplete⟩ := (hk t.position).viable ts r rest hread
  refine ⟨t :: us, rfl, fun rest' hrest' => ?_, fun hmore _ => ?_⟩
  · rw [List.cons_append, hp' t _ ht]
    exact hsettles rest' hrest'
  · have hread' : Completable (k' t.position) us G := by
      by_cases hus : us = []
      · subst hus
        refine ⟨ms, fun vs rest hvs hrest => ?_⟩
        obtain ⟨a, ha, -⟩ := (hk t.position).reads hmore vs rest hvs hrest
        exact ⟨a, ha⟩
      · exact hcomplete hmore hus
    obtain ⟨ms, hms⟩ := hread'
    refine ⟨ms, fun vs rest' hvs hrest' => ?_⟩
    rw [List.cons_append, hp' t _ ht]
    exact hms vs rest' hvs hrest'

namespace Phrase

theorem pure (a : α) : Phrase more (Pure.pure a) (Pure.pure a) [] G := by
  refine ⟨fun ts => .stays fun r rest hread => ?_, fun _ => .pure trivial⟩
  obtain ⟨rfl, rfl⟩ := eq_of_ok_eq_outcome hread
  exact ⟨rfl, fun _ _ => rfl⟩

/-- **One phrase after another.** -/
theorem bind (hp : Phrase more p p' ls F) (hnext : ∀ o, G o → F (follow ms o))
    (hf : ∀ a, Phrase more (f a) (f' a) ms G) :
    Phrase more (p >>= f) (p' >>= f') (ls ++ ms) G :=
  ⟨hp.viable.bind ms hnext hf, fun hmore =>
    (hp.reads hmore).bind hnext fun a _ => (hf a).reads hmore⟩

/-- After a phrase that may be followed by anything. -/
theorem andThen (hp : Phrase more p p' ls anything) (hf : ∀ a, Phrase more (f a) (f' a) ms G) :
    Phrase more (p >>= f) (p' >>= f') (ls ++ ms) G :=
  hp.bind (fun _ _ => trivial) hf

theorem map (hp : Phrase more p p' ms G) (g : α → β) :
    Phrase more (p >>= fun a => Pure.pure (g a)) (p' >>= fun a => Pure.pure (g a)) ms G := by
  rw [← List.append_nil ms]
  exact hp.bind (fun _ h => h) fun a => pure (g a)

theorem before (h : Phrase more p p' ms F) (hnext : ∀ o, G o → F o) : Phrase more p p' ms G :=
  ⟨h.viable.before hnext, fun hmore => (h.reads hmore).before hnext⟩

theorem anywhere (h : Phrase more p p' ms anything) : Phrase more p p' ms G :=
  h.before fun _ _ => trivial

/-- The phrase goes on in one of two ways, and the other is viable. -/
theorem isNext {l : Lexeme} {f f' : Bool → Parser β} (b : Bool)
    (hb : ∀ o, G o → (follow ms o == some l) = b) (h : Phrase more (f b) (f' b) ms G)
    (hother : Viable more (f !b) (f' !b) G) :
    Phrase more (Parser.isNext l >>= f) (Parser.isNext l >>= f') ms G := by
  refine ⟨.isNext fun c => ?_, fun hmore => .isNext b hb (h.reads hmore)⟩
  by_cases hc : c = b
  · exact hc ▸ h.viable
  · have hnot : c = !b := Bool.eq_not.2 hc
    exact hnot ▸ hother

/-! ### Single tokens -/

theorem take (l : Lexeme) : Phrase more (Parser.take l) (Parser.take l) [l] anything := by
  refine ⟨fun ts => ?_, fun _ => ?_⟩
  · cases ts with
    | nil =>
      refine .refused [l.family] fun rest hrest => ?_
      rw [List.head?_eq_none_iff.1 hrest]
      rfl
    | cons t ts =>
      by_cases ht : t.lexeme = l
      · exact .taken (fun rest => if_pos ht) ts
      · refine .refused [l.family] fun rest hrest => ?_
        obtain ⟨rest, rfl⟩ := List.head?_eq_some_iff.1 hrest
        exact if_neg ht
  · rw [← bind_pure (Parser.take l)]
    exact .take fun q => .pure trivial

theorem mark (m : Mark) : Phrase more (Parser.mark m) (Parser.mark m) [.mark m] anything :=
  take (.mark m)

theorem word (k : Keyword) : Phrase more (Parser.word k) (Parser.word k) [.keyword k] anything :=
  take (.keyword k)

theorem name : Phrase more Parser.name Parser.name [.ident "x"] anything := by
  refine ⟨fun ts => ?_, fun _ => ?_⟩
  · cases ts with
    | nil =>
      refine .refused ["IDENT"] fun rest hrest => ?_
      rw [List.head?_eq_none_iff.1 hrest]
      rfl
    | cons t ts =>
      obtain ⟨l, q⟩ := t
      cases l with
      | ident n => exact .taken (fun rest => rfl) ts
      | _ =>
        refine .refused ["IDENT"] fun rest hrest => ?_
        obtain ⟨rest, rfl⟩ := List.head?_eq_some_iff.1 hrest
        rfl
  · rw [← bind_pure Parser.name]
    exact .name fun q => .pure trivial

/-- Whatever comes next is taken. -/
theorem skip (l : Lexeme) : Phrase more Parser.skip Parser.skip [l] anything := by
  refine ⟨fun ts => ?_, fun _ => ?_⟩
  · cases ts with
    | nil =>
      refine .stays fun r rest hread => ?_
      obtain ⟨rfl, rfl⟩ := eq_of_ok_eq_outcome hread
      refine ⟨rfl, fun rest hrest => ?_⟩
      rw [List.head?_eq_none_iff.1 hrest]
      rfl
    | cons t ts => exact .taken (fun rest => rfl) ts
  · rw [← bind_pure Parser.skip]
    exact .skip (.pure trivial)

theorem optionalMark (m : Mark) :
    Phrase more (Parser.optionalMark m) (Parser.optionalMark m) [.mark m] anything := by
  refine isNext true (fun o _ => by simp) ?_ (pure ()).viable
  exact (mark m).map fun _ => ()

end Phrase

/-- A literal is made from the token that is taken, unless that has too many
digits. -/
theorem Viable.literal (l : Lexeme) {value : Except Stuck Literal} (hl : literal? l = some value)
    (g : Literal → α) : Viable more (do Parser.skip; return g (← liftM value))
      (do Parser.skip; return g (← liftM value)) G := by
  cases value with
  | ok v =>
    exact (Phrase.skip l).viable.andThen [] fun _ => .pure (g v)
  | error e =>
    obtain rfl := eq_numeralTooLong_of_literal? hl
    exact fun _ => .never rfl fun _ _ h => by cases h

/-! ## Lists -/

/-- **A reader that takes one token at least.** -/
def Eager (p : Parser α) : Prop := ∀ ts a rest, p ts = .ok (a, rest) → rest.length < ts.length

theorem Eager.take {l : Lexeme} {f f' : Position → Parser β}
    (hf : ∀ q, Viable more (f q) (f' q) G) : Eager (Parser.take l >>= f) := by
  intro ts b rest hread
  cases hts : Parser.take l ts with
  | error e =>
    rw [bind_of_error hts] at hread
    cases hread
  | ok s =>
    obtain ⟨q, mid⟩ := s
    rw [bind_of_ok hts] at hread
    obtain ⟨us, hmid, -⟩ := hf q mid (.ok b) rest hread
    unfold Parser.take at hts
    split at hts
    · next t ts =>
      split at hts
      · obtain ⟨-, rfl⟩ := Prod.mk.inj (Except.ok.inj hts)
        rw [hmid, List.length_cons, List.length_append]
        omega
      · cases hts
    · cases hts

/-- A phrase that begins with a given lexeme takes it. -/
theorem Viable.begun (l : Lexeme) (ms : List Lexeme) {f f' : Position → Parser β}
    (hf : ∀ q, Phrase more (f q) (f' q) ms G) :
    Viable more (Parser.take l >>= f) (Parser.take l >>= f') G ∧ Eager (Parser.take l >>= f) :=
  ⟨(Phrase.take l).viable.andThen ms hf, .take fun q => (hf q).viable⟩

theorem Eager.peek {f : Option Lexeme → Parser β} (h : ∀ o, Eager (f o)) :
    Eager (Parser.peek >>= f) :=
  fun ts b rest hread => h _ ts b rest hread

theorem Eager.needed (expected : List String) : Eager (Parser.needed expected : Parser α) := by
  intro ts a rest hread
  cases hread

section Lists

variable {start : Lexeme → Bool} {step step' : Parser α}

/-- The loop ends where no phrase can start. -/
theorem manyLoop_stops {ts : List Token}
    (h : ∀ l, ts.head?.map Token.lexeme = some l → start l = false) (bound : List Token) :
    manyLoop start step bound ts = .ok ([], ts) := by
  cases bound with
  | nil => rfl
  | cons b bound =>
    cases ts with
    | nil => rfl
    | cons t ts =>
      show (if start t.lexeme = true then _ else Pure.pure [] : Parser (List α)) (t :: ts) = _
      rw [h t.lexeme rfl]
      rfl

/-- Where a phrase can start, it is read, and the loop goes on. -/
theorem manyLoop_starts (step : Parser α) {ts bound : List Token} {l : Lexeme}
    (hl : ts.head?.map Token.lexeme = some l) (hstart : start l = true)
    (hbound : ts.length ≤ bound.length) :
    ∃ bound', ts.length ≤ bound'.length + 1 ∧ manyLoop start step bound ts
      = (step >>= fun a => manyLoop start step bound' >>= fun as => Pure.pure (a :: as)) ts := by
  cases ts with
  | nil => cases hl
  | cons t ts =>
    cases bound with
    | nil => cases hbound
    | cons b bound =>
      refine ⟨bound, hbound, ?_⟩
      obtain rfl : t.lexeme = l := Option.some.inj hl
      show (if start t.lexeme then
          step >>= fun a => manyLoop start step bound >>= fun as => Pure.pure (a :: as)
        else Pure.pure [] : Parser (List α)) (t :: ts) = _
      rw [if_pos hstart]

/-- One round of the loop. It takes a token, so the bound stays large
enough. -/
theorem manyLoop_round {us rest bound : List Token} {l : Lexeme} {a : α}
    (hl : us.head?.map Token.lexeme = some l) (hstart : start l = true)
    (hstep : step (us ++ rest) = .ok (a, rest)) (hbound : (us ++ rest).length ≤ bound.length) :
    ∃ bound', rest.length ≤ bound'.length ∧ manyLoop start step bound (us ++ rest)
      = (manyLoop start step bound' >>= fun as => Pure.pure (a :: as)) rest := by
  cases us with
  | nil => cases hl
  | cons u us =>
    obtain ⟨bound', hbound', heq⟩ := manyLoop_starts step
      (show (u :: us ++ rest).head?.map Token.lexeme = some l from hl) hstart hbound
    refine ⟨bound', ?_, heq.trans (bind_of_ok hstep)⟩
    rw [List.cons_append, List.length_cons, List.length_append] at hbound'
    omega

/-- The loop settles, with all bounds that are large enough. -/
def LoopSettles (start : Lexeme → Bool) (step : Parser α) (us : List Token)
    (r : Except (List String) (List α)) (next : Option Token) : Prop :=
  ∀ rest bound : List Token, rest.head? = next → (us ++ rest).length ≤ bound.length →
    manyLoop start step bound (us ++ rest) = outcome r rest

/-- What the loop takes is completed, with all bounds that are large
enough. -/
def LoopCompletable (start : Lexeme → Bool) (step : Parser α) (us : List Token)
    (next : Option Lexeme → Prop) : Prop :=
  ∃ ms, ∀ vs rest bound : List Token, vs.map Token.lexeme = ms →
    next (rest.head?.map Token.lexeme) → (us ++ (vs ++ rest)).length ≤ bound.length →
    ∃ as, manyLoop start step bound (us ++ (vs ++ rest)) = .ok (as, rest)

/-- A phrase that is completed may be the last one. -/
theorem LoopCompletable.last {us : List Token} {l : Lexeme} (hne : us ≠ [])
    (hl : us.head?.map Token.lexeme = some l) (hstart : start l = true)
    (hnext : ∀ o, G o → F o ∧ ∀ l, o = some l → start l = false) (h : Completable step us F) :
    LoopCompletable start step us G := by
  obtain ⟨ms, hms⟩ := h
  refine ⟨ms, fun vs rest bound hvs hrest hbound => ?_⟩
  obtain ⟨hF, hstop⟩ := hnext _ hrest
  obtain ⟨a, ha⟩ := hms vs rest hvs hF
  have hhead : (us ++ vs).head?.map Token.lexeme = some l := by
    rw [List.head?_append_of_ne_nil us hne, hl]
  rw [← List.append_assoc] at ha hbound ⊢
  obtain ⟨bound', -, hround⟩ := manyLoop_round hhead hstart ha hbound
  rw [hround, bind_of_ok (manyLoop_stops hstop bound')]
  exact ⟨[a], rfl⟩

/-- A phrase that is completed may come after others. -/
theorem LoopCompletable.cons {us us' rest : List Token} {l : Lexeme} {a : α}
    (hl : us.head?.map Token.lexeme = some l) (hstart : start l = true)
    (hstep : Settles step us (.ok a) (us' ++ rest).head?) (hne : us' ≠ [])
    (h : LoopCompletable start step us' G) : LoopCompletable start step (us ++ us') G := by
  obtain ⟨ms, hms⟩ := h
  refine ⟨ms, fun vs rest' bound hvs hrest' hbound => ?_⟩
  rw [List.append_assoc] at hbound ⊢
  obtain ⟨bound', hbound', hround⟩ := manyLoop_round hl hstart
    (hstep _ (head?_append_of_ne_nil hne _ _)) hbound
  obtain ⟨as, has⟩ := hms vs rest' bound' hvs hrest' hbound'
  rw [hround, bind_of_ok has]
  exact ⟨a :: as, rfl⟩

/-- **How the loop ends.** Each round takes a token, so the induction is on
the number of tokens, and the bounds do not matter. -/
theorem manyLoop_viable (hstep : Viable more step step' F) (heager : Eager step)
    (hnext : ∀ o, G o → F o ∧ ∀ l, o = some l → start l = false) {bound ts rest : List Token}
    {r : Except (List String) (List α)} (hbound : ts.length ≤ bound.length)
    (hread : manyLoop start step bound ts = outcome r rest) :
    ∃ us, ts = us ++ rest ∧ LoopSettles start step' us r rest.head?
      ∧ (more → us ≠ [] → LoopCompletable start step' us G) := by
  induction hn : ts.length using Nat.strong_induction_on generalizing ts bound r with
  | h n ih =>
  by_cases hhead : ∃ l, ts.head?.map Token.lexeme = some l ∧ start l = true
  · obtain ⟨l, hl, hstart⟩ := hhead
    obtain ⟨bound₀, hbound₀, heq⟩ := manyLoop_starts step hl hstart hbound
    rw [heq] at hread
    have hfirst {us rest : List Token} (hne : us ≠ []) (h : ts = us ++ rest) :
        us.head?.map Token.lexeme = some l := by
      rwa [h, List.head?_append_of_ne_nil us hne] at hl
    cases hts : step ts with
    | error e =>
      rw [bind_of_error hts] at hread
      obtain ⟨expected, rfl, rfl⟩ := eq_of_error_eq_outcome hread
      obtain ⟨us, rfl, hsettles, hcomplete⟩ := hstep ts (.error expected) rest hts
      refine ⟨us, rfl, fun rest' bound' hrest' hbound' => ?_,
        fun hmore hne => .last hne (hfirst hne rfl) hstart hnext (hcomplete hmore hne)⟩
      obtain ⟨bound₁, -, hstarts⟩ := manyLoop_starts step'
        (by rw [head?_append_congr hrest', hl]) hstart hbound'
      rw [hstarts, bind_of_error (hsettles rest' hrest')]
      rfl
    | ok s =>
      obtain ⟨a, mid⟩ := s
      rw [bind_of_ok hts] at hread
      obtain ⟨r', hloop, rfl⟩ := map_eq_outcome hread
      have hshort := heager ts a mid hts
      obtain ⟨us, rfl, hsettles, hcomplete⟩ := hstep ts (.ok a) mid hts
      have hne : us ≠ [] := by
        rintro rfl
        exact Nat.lt_irrefl _ hshort
      obtain ⟨us', rfl, hsettles', hcomplete'⟩ := ih _ (hn ▸ hshort) (by omega) hloop rfl
      refine ⟨us ++ us', (List.append_assoc ..).symm, fun rest' bound' hrest' hbound' => ?_,
        fun hmore _ => ?_⟩
      · rw [List.append_assoc] at hbound' ⊢
        obtain ⟨bound₁, hbound₁, hround⟩ := manyLoop_round (hfirst hne rfl) hstart
          (hsettles _ (head?_append_congr hrest')) hbound'
        rw [hround]
        exact map_of_eq_outcome (hsettles' rest' bound₁ hrest' hbound₁) _
      -- If the rounds behind this one take no token, it is this round that has
      -- to be completed.
      · by_cases hus' : us' = []
        · subst hus'
          rw [List.append_nil]
          exact .last hne (hfirst hne rfl) hstart hnext (hcomplete hmore hne)
        · exact .cons (hfirst hne rfl) hstart hsettles hus' (hcomplete' hmore hus')
  · have hstop : ∀ l, ts.head?.map Token.lexeme = some l → start l = false := fun l hl =>
      Bool.eq_false_of_not_eq_true fun hstart => hhead ⟨l, hl, hstart⟩
    rw [manyLoop_stops hstop] at hread
    obtain ⟨rfl, rfl⟩ := eq_of_ok_eq_outcome hread
    refine ⟨[], rfl, fun rest' bound' hrest' _ => ?_, fun _ hne => absurd rfl hne⟩
    exact manyLoop_stops (by rwa [List.nil_append, hrest']) bound'

/-- **Phrases one after the other**, as long as one can start. -/
theorem Phrase.many (hstep : Viable more step step' F) (heager : Eager step)
    (hnext : ∀ o, G o → F o ∧ ∀ l, o = some l → start l = false) :
    Phrase more (Parser.many start step) (Parser.many start step') [] G := by
  refine ⟨fun ts r rest hread => ?_, fun _ ts rest hts hrest => ?_⟩
  · obtain ⟨us, hts, hsettles, hcomplete⟩ := manyLoop_viable hstep heager hnext le_rfl hread
    refine ⟨us, hts, fun rest' hrest' => hsettles rest' _ hrest' le_rfl, fun hmore hne => ?_⟩
    obtain ⟨ms, hms⟩ := hcomplete hmore hne
    exact ⟨ms, fun vs rest' hvs hrest' => hms vs rest' _ hvs hrest' le_rfl⟩
  · obtain rfl := List.map_eq_nil_iff.1 hts
    exact ⟨[], manyLoop_stops (hnext _ hrest).2 _, trivial⟩

/-- Phrases with commas between them. -/
theorem Phrase.commaList (h : Phrase more p p' ms F)
    (hnext : ∀ o, G o → F o ∧ notNext (.mark .comma) o) :
    Phrase more (Parser.commaList p) (Parser.commaList p') ms G := by
  have hstep : Viable more (do let _ ← Parser.mark .comma; p)
      (do let _ ← Parser.mark .comma; p') F :=
    (Phrase.mark .comma).viable.andThen ms fun _ => h
  have hmany : Phrase more (Parser.many (· == .mark .comma) do let _ ← Parser.mark .comma; p)
      (Parser.many (· == .mark .comma) do let _ ← Parser.mark .comma; p') [] G := by
    refine .many hstep (.take fun _ => h.viable) fun o ho => ⟨(hnext o ho).1, ?_⟩
    rintro l rfl
    exact beq_eq_false_iff_ne.2 fun e => (hnext _ ho).2 (congrArg some e)
  rw [← List.append_nil ms]
  exact h.bind (fun o ho => (hnext o ho).1) fun first => hmany.map (first :: ·)

/-- Phrases with commas between them and marks around them. -/
theorem Phrase.enclosed (left right : Mark) (hright : right ≠ .comma) (h : Phrase more p p' ms F)
    (hend : F (some (.mark right))) :
    Phrase more (Parser.enclosed left right p) (Parser.enclosed left right p')
      (.mark left :: ms ++ [Lexeme.mark right]) anything := by
  have hitems : Phrase more (Parser.commaList p) (Parser.commaList p') ms
      (· = some (.mark right)) := by
    refine h.commaList fun o ho => ?_
    subst ho
    exact ⟨hend, fun e => hright (Lexeme.mark.inj (Option.some.inj e))⟩
  refine (Phrase.mark left).andThen fun _ => ?_
  exact hitems.bind (fun _ _ => rfl) fun items => (Phrase.mark right).map fun _ => items

/-- Phrases in parentheses. -/
theorem Phrase.parenthesized (h : Phrase more p p' ms F) (hend : F (some (.mark .rightParen))) :
    Phrase more (Parser.parenthesized p) (Parser.parenthesized p')
      [.mark .leftParen, .mark .rightParen] anything := by
  have hitems : Phrase more (Parser.commaList p) (Parser.commaList p') ms
      (· = some (.mark .rightParen)) := by
    refine h.commaList fun o ho => ?_
    subst ho
    exact ⟨hend, by decide⟩
  have hclose (items : List α) : Phrase more (do let _ ← Parser.mark .rightParen; return items)
      (do let _ ← Parser.mark .rightParen; return items) [.mark .rightParen] anything :=
    (Phrase.mark .rightParen).map fun _ => items
  refine (Phrase.mark .leftParen).andThen fun _ => ?_
  exact .isNext true (fun _ _ => rfl) (hclose []) (hitems.viable.bind _ (fun _ _ => rfl) hclose)

end Lists

end EmberLang.Parser
