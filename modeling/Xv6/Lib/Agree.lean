import Xv6.Lib.Threads

/-! Two models of one function do the same while nobody else runs. -/

namespace Threads

variable {T T' S S' C C' Act Act' α β : Type} {Resp : Act → Type} {Resp' : Act' → Type}

/-- What a program does while no other thread runs, with one choice for all of its steps. -/
def Prog.alone (M : Machine T S C Act Resp) (t : T) (c : C) : Prog Act Resp α → S → Outcome α S
  | .ret value, s => .ok value s
  | .act a next, s => match M t c a s with
    | .ok answer s' => (next answer).alone M t c s'
    | .blocked => .blocked
    | .panic message => .panic message

/-- The same answer with states that correspond, or both wait, or both stop with the same message. -/
inductive Outcome.Alike (R : S → S' → Prop) : Outcome α S → Outcome α S' → Prop
  | ok {answer : α} {s : S} {s' : S'} : R s s' → Alike R (.ok answer s) (.ok answer s')
  | blocked : Alike R .blocked .blocked
  | panic (message : String) : Alike R (.panic message) (.panic message)

/-- From states that correspond, two functions have outcomes that are alike. -/
def Agree (R : S → S' → Prop) (f : S → Outcome α S) (g : S' → Outcome α S') : Prop :=
  ∀ s s', R s s' → (f s).Alike R (g s')

section Agree

variable {M : Machine T S C Act Resp} {t : T} {c : C} {R : S → S' → Prop}

theorem Prog.alone_bind (p : Prog Act Resp α) (f : α → Prog Act Resp β) (s : S) :
    (p >>= f).alone M t c s = match p.alone M t c s with
      | .ok value s' => (f value).alone M t c s'
      | .blocked => .blocked
      | .panic message => .panic message := by
  induction p generalizing s with
  | ret value => rfl
  | act a next ih =>
    have after : (Prog.act a next >>= f) = .act a fun answer => next answer >>= f := rfl
    rw [after, Prog.alone, Prog.alone]
    cases M t c a s with
    | ok answer s' => exact ih answer s'
    | blocked => rfl
    | panic message => rfl

theorem Prog.alone_step (a : Act) (s : S) :
    (Prog.step a : Prog Act Resp (Resp a)).alone M t c s = M t c a s := by
  unfold Prog.step
  rw [Prog.alone]
  cases M t c a s <;> rfl

/-- The rest of a program whose first step has this answer. -/
theorem Prog.alone_seq {a : Act} {f : Resp a → Prog Act Resp β} {s s' : S} {answer : Resp a}
    (step : M t c a s = .ok answer s') :
    (Prog.step a >>= f).alone M t c s = (f answer).alone M t c s' := by
  rw [Prog.alone_bind, Prog.alone_step, step]

variable {M' : Machine T' S' C' Act' Resp'} {t' : T'} {c' : C'} {p : Prog Act Resp α} {q : Prog Act' Resp' α}

theorem Agree.bind {f : α → Prog Act Resp β} {g : α → Prog Act' Resp' β}
    (first : Agree R (p.alone M t c) (q.alone M' t' c'))
    (rest : ∀ value, Agree R ((f value).alone M t c) ((g value).alone M' t' c')) :
    Agree R ((p >>= f).alone M t c) ((q >>= g).alone M' t' c') := by
  intro s s' same
  rw [Prog.alone_bind, Prog.alone_bind]
  have alike := first s s' same
  generalize p.alone M t c s = o, q.alone M' t' c' s' = o' at alike
  cases alike with
  | ok same => exact rest _ _ _ same
  | blocked => exact .blocked
  | panic message => exact .panic message

theorem Agree.pure (value : α) :
    Agree R ((Pure.pure value : Prog Act Resp α).alone M t c)
    ((Pure.pure value : Prog Act' Resp' α).alone M' t' c') :=
  fun _ _ same => .ok same

end Agree

/-- While no other thread runs, the program can come to its end with this value and state, with some choice
for each of its steps. -/
def Prog.Finishes (M : Machine T S C Act Resp) (t : T) : Prog Act Resp α → S → α → S → Prop
  | .ret value, s, value', s' => value' = value ∧ s' = s
  | .act a next, s, value, s' => ∃ c answer middle,
    M t c a s = .ok answer middle ∧ (next answer).Finishes M t middle value s'

namespace Prog.Finishes

variable {M : Machine T S C Act Resp} {t : T} {p : Prog Act Resp α} {f : α → Prog Act Resp β} {s s' s'' : S}
  {value : α} {result : β}

theorem pure : (Pure.pure value : Prog Act Resp α).Finishes M t s value s := ⟨rfl, rfl⟩

theorem bind (first : p.Finishes M t s value s') (rest : (f value).Finishes M t s' result s'') :
    (p >>= f).Finishes M t s result s'' := by
  induction p generalizing s with
  | ret value =>
    obtain ⟨rfl, rfl⟩ := first
    exact rest
  | act a next ih =>
    obtain ⟨c, answer, middle, step, first⟩ := first
    exact ⟨c, answer, middle, step, ih answer first⟩

theorem step {a : Act} (c : C) {answer : Resp a} (here : M t c a s = .ok answer s') :
    (Prog.step a : Prog Act Resp (Resp a)).Finishes M t s answer s' := ⟨c, answer, s', here, rfl, rfl⟩

/-- A step, and what comes after it. -/
theorem seq {a : Act} {f : Resp a → Prog Act Resp β} (c : C) {answer : Resp a}
    (here : M t c a s = .ok answer s')
    (rest : (f answer).Finishes M t s' result s'') : (Prog.step a >>= f).Finishes M t s result s'' :=
  (step c here).bind rest

end Prog.Finishes

/-- While no other thread runs, the program can come to an end of this kind. -/
def Prog.Can (M : Machine T S C Act Resp) (t : T) (p : Prog Act Resp α) (s : S) (post : α → S → Prop) : Prop :=
  ∃ value s', p.Finishes M t s value s' ∧ post value s'

namespace Prog.Can

variable {M : Machine T S C Act Resp} {t : T} {p : Prog Act Resp α} {f : α → Prog Act Resp β} {s s' : S}
  {value : α} {post post' : α → S → Prop} {post₂ : β → S → Prop}

theorem pure (here : post value s) : (Pure.pure value : Prog Act Resp α).Can M t s post :=
  ⟨value, s, .pure, here⟩

theorem mono (can : p.Can M t s post) (weaker : ∀ value s', post value s' → post' value s') : p.Can M t s post' := by
  obtain ⟨value, s', run, here⟩ := can
  exact ⟨value, s', run, weaker value s' here⟩

theorem bind (first : p.Can M t s fun value s' => (f value).Can M t s' post₂) : (p >>= f).Can M t s post₂ := by
  obtain ⟨value, middle, run, result, s', rest, here⟩ := first
  exact ⟨result, s', run.bind rest, here⟩

theorem step {a : Act} {post : Resp a → S → Prop} (c : C) {answer : Resp a} (here : M t c a s = .ok answer s')
    (rest : post answer s') : (Prog.step a : Prog Act Resp (Resp a)).Can M t s post :=
  ⟨answer, s', .step c here, rest⟩

/-- The loop rule. -/
theorem forEach {body : β → Prog Act Resp Unit} {J : List β → S → Prop} {xs : List β}
    (iter : ∀ x rest s, J (x :: rest) s → (body x).Can M t s fun _ => J rest) (start : J xs s) :
    (Prog.forEach body xs).Can M t s fun _ => J [] := by
  induction xs generalizing s with
  | nil => exact pure start
  | cons x rest ih => exact bind ((iter x rest s start).mono fun _ _ next => ih next)

end Prog.Can

end Threads
