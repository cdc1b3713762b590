import Mathlib.Logic.Function.Basic
import Mathlib.Logic.Relation

namespace Threads

/-- The outcome of one atomic step: an answer and the next state, a wait, or a
message that stops the machine. -/
inductive Outcome (ρ σ : Type) where
  | ok (answer : ρ) (next : σ)
  | blocked
  | panic (message : String)

/-- The code of a thread as a tree of atomic steps. A step is answered by the
machine, and the answer selects the rest of the code. -/
inductive Prog (Act : Type) (Resp : Act → Type) (α : Type) where
  | ret (value : α)
  | act (a : Act) (next : Resp a → Prog Act Resp α)

section Programs

variable {Act : Type} {Resp : Act → Type} {α β : Type}

def Prog.bind : Prog Act Resp α → (α → Prog Act Resp β) → Prog Act Resp β
  | .ret value, f => f value
  | .act a next, f => .act a fun answer => (next answer).bind f

instance : Monad (Prog Act Resp) where
  pure := .ret
  bind := .bind

/-- A single atomic step, returning its answer. -/
def Prog.step (a : Act) : Prog Act Resp (Resp a) := .act a .ret

/-- Run the body for the members of a list, in order. -/
def Prog.forEach (body : β → Prog Act Resp Unit) : List β → Prog Act Resp Unit
  | [] => pure ()
  | x :: rest => do body x; Prog.forEach body rest

/-- Repeat the body until it has an answer, for `n` rounds at most; after these the thread goes nowhere. -/
def Prog.retry (stuck : Prog Act Resp α) (body : Prog Act Resp (Option α)) : Nat → Prog Act Resp α
  | 0 => stuck
  | n + 1 => do
    match ← body with
    | some value => return value
    | none => Prog.retry stuck body n

end Programs

variable {T S C V Act : Type} {Resp : Act → Type} {α β : Type}

/-- What an atomic step of each thread does to the shared state. The choice
stands for whatever the step leaves to its environment. -/
abbrev Machine (T S C Act : Type) (Resp : Act → Type) :=
  T → C → (a : Act) → S → Outcome (Resp a) S

/-- A proof outline: a global invariant, the part of the state a thread may rely on
between its own steps, what its steps guarantee to the others, which steps are
considered, what is owed before a step, and which stops are not excluded. -/
structure Outline (T S V Act : Type) where
  inv : S → Prop
  view : T → S → V
  guar : T → S → S → Prop
  allowed : T → Act → S → Prop
  owes : T → Act → S → Prop
  mayPanic : T → Act → S → String → Prop

/-- No step of a thread changes what another thread relies on. -/
def Outline.Isolated (P : Outline T S V Act) : Prop :=
  ∀ t before after, P.guar t before after → ∀ other, other ≠ t → P.view other after = P.view other before

section Weakest

variable (M : Machine T S C Act Resp) (P : Outline T S V Act)

/-- What the outcome of one step has to satisfy. -/
def Outline.After (t : T) (a : Act) (before : S) (Q : ρ → V → Prop) : Outcome ρ S → Prop
  | .ok answer after => P.inv after ∧ P.guar t before after ∧ Q answer (P.view t after)
  | .blocked => True
  | .panic message => P.mayPanic t a before message

/-- Weakest precondition of a thread's code over its view. Between two steps only
the view is known, and every state that satisfies the invariant and shows this view
is possible. -/
def wp (t : T) : Prog Act Resp α → (α → V → Prop) → V → Prop
  | .ret value, Q, v => Q value v
  | .act a next, Q, v => ∀ s c, P.inv s → P.view t s = v → P.owes t a s ∧
      (P.allowed t a s → P.After t a s (fun answer => wp t (next answer) Q) (M t c a s))

variable {M P} {t : T} {v : V}

@[simp] theorem wp_pure {Q : α → V → Prop} {value : α} :
    wp M P t (pure value) Q v ↔ Q value v := Iff.rfl

theorem Outline.After.mono {ρ : Type} {a : Act} {before : S} {Q Q' : ρ → V → Prop} {o : Outcome ρ S}
    (imp : ∀ answer v, Q answer v → Q' answer v) (h : P.After t a before Q o) :
    P.After t a before Q' o := by
  cases o with
  | ok answer after => exact ⟨h.1, h.2.1, imp _ _ h.2.2⟩
  | blocked => trivial
  | panic message => exact h

theorem wp_mono {p : Prog Act Resp α} {Q Q' : α → V → Prop}
    (imp : ∀ value v, Q value v → Q' value v) (h : wp M P t p Q v) : wp M P t p Q' v := by
  induction p generalizing v with
  | ret value => exact imp _ _ h
  | act a next ih =>
    intro s c hinv hview
    obtain ⟨owed, step⟩ := h s c hinv hview
    exact ⟨owed, fun ok => (step ok).mono fun answer v rest => ih answer rest⟩

theorem wp_bind {p : Prog Act Resp α} {f : α → Prog Act Resp β} {Q : β → V → Prop}
    (h : wp M P t p (fun value => wp M P t (f value) Q) v) : wp M P t (p >>= f) Q v := by
  induction p generalizing v with
  | ret value => exact h
  | act a next ih =>
    intro s c hinv hview
    obtain ⟨owed, step⟩ := h s c hinv hview
    exact ⟨owed, fun ok => (step ok).mono fun answer v rest => ih answer rest⟩

theorem wp_step {a : Act} {Q : Resp a → V → Prop}
    (h : ∀ s c, P.inv s → P.view t s = v → P.owes t a s ∧
      (P.allowed t a s → P.After t a s Q (M t c a s))) : wp M P t (.step a) Q v := h

/-- Sequencing with an intermediate assertion. -/
theorem wp_seq {p : Prog Act Resp α} {f : α → Prog Act Resp β} {R : α → V → Prop} {Q : β → V → Prop}
    (first : wp M P t p R v) (rest : ∀ value v, R value v → wp M P t (f value) Q v) :
    wp M P t (p >>= f) Q v :=
  wp_bind (wp_mono rest first)

/-- The loop rule: the invariant is indexed by the members still to come. -/
theorem wp_forEach {body : β → Prog Act Resp Unit} {J : List β → V → Prop} {xs : List β}
    (iter : ∀ x rest v, J (x :: rest) v → wp M P t (body x) (fun _ => J rest) v)
    (start : J xs v) : wp M P t (.forEach body xs) (fun _ => J []) v := by
  induction xs generalizing v with
  | nil => exact start
  | cons x rest ih => exact wp_seq (iter x rest v start) fun _ _ next => ih next

/-- The loop rule for a counting loop. -/
theorem wp_forRange {body : Nat → Prog Act Resp Unit} {J : Nat → V → Prop} {n : Nat}
    (iter : ∀ k v, k < n → J k v → wp M P t (body k) (fun _ => J (k + 1)) v)
    (start : J 0 v) : wp M P t (.forEach body (List.range n)) (fun _ => J n) v := by
  suffices ∀ m k v, k + m = n → J k v →
      wp M P t (.forEach body (List.range' k m)) (fun _ => J n) v by
    rw [List.range_eq_range']
    exact this n 0 v (by omega) start
  intro m
  induction m with
  | zero =>
    intro k v total now
    have done : k = n := by omega
    subst done
    exact now
  | succ m ih =>
    intro k v total now
    rw [List.range'_succ]
    exact wp_seq (iter k v (by omega) now) fun _ v next => ih (k + 1) v (by omega) next

/-- The loop rule for a loop that runs until its body has an answer. -/
theorem wp_retry {stuck : Prog Act Resp α} {body : Prog Act Resp (Option α)} {J : V → Prop} {Q : α → V → Prop}
    (round : ∀ v, J v → wp M P t body (fun r v => match r with
      | some value => Q value v
      | none => J v) v)
    (stop : ∀ v, J v → wp M P t stuck Q v) (n : Nat) (start : J v) : wp M P t (.retry stuck body n) Q v := by
  induction n generalizing v with
  | zero => exact stop v start
  | succ n ih =>
    refine wp_seq (round v start) fun r v' next => ?_
    cases r with
    | some value => exact next
    | none => exact ih next

end Weakest

section Alone

variable (M : Machine T S C Act Resp) (allowed : T → Act → S → Prop) (t : T)

/-- One step of a thread that runs alone. -/
inductive Alone : Prog Act Resp α × S → Prog Act Resp α × S → Prop
  | step {a next s c answer s'} : allowed t a s → M t c a s = .ok answer s' →
      Alone (.act a next, s) (next answer, s')

variable {M t} in
/-- Everything a thread running alone gets to satisfies its outline. -/
theorem alone_sound {P : Outline T S V Act} {p p' : Prog Act Resp α} {s s' : S} {Q : α → V → Prop}
    (hinv : P.inv s) (h : wp M P t p Q (P.view t s))
    (run : Relation.ReflTransGen (Alone M P.allowed t) (p, s) (p', s')) :
    P.inv s' ∧ wp M P t p' Q (P.view t s') := by
  generalize hx : (p, s) = x at run
  generalize hy : (p', s') = y at run
  induction run generalizing p' s' with
  | refl => cases hx; cases hy; exact ⟨hinv, h⟩
  | tail _ last ih =>
    cases last with
    | @step _ _ _ c _ _ ok eq =>
      cases hy
      obtain ⟨inv, rest⟩ := ih rfl
      have after := (rest _ c inv rfl).2 ok
      rw [eq] at after
      exact ⟨after.1, after.2.2⟩

variable [∀ a s, Decidable (allowed t a s)]

/-- Run a thread alone for a number of steps, the choices given in advance. -/
def exec (choice : Nat → C) : Nat → Prog Act Resp α × S → Option (Prog Act Resp α × S)
  | 0, x => some x
  | n + 1, (.act a next, s) =>
    if allowed t a s then match M t (choice n) a s with
      | .ok answer s' => exec choice n (next answer, s')
      | _ => none
    else none
  | _ + 1, (.ret _, _) => none

variable {M allowed t}

theorem exec_alone {choice : Nat → C} {n : Nat} {x y : Prog Act Resp α × S}
    (run : exec M allowed t choice n x = some y) : Relation.ReflTransGen (Alone M allowed t) x y := by
  induction n generalizing x with
  | zero => cases run; exact .refl
  | succ n ih =>
    obtain ⟨_ | ⟨a, next⟩, s⟩ := x
    · cases run
    · simp only [exec] at run
      split at run
      next ok =>
        split at run
        next answer s' eq => exact .head (.step ok eq) (ih run)
        next => cases run
      next => cases run

end Alone

section Interleaved

/-- A machine state together with the code each thread has still to run. -/
structure Config (T S Act : Type) (Resp : Act → Type) where
  shared : S
  code : T → Prog Act Resp Unit

/-- The calls threads may make, their code, and when they may be made. -/
structure Calls (T S K Act : Type) (Resp : Act → Type) where
  code : K → Prog Act Resp Unit
  legal : T → S → K → Prop

variable {K : Type} [DecidableEq T] (M : Machine T S C Act Resp) (allowed : T → Act → S → Prop)
  (calls : Calls T S K Act Resp)

/-- A thread with nothing left to run starts a call, or a thread takes the next atomic
step of its code. -/
inductive Step : Config T S Act Resp → Config T S Act Resp → Prop
  | call {x t k} : x.code t = pure () → calls.legal t x.shared k →
      Step x { x with code := Function.update x.code t (calls.code k) }
  | act {x t a next c answer s'} : x.code t = .act a next → allowed t a x.shared →
      M t c a x.shared = .ok answer s' →
      Step x ⟨s', Function.update x.code t (next answer)⟩

/-- Every interleaving of the threads' steps. -/
abbrev Reach : Config T S Act Resp → Config T S Act Resp → Prop :=
  Relation.ReflTransGen (Step M allowed calls)

/-- A thread is about to stop the machine with this message. -/
def Panics (x : Config T S Act Resp) (message : String) : Prop :=
  ∃ t a next c, x.code t = .act a next ∧ allowed t a x.shared ∧ M t c a x.shared = .panic message

variable {M allowed calls}

/-- Runs with fewer steps allowed are runs. -/
theorem Reach.weaken {narrow : T → Act → S → Prop} {x y : Config T S Act Resp}
    (wider : ∀ t a s, narrow t a s → allowed t a s) (run : Reach M narrow calls x y) :
    Reach M allowed calls x y := by
  induction run with
  | refl => exact .refl
  | tail _ move ih =>
    refine ih.tail ?_
    cases move with
    | call atRest legal => exact .call atRest legal
    | act atAct ok eq => exact .act atAct (wider _ _ _ ok) eq

/-- What holds in every state that is reached may be assumed before every step. -/
theorem Reach.strengthen {J : S → Prop} {x y : Config T S Act Resp}
    (always : ∀ z, Reach M allowed calls x z → J z.shared) (run : Reach M allowed calls x y) :
    Reach M (fun _ _ => J) calls x y := by
  induction run with
  | refl => exact .refl
  | tail sofar move ih =>
    refine ih.tail ?_
    cases move with
    | call atRest legal => exact .call atRest legal
    | act atAct _ eq => exact .act atAct (always _ sofar) eq

variable {P : Outline T S V Act} {idle : T → V → Prop}

/-- The outline holds of a configuration. -/
structure Outline.Holds (M : Machine T S C Act Resp) (P : Outline T S V Act) (idle : T → V → Prop)
    (x : Config T S Act Resp) : Prop where
  inv : P.inv x.shared
  code : ∀ t, wp M P t (x.code t) (fun _ => idle t) (P.view t x.shared)

theorem Outline.Holds.step (isolated : P.Isolated)
    (callsOk : ∀ t s k, P.inv s → idle t (P.view t s) → calls.legal t s k →
      wp M P t (calls.code k) (fun _ => idle t) (P.view t s))
    {x y : Config T S Act Resp} (h : P.Holds M idle x) (move : Step M P.allowed calls x y) :
    P.Holds M idle y := by
  cases move with
  | @call t k atRest legal =>
    refine ⟨h.inv, fun other => ?_⟩
    by_cases same : other = t
    · subst same
      have rest := h.code other
      rw [atRest] at rest
      simpa using callsOk _ _ _ h.inv rest legal
    · simpa [same] using h.code other
  | @act t a next c answer s' atAct ok eq =>
    have mine := h.code t
    rw [atAct] at mine
    have after := (mine _ c h.inv rfl).2 ok
    rw [eq] at after
    refine ⟨after.1, fun other => ?_⟩
    by_cases same : other = t
    · subst same
      simpa using after.2.2
    · have unchanged := isolated _ _ _ after.2.1 other same
      simpa [same, unchanged] using h.code other

/-- Soundness: an outline that holds at the start holds in every interleaving. -/
theorem Outline.Holds.reach (isolated : P.Isolated)
    (callsOk : ∀ t s k, P.inv s → idle t (P.view t s) → calls.legal t s k →
      wp M P t (calls.code k) (fun _ => idle t) (P.view t s))
    {x y : Config T S Act Resp} (h : P.Holds M idle x) (run : Reach M P.allowed calls x y) :
    P.Holds M idle y := by
  induction run with
  | refl => exact h
  | tail _ move ih => exact ih.step isolated callsOk move

omit [DecidableEq T] in
theorem Outline.Holds.panics {x : Config T S Act Resp} {message : String}
    (h : P.Holds M idle x) (stop : Panics M P.allowed x message) :
    ∃ t a next, x.code t = .act a next ∧ P.mayPanic t a x.shared message := by
  obtain ⟨t, a, next, c, atAct, ok, eq⟩ := stop
  have code := h.code t
  rw [atAct] at code
  have after := (code _ c h.inv rfl).2 ok
  rw [eq] at after
  exact ⟨t, a, next, atAct, after⟩

omit [DecidableEq T] in
/-- What is owed before a step holds whenever a thread is about to take it. -/
theorem Outline.Holds.owes [Nonempty C] {x : Config T S Act Resp} {t : T} {a : Act}
    {next : Resp a → Prog Act Resp Unit} (h : P.Holds M idle x) (atAct : x.code t = .act a next) :
    P.owes t a x.shared := by
  have code := h.code t
  rw [atAct] at code
  exact (code _ (Classical.arbitrary C) h.inv rfl).1

/-- One move of a scripted run. -/
inductive Move (T C K : Type) where
  | call (t : T) (k : K)
  | act (t : T) (c : C)

variable (M allowed calls) [∀ t a s, Decidable (allowed t a s)] [∀ t s k, Decidable (calls.legal t s k)]

/-- Carry out a script, if every move is possible. -/
def drive : List (Move T C K) → Config T S Act Resp → Option (Config T S Act Resp)
  | [], x => some x
  | .call t k :: rest, x => match x.code t with
    | .ret () =>
      if calls.legal t x.shared k then
        drive rest { x with code := Function.update x.code t (calls.code k) }
      else none
    | _ => none
  | .act t c :: rest, x => match x.code t with
    | .act a next =>
      if allowed t a x.shared then match M t c a x.shared with
        | .ok answer s' => drive rest ⟨s', Function.update x.code t (next answer)⟩
        | _ => none
      else none
    | _ => none

omit [∀ t s k, Decidable (calls.legal t s k)] [DecidableEq T] in
/-- The message with which a thread's next step stops the machine. -/
def stops (t : T) (c : C) (x : Config T S Act Resp) : Option String :=
  match x.code t with
  | .ret () => none
  | .act a _ =>
    if allowed t a x.shared then match M t c a x.shared with
      | .panic message => some message
      | _ => none
    else none

variable {M allowed calls}

theorem drive_reach {script : List (Move T C K)} {x y : Config T S Act Resp}
    (run : drive M allowed calls script x = some y) : Reach M allowed calls x y := by
  induction script generalizing x with
  | nil => cases run; exact .refl
  | cons move rest ih =>
    cases move with
    | call t k =>
      simp only [drive] at run
      split at run
      next atRest =>
        split at run
        next legal => exact .head (.call atRest legal) (ih run)
        next => cases run
      next => cases run
    | act t c =>
      simp only [drive] at run
      split at run
      next a next atAct =>
        split at run
        next ok =>
          split at run
          next answer s' eq => exact .head (.act atAct ok eq) (ih run)
          next => cases run
        next => cases run
      next => cases run

omit [∀ t s k, Decidable (calls.legal t s k)] [DecidableEq T] in
theorem stops_panics {t : T} {c : C} {x : Config T S Act Resp} {message : String}
    (stop : stops M allowed t c x = some message) : Panics M allowed x message := by
  unfold stops at stop
  split at stop
  next => cases stop
  next a next atAct =>
    split at stop
    next ok =>
      split at stop
      next eq => cases stop; exact ⟨t, a, next, c, atAct, ok, eq⟩
      next => cases stop
    next => cases stop

/-- A script whose last step stops the machine. -/
theorem drive_panics (script : List (Move T C K)) {x : Config T S Act Resp} {t : T} {c : C}
    {message : String} (run : (drive M allowed calls script x).bind (stops M allowed t c) = some message) :
    ∃ y, Reach M allowed calls x y ∧ Panics M allowed y message := by
  obtain ⟨y, path, stop⟩ := Option.bind_eq_some_iff.mp run
  exact ⟨y, drive_reach path, stops_panics stop⟩

end Interleaved

end Threads
