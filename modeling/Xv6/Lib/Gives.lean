/-! What programs give that may stop with an error. -/

/-- A run from a state that does not stop with an error ends as stated. -/
def Gives {σ ε α : Type} (m : StateT σ (Except ε) α) (s : σ) (Q : α → σ → Prop) : Prop :=
  ∀ a s', m s = .ok (a, s') → Q a s'

/-- A program on a part of a state. -/
def zoom {σ τ ε α : Type} (view : τ → σ) (put : σ → τ → τ) (m : StateT σ (Except ε) α) :
    StateT τ (Except ε) α := fun t =>
  match m (view t) with
  | .ok (a, s) => .ok (a, put s t)
  | .error e => .error e

namespace Gives

variable {σ ε α β : Type} {m : StateT σ (Except ε) α} {s : σ} {Q Q' : α → σ → Prop}

theorem pure {a : α} (holds : Q a s) : Gives (pure a : StateT σ (Except ε) α) s Q := by
  rintro _ _ ⟨⟩
  exact holds

theorem any : Gives m s fun _ _ => True := fun _ _ _ => trivial

theorem throw (e : ε) : Gives (throw e : StateT σ (Except ε) α) s Q := by
  rintro _ _ ⟨⟩

theorem mono (gives : Gives m s Q) (weaker : ∀ a s', Q a s' → Q' a s') : Gives m s Q' :=
  fun a s' run => weaker a s' (gives a s' run)

theorem bind {f : α → StateT σ (Except ε) β} {R : β → σ → Prop} (first : Gives m s Q)
    (rest : ∀ a s', Q a s' → Gives (f a) s' R) : Gives (m >>= f) s R := by
  intro b s'' run
  have split : (m s >>= fun r => f r.1 r.2) = .ok (b, s'') := run
  cases result : m s with
  | error e =>
    rw [result] at split
    cases split
  | ok r =>
    rw [result] at split
    exact rest r.1 r.2 (first r.1 r.2 result) b s'' split

theorem and (first : Gives m s Q) (second : Gives m s Q') : Gives m s fun a s' => Q a s' ∧ Q' a s' :=
  fun a s' run => ⟨first a s' run, second a s' run⟩

/-- Programs that go on alike from every result do the same. -/
theorem bind_congr {f g : α → StateT σ (Except ε) β} (first : Gives m s Q)
    (same : ∀ a s', Q a s' → f a s' = g a s') :
    (m >>= f) s = (m >>= g) s := by
  show (m s >>= fun r => f r.1 r.2) = (m s >>= fun r => g r.1 r.2)
  cases result : m s with
  | error e => rfl
  | ok r => exact same r.1 r.2 (first r.1 r.2 result)

theorem seq {f : α → StateT σ (Except ε) β} {R : β → σ → Prop}
    (both : Gives m s fun a s' => Gives (f a) s' R) :
    Gives (m >>= f) s R := both.bind fun _ _ => id

theorem get {Q : σ → σ → Prop} (holds : Q s s) : Gives (get : StateT σ (Except ε) σ) s Q := by
  rintro _ _ ⟨⟩
  exact holds

theorem modify {f : σ → σ} {Q : PUnit → σ → Prop} (holds : Q ⟨⟩ (f s)) :
    Gives (modify f : StateT σ (Except ε) PUnit) s Q := by
  rintro _ _ ⟨⟩
  exact holds

theorem ite {c : Prop} [Decidable c] {m' : StateT σ (Except ε) α} (yes : c → Gives m s Q)
    (no : ¬c → Gives m' s Q) :
    Gives (if c then m else m') s Q := by
  split
  next holds => exact yes holds
  next fails => exact no fails

/-- A run whose result is known. -/
theorem of_run {a : α} {s' : σ} (run : m s = .ok (a, s')) (holds : Q a s') : Gives m s Q := by
  intro b s'' other
  rw [run] at other
  cases other
  exact holds

theorem bind_run {f : α → StateT σ (Except ε) β} {R : β → σ → Prop} {a : α} {s' : σ} (run : m s = .ok (a, s'))
    (rest : Gives (f a) s' R) : Gives (m >>= f) s R := by
  refine (of_run (Q := fun b s'' => b = a ∧ s'' = s') run ⟨rfl, rfl⟩).bind ?_
  rintro _ _ ⟨rfl, rfl⟩
  exact rest

theorem part {τ : Type} {view : τ → σ} {put : σ → τ → τ} {t : τ} {Q : α → τ → Prop}
    (gives : Gives m (view t) fun a s' => Q a (put s' t)) : Gives (zoom view put m) t Q := by
  intro a t' run
  unfold zoom at run
  split at run
  next b s' inner =>
    cases run
    exact gives _ _ inner
  next => cases run

/-- A run that has been computed as far as its result. -/
theorem run_of_result {a : α} [DecidableEq α] (result : ((m s).toOption.map Prod.fst) = .some a) :
    ∃ s', m s = .ok (a, s') := by
  cases run : m s with
  | error e =>
    rw [run] at result
    cases result
  | ok r =>
    rw [run] at result
    obtain ⟨a', s'⟩ := r
    obtain rfl : a' = a := Option.some.inj result
    exact ⟨s', rfl⟩

/-- A loop over the numbers below `n`, by what holds before each round. -/
theorem forM_range {f : Nat → StateT σ (Except ε) PUnit} {n : Nat} (P : Nat → σ → Prop) (first : P 0 s)
    (each : ∀ i < n, ∀ s', P i s' → Gives (f i) s' fun _ s'' => P (i + 1) s'') :
    Gives ((List.range n).forM f) s fun _ s' => P n s' := by
  induction n with
  | zero => exact Gives.pure first
  | succ n ih =>
    rw [List.range_succ]
    show Gives (forM (List.range n ++ [n]) f) s _
    rw [List.forM_append]
    refine (ih fun i below => each i (by omega)).bind fun _ s' holds => ?_
    rw [List.forM_cons]
    exact (each n (by omega) s' holds).bind fun _ s'' last => Gives.pure last

end Gives

/-- A run ends as stated, or it stops with an error of some kind. -/
def Ends {σ ε α : Type} (m : StateT σ (Except ε) α) (s : σ) (E : ε → Prop) (Q : α → σ → Prop) : Prop :=
  match m s with
  | .ok (a, s') => Q a s'
  | .error e => E e

namespace Ends

variable {σ ε α β : Type} {m : StateT σ (Except ε) α} {s : σ} {E : ε → Prop} {Q Q' : α → σ → Prop}

theorem pure {a : α} (holds : Q a s) : Ends (pure a : StateT σ (Except ε) α) s E Q := holds

theorem throw {e : ε} (holds : E e) : Ends (throw e : StateT σ (Except ε) α) s E Q := holds

theorem mono (ends : Ends m s E Q) (weaker : ∀ a s', Q a s' → Q' a s') : Ends m s E Q' := by
  unfold Ends at ends ⊢
  split at ends
  next a s' run => exact weaker a s' ends
  next => exact ends

theorem bind {f : α → StateT σ (Except ε) β} {R : β → σ → Prop} (first : Ends m s E Q)
    (rest : ∀ a s', Q a s' → Ends (f a) s' E R) : Ends (m >>= f) s E R := by
  unfold Ends at first
  show match (m s >>= fun r => f r.1 r.2) with | .ok (b, s') => R b s' | .error e => E e
  split at first
  next a s' run =>
    rw [run]
    exact rest a s' first
  next e run =>
    rw [run]
    exact first

theorem bind_run {f : α → StateT σ (Except ε) β} {R : β → σ → Prop} {a : α} {s' : σ} (run : m s = .ok (a, s'))
    (rest : Ends (f a) s' E R) : Ends (m >>= f) s E R := by
  refine bind (Q := fun b s'' => b = a ∧ s'' = s') ?_ ?_
  · unfold Ends
    rw [run]
    exact ⟨rfl, rfl⟩
  · rintro _ _ ⟨rfl, rfl⟩
    exact rest

theorem modify {f : σ → σ} {Q : PUnit → σ → Prop} (holds : Q ⟨⟩ (f s)) :
    Ends (modify f : StateT σ (Except ε) PUnit) s E Q := holds

theorem ite {c : Prop} [Decidable c] {m' : StateT σ (Except ε) α} (yes : c → Ends m s E Q)
    (no : ¬c → Ends m' s E Q) :
    Ends (if c then m else m') s E Q := by
  split
  next holds => exact yes holds
  next fails => exact no fails

theorem get {Q : σ → σ → Prop} (holds : Q s s) : Ends (get : StateT σ (Except ε) σ) s E Q := holds

theorem seq {f : α → StateT σ (Except ε) β} {R : β → σ → Prop}
    (both : Ends m s E fun a s' => Ends (f a) s' E R) :
    Ends (m >>= f) s E R := both.bind fun _ _ => id

/-- The parts of a run. -/
theorem parts {f : α → StateT σ (Except ε) β} {R : β → σ → Prop} (whole : Ends (m >>= f) s E R) :
    Ends m s E fun a s' => Ends (f a) s' E R := by
  unfold Ends at whole ⊢
  change match (m s >>= fun r => f r.1 r.2) with | .ok (b, s') => R b s' | .error e => E e at whole
  cases run : m s with
  | ok r =>
    rw [run] at whole
    exact whole
  | error e =>
    rw [run] at whole
    exact whole

theorem of_run {a : α} {s' : σ} (run : m s = .ok (a, s')) (holds : Q a s') : Ends m s E Q := by
  unfold Ends
  rw [run]
  exact holds

/-- What a run gives if it does not stop with an error. -/
theorem and (ends : Ends m s E Q) (gives : Gives m s Q') : Ends m s E fun a s' => Q a s' ∧ Q' a s' := by
  unfold Ends at ends ⊢
  split at ends
  next a s' run => exact ⟨ends, gives a s' run⟩
  next => exact ends

theorem weaken {E' : ε → Prop} (ends : Ends m s E Q) (weaker : ∀ e, E e → E' e) : Ends m s E' Q := by
  unfold Ends at ends ⊢
  split at ends
  next => exact ends
  next e _ => exact weaker e ends

theorem part {τ : Type} {view : τ → σ} {put : σ → τ → τ} {t : τ} {Q : α → τ → Prop}
    (ends : Ends m (view t) E fun a s' => Q a (put s' t)) : Ends (zoom view put m) t E Q := by
  unfold Ends zoom at *
  cases run : m (view t) with
  | ok r =>
    rw [run] at ends
    exact ends
  | error e =>
    rw [run] at ends
    exact ends

/-- A loop over the numbers below `n`, by what holds before each round. -/
theorem forM_range {f : Nat → StateT σ (Except ε) PUnit} {n : Nat} (P : Nat → σ → Prop) (first : P 0 s)
    (each : ∀ i < n, ∀ s', P i s' → Ends (f i) s' E fun _ s'' => P (i + 1) s'') :
    Ends ((List.range n).forM f) s E fun _ s' => P n s' := by
  induction n with
  | zero => exact Ends.pure first
  | succ n ih =>
    rw [List.range_succ]
    show Ends (forM (List.range n ++ [n]) f) s E _
    rw [List.forM_append]
    refine (ih fun i below => each i (by omega)).bind fun _ s' holds => ?_
    rw [List.forM_cons]
    exact (each n (by omega) s' holds).bind fun _ s'' last => Ends.pure last

/-- Runs that do not stop with an error. -/
theorem gives (ends : Ends m s E Q) : Gives m s Q := by
  intro a s' run
  unfold Ends at ends
  rw [run] at ends
  exact ends

/-- A loop over a list, by what holds before each round. -/
theorem forM_list {l : List α} {f : α → StateT σ (Except ε) PUnit} (P : List α → σ → Prop) (first : P l s)
    (each : ∀ a l s, P (a :: l) s → Ends (f a) s E fun _ s' => P l s') :
    Ends (l.forM f) s E fun _ s' => P [] s' := by
  induction l generalizing s with
  | nil => exact Ends.pure first
  | cons a l ih =>
    show Ends (forM (a :: l) f) s E _
    rw [List.forM_cons]
    exact (each a l s first).bind fun _ s' => ih

end Ends
