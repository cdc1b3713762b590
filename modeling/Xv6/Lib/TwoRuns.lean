/-! Two runs of one program from related states. -/

namespace TwoRuns

variable {σ ε α β : Type} {R : σ → σ → Prop}

/-- Two ways for a program to end: with the same answer in related states, or with the same error. -/
def Ends (R : σ → σ → Prop) : Except ε (α × σ) → Except ε (α × σ) → Prop
  | .ok (a, s), .ok (b, t) => a = b ∧ R s t
  | .error e, .error e' => e = e'
  | _, _ => False

/-- The answer of a program does not depend on the difference between related states. -/
structure Blind (R : σ → σ → Prop) (m : StateT σ (Except ε) α) : Prop where
  ends : ∀ s t, R s t → Ends R (m s) (m t)

theorem Blind.pure (a : α) : Blind R (pure a : StateT σ (Except ε) α) :=
  ⟨fun _ _ related => ⟨rfl, related⟩⟩

theorem Blind.throw (e : ε) : Blind R (throw e : StateT σ (Except ε) α) := ⟨fun _ _ _ => rfl⟩

theorem Blind.bind {m : StateT σ (Except ε) α} {f : α → StateT σ (Except ε) β} (first : Blind R m)
    (rest : ∀ a, Blind R (f a)) : Blind R (m >>= f) := by
  refine ⟨fun s t related => ?_⟩
  have ends := first.ends s t related
  show Ends R (m s >>= fun r => f r.1 r.2) (m t >>= fun r => f r.1 r.2)
  revert ends
  cases m s with
  | error e =>
    cases m t with
    | error e' => exact id
    | ok r => exact False.elim
  | ok r =>
    cases m t with
    | error e => exact False.elim
    | ok q =>
      rintro ⟨same, related'⟩
      show Ends R (f r.1 r.2) (f q.1 q.2)
      rw [← same]
      exact (rest r.1).ends r.2 q.2 related'

theorem Blind.modify {f : σ → σ} (keep : ∀ s t, R s t → R (f s) (f t)) :
    Blind R (modify f : StateT σ (Except ε) PUnit) := ⟨fun s t related => ⟨rfl, keep s t related⟩⟩

theorem Blind.forM {f : α → StateT σ (Except ε) PUnit} (each : ∀ a, Blind R (f a)) (l : List α) :
    Blind R (l.forM f) := by
  induction l with
  | nil => exact Blind.pure _
  | cons a l ih => exact (each a).bind fun _ => ih

/-- What a run shows of another run from a related state. -/
theorem Blind.follow {m : StateT σ (Except ε) α} (blind : Blind R m) {s t s' : σ} {a : α} (related : R s t)
    (run : m s = .ok (a, s')) : ∃ t', m t = .ok (a, t') ∧ R s' t' := by
  have ends := blind.ends s t related
  rw [run] at ends
  revert ends
  cases m t with
  | error e => exact False.elim
  | ok r =>
    rintro ⟨rfl, related'⟩
    exact ⟨r.2, rfl, related'⟩

end TwoRuns
