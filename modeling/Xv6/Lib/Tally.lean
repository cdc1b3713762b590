import Mathlib.Logic.Function.Basic
import Mathlib.Tactic.ByContra

/-! How often a table has a value. -/

/-- How often a value is among the first `n` entries of a table. -/
def tally (f : Nat → Option Nat) (a : Nat) : Nat → Nat
  | 0 => 0
  | n + 1 => tally f a n + if f n = some a then 1 else 0

namespace Tally
open Function

variable {f g : Nat → Option Nat} {a i m n : Nat} {v : Option Nat}

theorem congr (same : ∀ j < n, f j = g j) : tally f a n = tally g a n := by
  induction n with
  | zero => rfl
  | succ n ih =>
    rw [tally, tally, ih fun j below => same j (by omega), same n (by omega)]

theorem zero (none : ∀ j < n, f j ≠ some a) : tally f a n = 0 := by
  induction n with
  | zero => rfl
  | succ n ih => rw [tally, ih fun j below => none j (by omega), if_neg (none n (by omega))]

theorem pos_iff : 0 < tally f a n ↔ ∃ j < n, f j = some a := by
  constructor
  · intro pos
    by_contra! none
    rw [zero none] at pos
    exact Nat.lt_irrefl 0 pos
  · rintro ⟨j, below, here⟩
    induction n with
    | zero => exact absurd below (Nat.not_lt_zero j)
    | succ n ih =>
      rw [tally]
      by_cases last : j = n
      · rw [if_pos (last ▸ here)]
        omega
      · have earlier := ih (by omega)
        omega

/-- An entry is overwritten. -/
theorem update_add (inside : i < n) : tally (update f i v) a n + (if f i = some a then 1 else 0) =
    tally f a n + if v = some a then 1 else 0 := by
  induction n with
  | zero => exact absurd inside (Nat.not_lt_zero i)
  | succ n ih =>
    rw [tally, tally]
    by_cases last : i = n
    · subst last
      have before : tally (update f i v) a i = tally f a i := congr fun j below => update_of_ne (by omega) _ _
      rw [before, update_self]
      omega
    · have earlier := ih (by omega)
      rw [update_of_ne (by omega : n ≠ i)]
      omega

/-- The entries after the first `m`. -/
theorem add (f : Nat → Option Nat) (a m n : Nat) :
    tally f a (m + n) = tally f a m + tally (fun j => f (m + j)) a n := by
  induction n with
  | zero => rfl
  | succ n ih =>
    show tally f a (m + n) + _ = _ + (tally _ a n + _)
    rw [ih, Nat.add_assoc]
    rfl

theorem le (subset : ∀ j < n, f j = some a → g j = some a) : tally f a n ≤ tally g a n := by
  induction n with
  | zero => exact Nat.le_refl 0
  | succ n ih =>
    have earlier := ih fun j below => subset j (by omega)
    rw [tally, tally]
    by_cases here : f n = some a
    · rw [if_pos here, if_pos (subset n (by omega) here)]
      omega
    · rw [if_neg here]
      omega

/-- A value that is there more often is somewhere new. -/
theorem new_of_lt (more : tally f a n < tally g a n) : ∃ j < n, g j = some a ∧ f j ≠ some a := by
  by_contra! none
  exact absurd (le none) (Nat.not_le_of_lt more)

/-- No value is there twice. -/
theorem unique (few : tally f a n ≤ 1) {j : Nat} (below : i < n) (below' : j < n) (here : f i = some a)
    (there : f j = some a) :
    i = j := by
  by_contra apart
  have less := @update_add f a i n none below
  have still : 0 < tally (update f i none) a n :=
    pos_iff.mpr ⟨j, below', by rw [update_of_ne (Ne.symm apart), there]⟩
  rw [if_pos here, if_neg (Option.some_ne_none a).symm] at less
  omega

/-- Two entries. -/
theorem two {b c j : Nat} (apart : i ≠ j) (below : i < n) (below' : j < n) (here : f i = some b)
    (there : f j = some c) :
    (if b = a then 1 else 0) + (if c = a then 1 else 0) ≤ tally f a n := by
  have first := @update_add f a i n none below
  have second := @update_add (update f i none) a j n none below'
  rw [here, if_neg (Option.some_ne_none a).symm] at first
  rw [update_of_ne (Ne.symm apart), there, if_neg (Option.some_ne_none a).symm] at second
  simp only [Option.some.injEq] at first second
  omega

end Tally
