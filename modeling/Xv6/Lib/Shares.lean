import Mathlib.Algebra.BigOperators.Group.Finset.Piecewise
import Mathlib.Algebra.Order.BigOperators.Group.Finset

/-! Sums over the members of a finite family, of which one changes at a time. -/

namespace Shares
open Function

variable {ι β : Type} [Fintype ι] [DecidableEq ι] {c : β → Nat} {g h : ι → β} {i j : ι}

theorem split (c : β → Nat) (g : ι → β) (i : ι) :
    ∑ j, c (g j) = c (g i) + ∑ j ∈ Finset.univ.erase i, c (g j) :=
  (Finset.add_sum_erase _ (fun j => c (g j)) (Finset.mem_univ i)).symm

/-- Only the share of one member changes. -/
theorem change (same : ∀ j, j ≠ i → c (h j) = c (g j)) : ∑ j, c (h j) + c (g i) = ∑ j, c (g j) + c (h i) := by
  have rest : ∑ j ∈ Finset.univ.erase i, c (h j) = ∑ j ∈ Finset.univ.erase i, c (g j) :=
    Finset.sum_congr rfl fun j member => same j (Finset.ne_of_mem_erase member)
  rw [split c g i, split c h i, rest]
  omega

theorem le_sum (c : β → Nat) (g : ι → β) (i : ι) : c (g i) ≤ ∑ j, c (g j) := by
  rw [split c g i]
  exact Nat.le_add_right ..

/-- Two members do not have more than all. -/
theorem two_le_sum (c : β → Nat) (g : ι → β) (apart : i ≠ j) : c (g i) + c (g j) ≤ ∑ k, c (g k) := by
  rw [split c g i]
  exact Nat.add_le_add_left (Finset.single_le_sum (f := fun k => c (g k)) (fun _ _ => Nat.zero_le _)
    (Finset.mem_erase.mpr ⟨apart.symm, Finset.mem_univ j⟩)) _

omit [DecidableEq ι] in
theorem pos_of_sum (pos : 0 < ∑ j, c (g j)) : ∃ j, 0 < c (g j) := by
  by_contra! none
  rw [Finset.sum_eq_zero fun j _ => Nat.le_zero.mp (none j)] at pos
  exact Nat.lt_irrefl 0 pos

/-- Each entry of a list counts for one member. -/
theorem sum_count (l : List ι) : ∑ i, l.count i = l.length := by
  induction l with
  | nil => simp only [List.count_nil, Finset.sum_const_zero, List.length_nil]
  | cons a l ih => simp only [List.count_cons, Finset.sum_add_distrib, ih, beq_iff_eq, Finset.sum_ite_eq,
      Finset.mem_univ, if_true,
      List.length_cons]

end Shares
