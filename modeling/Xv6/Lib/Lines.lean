import Mathlib.Data.List.Basic

namespace Lines

variable {α : Type} [DecidableEq α] {sep : α} {l r : List α}

/-- The parts of a list that a separator ends, and what stands after the last separator. -/
def split (sep : α) : List α → List (List α) × List α
  | [] => ([], [])
  | c :: l =>
    let (ended, tail) := split sep l
    if c = sep then ([] :: ended, tail)
    else match ended with
      | [] => ([], c :: tail)
      | line :: ended => ((c :: line) :: ended, tail)

theorem split_free (free : sep ∉ l) : split sep l = ([], l) := by
  induction l with
  | nil => rfl
  | cons c l ih =>
    obtain ⟨differs, later⟩ := List.ne_and_not_mem_of_not_mem_cons free
    rw [split, ih later]
    exact if_neg differs.symm

theorem split_line (free : sep ∉ l) (r : List α) :
    split sep (l ++ sep :: r) = (l :: (split sep r).1, (split sep r).2) := by
  induction l with
  | nil =>
    rw [List.nil_append, split]
    exact if_pos rfl
  | cons c l ih =>
    obtain ⟨differs, later⟩ := List.ne_and_not_mem_of_not_mem_cons free
    rw [List.cons_append, split, ih later]
    exact if_neg differs.symm

/-- A list without the separator, or a line before another list. -/
theorem cases_line (sep : α) (l : List α) : sep ∉ l ∨ ∃ line r, sep ∉ line ∧ l = line ++ sep :: r := by
  by_cases inside : sep ∈ l
  · obtain ⟨line, r, rfl, free⟩ := List.eq_append_cons_of_mem inside
    exact .inr ⟨line, r, free, rfl⟩
  · exact .inl inside

/-- A property of lists that holds of those without the separator, and of a line before a list for which it
holds. -/
theorem rec_line (sep : α) {P : List α → Prop} (none : ∀ l, sep ∉ l → P l)
    (line : ∀ l r, sep ∉ l → P r → P (l ++ sep :: r)) (l : List α) : P l := by
  induction size : l.length using Nat.strongRecOn generalizing l with
  | _ n ih =>
    rcases cases_line sep l with free | ⟨first, r, free, rfl⟩
    · exact none l free
    · refine line first r free (ih r.length ?_ r rfl)
      rw [← size, List.length_append, List.length_cons]
      omega

theorem tail_free (sep : α) (l : List α) : sep ∉ (split sep l).2 := by
  induction l using rec_line sep with
  | none l free => rwa [split_free free]
  | line l r free ih => rwa [split_line free]

theorem mem_of_mem_tail {c : α} (member : c ∈ (split sep l).2) : c ∈ l := by
  induction l using rec_line sep with
  | none l free => rwa [split_free free] at member
  | line l r free ih =>
    rw [split_line free] at member
    exact List.mem_append_right _ (List.mem_cons_of_mem _ (ih member))

theorem tail_length_le (sep : α) (l : List α) : (split sep l).2.length ≤ l.length := by
  induction l using rec_line sep with
  | none l free => exact Nat.le_of_eq (by rw [split_free free])
  | line l r free ih =>
    rw [split_line free, List.length_append, List.length_cons]
    exact Nat.le_trans ih (by omega)

theorem line_length_lt {line : List α} (member : line ∈ (split sep l).1) : line.length < l.length := by
  induction l using rec_line sep with
  | none l free =>
    rw [split_free free] at member
    cases member
  | line l r free ih =>
    rw [split_line free] at member
    rw [List.length_append, List.length_cons]
    rcases List.mem_cons.mp member with rfl | later
    · omega
    · have shorter := ih later
      omega

theorem split_append (sep : α) (l r : List α) : split sep (l ++ r) =
    ((split sep l).1 ++ (split sep ((split sep l).2 ++ r)).1, (split sep ((split sep l).2 ++ r)).2) := by
  induction l using rec_line sep with
  | none l free => rw [split_free free, List.nil_append]
  | line l l' free ih =>
    rw [List.append_assoc, List.cons_append, split_line free, split_line free, ih]
    rfl

end Lines
