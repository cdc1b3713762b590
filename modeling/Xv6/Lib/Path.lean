import Mathlib.Data.List.Nodup
import Mathlib.Logic.Function.Basic

/-! Paths along a successor function, and circles, which are paths that lead back to their start. -/

variable {α : Type}

/-- From `a` the successors are the members of the list, in order, and then `c`. -/
def Trail (next : α → α) (a : α) (l : List α) (c : α) : Prop := (a :: l).map next = l ++ [c]

/-- The first node from `a` on that satisfies a test, if it is met within `fuel` nodes. -/
def walk (next : α → α) (test : α → Bool) : Nat → α → Option α
  | 0, _ => none
  | fuel + 1, a => if test a then some a else walk next test fuel (next a)

namespace Trail

variable {next next' : α → α} {a b c d q : α} {l r : List α}

theorem nil_iff : Trail next a [] c ↔ next a = c := by simp [Trail]

theorem cons_iff : Trail next a (b :: l) c ↔ next a = b ∧ Trail next b l c := by simp [Trail]

theorem append_iff : Trail next a (l ++ b :: r) c ↔ Trail next a l b ∧ Trail next b r c := by
  induction l generalizing a with
  | nil => rw [List.nil_append, cons_iff, nil_iff]
  | cons x l ih => rw [List.cons_append, cons_iff, cons_iff, ih, and_assoc]

/-- The rest of a path, from the node before it. -/
theorem drop (path : Trail next a (l ++ r) c) : Trail next (l.getLastD a) r c := by
  induction l generalizing a with
  | nil => exact path
  | cons x l ih =>
    rw [List.getLastD_cons]
    exact ih (cons_iff.mp path).2

theorem take (path : Trail next a (l ++ r) c) : ∃ d, Trail next a l d := by
  cases r with
  | nil => exact ⟨c, by rwa [List.append_nil] at path⟩
  | cons y r => exact ⟨y, (append_iff.mp path).1⟩

/-- Another node with the same successor. -/
theorem replace (path : Trail next a l c) (first : next' b = next a) (rest : ∀ x ∈ l, next' x = next x) :
    Trail next' b l c := by
  have tail : l.map next' = l.map next := List.map_congr_left rest
  rw [Trail, List.map_cons, first, tail]
  exact path

theorem congr (path : Trail next a l c) (same : ∀ x ∈ a :: l, next' x = next x) : Trail next' a l c :=
  (List.map_congr_left same).trans path

/-- The successor of the last node. -/
theorem last (path : Trail next a l c) : next (l.getLastD a) = c := by
  induction l generalizing a with
  | nil => exact nil_iff.mp path
  | cons x l ih =>
    rw [List.getLastD_cons]
    exact ih (cons_iff.mp path).2

theorem mem_last : l.getLastD a ∈ a :: l := by
  induction l generalizing a with
  | nil => exact List.mem_cons_self ..
  | cons x l ih =>
    rw [List.getLastD_cons]
    exact List.mem_cons_of_mem a ih

/-- The last node gets another successor. -/
theorem redirect [DecidableEq α] (path : Trail next a l c) (nodup : (a :: l).Nodup) :
    Trail (Function.update next (l.getLastD a) d) a l d := by
  induction l generalizing a with
  | nil => exact nil_iff.mpr (Function.update_self ..)
  | cons x l ih =>
    obtain ⟨first, rest⟩ := cons_iff.mp path
    rw [List.getLastD_cons]
    have fresh : a ≠ l.getLastD x := fun same => (List.nodup_cons.mp nodup).1 (same ▸ mem_last)
    exact cons_iff.mpr ⟨(Function.update_of_ne fresh ..).trans first, ih rest (List.nodup_cons.mp nodup).2⟩

/-- A node is left out. -/
theorem remove [DecidableEq α] (path : Trail next a (l ++ b :: r) c) (nodup : (a :: (l ++ b :: r)).Nodup) :
    Trail (Function.update next (l.getLastD a) (next b)) a (l ++ r) c := by
  obtain ⟨first, second⟩ := append_iff.mp path
  have whole : ((a :: l) ++ b :: r).Nodup := nodup
  obtain ⟨lower, upper, apart⟩ := List.nodup_append.mp whole
  cases r with
  | nil =>
    rw [List.append_nil, nil_iff.mp second]
    exact first.redirect lower
  | cons y r =>
    obtain ⟨leads, rest⟩ := cons_iff.mp second
    rw [leads, append_iff]
    refine ⟨first.redirect lower, rest.congr fun x member => Function.update_of_ne ?_ ..⟩
    exact (apart _ mem_last x (List.mem_cons_of_mem b member)).symm

/-- On a path that goes up, a node is the last one or is followed by a higher one. -/
theorem next_sorted [LT α] {x : α} (path : Trail next a l c) (sorted : (a :: l).Pairwise (· < ·))
    (member : x ∈ a :: l) :
    x = l.getLastD a ∧ next x = c ∨ next x ∈ l ∧ x < next x := by
  induction l generalizing a with
  | nil =>
    obtain rfl := List.mem_singleton.mp member
    exact .inl ⟨rfl, nil_iff.mp path⟩
  | cons y l ih =>
    obtain ⟨first, rest⟩ := cons_iff.mp path
    obtain ⟨least, sorted⟩ := List.pairwise_cons.mp sorted
    rw [List.getLastD_cons]
    rcases List.mem_cons.mp member with rfl | later
    · right
      rw [first]
      exact ⟨List.mem_cons_self .., least y (List.mem_cons_self ..)⟩
    · exact (ih rest sorted later).imp_right fun ⟨inside, less⟩ => ⟨List.mem_cons_of_mem y inside, less⟩

/-- A circle can be followed from any of its nodes. -/
theorem around (circle : Trail next a l a) (member : b ∈ a :: l) :
    ∃ r, Trail next b r b ∧ (b :: r).Perm (a :: l) := by
  rcases List.mem_cons.mp member with rfl | inside
  · exact ⟨l, circle, .refl _⟩
  obtain ⟨l, r, rfl⟩ := List.append_of_mem inside
  obtain ⟨first, second⟩ := append_iff.mp circle
  refine ⟨r ++ a :: l, append_iff.mpr ⟨second, first⟩, ?_⟩
  exact @List.perm_append_comm _ (b :: r) (a :: l)

/-- On a circle there is one way to a node. -/
theorem pred (circle : Trail next a (l ++ b :: r) a) (nodup : (a :: (l ++ b :: r)).Nodup)
    (member : q ∈ a :: (l ++ b :: r))
    (leads : next q = b) : q = l.getLastD a := by
  have successors : ((a :: (l ++ b :: r)).map next).Nodup := by
    rw [circle]
    exact (List.perm_append_singleton a _).nodup_iff.mpr nodup
  refine List.inj_on_of_nodup_map successors member ?_ (leads.trans (append_iff.mp circle).1.last.symm)
  rcases List.mem_cons.mp (mem_last (a := a) (l := l)) with same | inside
  · rw [same]
    exact List.mem_cons_self ..
  · exact List.mem_cons_of_mem a (List.mem_append_left _ inside)

/-- A walk along a path ends at a node that satisfies the test, if there is one. -/
theorem walk_some {test : α → Bool} {fuel : Nat} (path : Trail next a l c) (enough : l.length < fuel)
    (some : ∃ x ∈ a :: l, test x = true) : ∃ x ∈ a :: l, test x = true ∧ walk next test fuel a = .some x := by
  induction l generalizing a fuel with
  | nil =>
    obtain ⟨fuel, rfl⟩ := Nat.exists_eq_succ_of_ne_zero (by omega : fuel ≠ 0)
    obtain ⟨x, member, good⟩ := some
    obtain rfl := List.mem_singleton.mp member
    exact ⟨x, member, good, if_pos good⟩
  | cons y l ih =>
    obtain ⟨fuel, rfl⟩ := Nat.exists_eq_succ_of_ne_zero (by omega : fuel ≠ 0)
    obtain ⟨first, rest⟩ := cons_iff.mp path
    by_cases here : test a = true
    · exact ⟨a, List.mem_cons_self .., here, if_pos here⟩
    obtain ⟨x, member, good⟩ := some
    have later : x ∈ y :: l := (List.mem_cons.mp member).resolve_left fun same => here (same ▸ good)
    have short : l.length < fuel := by
      rw [List.length_cons] at enough
      omega
    obtain ⟨x, member, good, run⟩ := ih rest short ⟨x, later, good⟩
    refine ⟨x, List.mem_cons_of_mem a member, good, ?_⟩
    rw [walk, if_neg here, first, run]

end Trail
