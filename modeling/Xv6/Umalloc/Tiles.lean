import Mathlib.Data.List.Chain
import Xv6.Umalloc.Machine

namespace Xv6.Umalloc

/-- A stretch of the heap with one header; `owner` is how many bytes were asked for, if the stretch is handed
out. -/
structure Tile where
  size : Nat
  owner : Option Nat

/-- The tiles from an address on, with their addresses. -/
def placed : Nat → List Tile → List (Nat × Tile)
  | _, [] => []
  | a, t :: rest => (a, t) :: placed (plus a t.size) rest

/-- Where they end. -/
def stop (a : Nat) (tiles : List Tile) : Nat := plus a (tiles.map Tile.size).sum

/-- The addresses of those that are free. -/
def frees (a : Nat) (tiles : List Tile) : List Nat :=
  (placed a tiles).filterMap fun p => if p.2.owner = none then some p.1 else none

/-- The pointers to those that are handed out, with the bytes that were asked for. -/
def useds (a : Nat) (tiles : List Tile) : List (Nat × Nat) :=
  (placed a tiles).filterMap fun p => p.2.owner.map fun n => (plus p.1 1, n)

section Places

variable {a x n m : Nat} {t : Tile} {l r tiles : List Tile} {s : Heap}

theorem plus_plus (a m n : Nat) : plus (plus a m) n = plus a (m + n) := by
  unfold plus headerSize
  omega

@[simp] theorem stop_nil (a : Nat) : stop a [] = a := rfl

theorem stop_append (a : Nat) (l r : List Tile) : stop a (l ++ r) = stop (stop a l) r := by
  unfold stop
  rw [List.map_append, List.sum_append, plus_plus]

@[simp] theorem stop_cons (a : Nat) (t : Tile) (r : List Tile) : stop a (t :: r) = stop (plus a t.size) r := by
  unfold stop
  rw [List.map_cons, List.sum_cons, plus_plus]

theorem placed_append (a : Nat) (l r : List Tile) : placed a (l ++ r) = placed a l ++ placed (stop a l) r := by
  induction l generalizing a with
  | nil => rfl
  | cons t l ih => rw [List.cons_append, placed, placed, ih, stop_cons, List.cons_append]

theorem frees_append (a : Nat) (l r : List Tile) : frees a (l ++ r) = frees a l ++ frees (stop a l) r := by
  unfold frees
  rw [placed_append, List.filterMap_append]

theorem useds_append (a : Nat) (l r : List Tile) : useds a (l ++ r) = useds a l ++ useds (stop a l) r := by
  unfold useds
  rw [placed_append, List.filterMap_append]

@[simp] theorem frees_free (a n : Nat) (r : List Tile) :
    frees a (⟨n, none⟩ :: r) = a :: frees (plus a n) r := rfl

@[simp] theorem frees_used (a n m : Nat) (r : List Tile) :
    frees a (⟨n, some m⟩ :: r) = frees (plus a n) r := rfl

@[simp] theorem useds_free (a n : Nat) (r : List Tile) : useds a (⟨n, none⟩ :: r) = useds (plus a n) r := rfl

@[simp] theorem useds_used (a n m : Nat) (r : List Tile) :
    useds a (⟨n, some m⟩ :: r) = (plus a 1, m) :: useds (plus a n) r := rfl

theorem mem_frees : x ∈ frees a tiles ↔ ∃ n, (x, (⟨n, none⟩ : Tile)) ∈ placed a tiles := by
  unfold frees
  rw [List.mem_filterMap]
  constructor
  · rintro ⟨⟨y, n, owner⟩, member, found⟩
    cases owner with
    | none => exact ⟨n, Option.some.inj found ▸ member⟩
    | some m => cases found
  · rintro ⟨n, member⟩
    exact ⟨_, member, rfl⟩

theorem mem_useds {b : Nat × Nat} : b ∈ useds a tiles ↔
    ∃ y n, (y, (⟨n, some b.2⟩ : Tile)) ∈ placed a tiles ∧ b.1 = plus y 1 := by
  unfold useds
  rw [List.mem_filterMap]
  constructor
  · rintro ⟨⟨y, n, owner⟩, member, found⟩
    cases owner with
    | none => cases found
    | some m =>
      obtain rfl := Option.some.inj found
      exact ⟨y, n, member, rfl⟩
  · rintro ⟨y, n, member, first⟩
    exact ⟨_, member, by rw [Option.map_some, ← first]⟩

/-- A tile is part of the heap. -/
theorem placed_split (member : (x, t) ∈ placed a tiles) : ∃ l r, tiles = l ++ t :: r ∧ x = stop a l := by
  induction tiles generalizing a with
  | nil => cases member
  | cons first rest ih =>
    rcases List.mem_cons.mp member with same | later
    · obtain ⟨rfl, rfl⟩ := Prod.mk.inj same
      exact ⟨[], rest, rfl, rfl⟩
    · obtain ⟨l, r, rfl, place⟩ := ih later
      exact ⟨first :: l, r, rfl, place.trans (stop_cons ..).symm⟩

theorem mem_placed (member : t ∈ tiles) : ∃ x, (x, t) ∈ placed a tiles := by
  obtain ⟨l, r, rfl⟩ := List.append_of_mem member
  exact ⟨stop a l, by simp [placed_append, placed]⟩

theorem placed_bounds (member : (x, t) ∈ placed a tiles) :
    a ≤ x ∧ plus x t.size ≤ stop a tiles ∧ t ∈ tiles := by
  obtain ⟨l, r, rfl, rfl⟩ := placed_split member
  refine ⟨Nat.le_add_right .., ?_, by simp⟩
  rw [stop_append, stop_cons]
  exact Nat.le_add_right ..

theorem placed_aligned (member : (x, t) ∈ placed a tiles) : x % headerSize = a % headerSize := by
  obtain ⟨l, r, rfl, rfl⟩ := placed_split member
  exact Nat.add_mul_mod_self_left ..

/-- One tile begins after the other. -/
theorem placed_pairwise (a : Nat) (tiles : List Tile) :
    (placed a tiles).Pairwise fun p q => plus p.1 p.2.size ≤ q.1 := by
  induction tiles generalizing a with
  | nil => exact .nil
  | cons t rest ih => exact .cons (fun q member => (placed_bounds member).1) (ih _)

theorem frees_bounds (positive : ∀ t ∈ tiles, 0 < t.size) (member : x ∈ frees a tiles) :
    a ≤ x ∧ x < stop a tiles := by
  obtain ⟨n, place⟩ := mem_frees.mp member
  obtain ⟨lower, upper, inside⟩ := placed_bounds place
  have some := positive _ inside
  refine ⟨lower, lt_of_lt_of_le ?_ upper⟩
  unfold plus headerSize
  omega

theorem frees_sorted (a : Nat) (positive : ∀ t ∈ tiles, 0 < t.size) : (frees a tiles).Pairwise (· < ·) := by
  induction tiles generalizing a with
  | nil => exact .nil
  | cons t rest ih =>
    have later := ih (plus a t.size) fun u member => positive u (List.mem_cons_of_mem t member)
    have some := positive t (List.mem_cons_self ..)
    obtain ⟨n, _ | m⟩ := t
    · refine .cons (fun x member => ?_) later
      have bound := (frees_bounds (fun u inside => positive u (List.mem_cons_of_mem _ inside)) member).1
      unfold plus headerSize at bound
      dsimp only at some bound
      omega
    · exact later

/-- The first free tile does not touch what is below the others. -/
theorem frees_distant (used : ∀ t ∈ tiles.head?, t.owner ≠ none) (positive : ∀ t ∈ tiles, 0 < t.size)
    (member : x ∈ frees a tiles) : a < x := by
  cases tiles with
  | nil => cases member
  | cons t rest =>
    have some := positive t (List.mem_cons_self ..)
    obtain ⟨n, _ | m⟩ := t
    · exact absurd rfl (used _ rfl)
    · have bound := (frees_bounds (fun u inside => positive u (List.mem_cons_of_mem _ inside)) member).1
      unfold plus headerSize at bound
      dsimp only at some bound
      omega

theorem placed_length (a : Nat) (tiles : List Tile) : (placed a tiles).length = tiles.length := by
  induction tiles generalizing a with
  | nil => rfl
  | cons t rest ih => rw [placed, List.length_cons, List.length_cons, ih]

theorem frees_length (a : Nat) (tiles : List Tile) : (frees a tiles).length ≤ tiles.length := by
  rw [← placed_length a tiles]
  exact List.length_filterMap_le ..

/-- Each tile takes a header. -/
theorem tiles_length (positive : ∀ t ∈ tiles, 0 < t.size) : headerSize * tiles.length + a ≤ stop a tiles := by
  induction tiles generalizing a with
  | nil => exact (Nat.zero_add a).le
  | cons t rest ih =>
    have later := @ih (plus a t.size) fun u member => positive u (List.mem_cons_of_mem t member)
    have some := positive t (List.mem_cons_self ..)
    rw [stop_cons, List.length_cons]
    unfold plus headerSize at *
    omega

end Places

/-- Not both tiles are free. -/
def Parted (t u : Tile) : Prop := t.owner ≠ none ∨ u.owner ≠ none

theorem Parted.left (n m : Nat) (u : Tile) : Parted ⟨n, some m⟩ u := .inl (Option.some_ne_none m)

theorem Parted.right (n m : Nat) (t : Tile) : Parted t ⟨n, some m⟩ := .inr (Option.some_ne_none m)

/-- The heap is made of tiles, no two neighbours of which are free; the free ones are on a circle with `base`,
and the others are those given out. -/
structure Tiled (g : Program) (s : Heap) (given : List (Nat × Nat)) (tiles : List Tile) : Prop where
  ended : stop g.top tiles = s.brk
  limit : s.brk ≤ g.top + 2 ^ 27
  positive : ∀ t ∈ tiles, 0 < t.size
  merged : tiles.IsChain Parted
  headers : ∀ p ∈ placed g.top tiles, (s.mem p.1).size = p.2.size
  first : (s.mem g.base).size = 0
  circle : Trail s.ptr g.base (frees g.top tiles) g.base
  rover : s.freep ∈ g.base :: frees g.top tiles
  handed : given.Perm (useds g.top tiles)
  asked : ∀ t ∈ tiles, ∀ n, t.owner = some n → n + headerSize ≤ headerSize * t.size

section Tiled

variable {g : Program} {s : Heap} {given : List (Nat × Nat)} {tiles : List Tile} {x n : Nat}
  {owner : Option Nat}
  {b : Nat × Nat}

theorem base_lt (g : Program) : g.base < g.top := by
  have below := g.below
  unfold headerSize at below
  omega

theorem Tiled.sorted (tiled : Tiled g s given tiles) : (g.base :: frees g.top tiles).Pairwise (· < ·) :=
  .cons (fun _ member => lt_of_lt_of_le (base_lt g) (frees_bounds tiled.positive member).1)
    (frees_sorted g.top tiled.positive)

theorem Tiled.nodup (tiled : Tiled g s given tiles) : (g.base :: frees g.top tiles).Nodup :=
  tiled.sorted.imp fun less => less.ne

theorem Tiled.few (tiled : Tiled g s given tiles) : tiles.length + 2 ≤ s.rounds g := by
  have room := tiles_length (a := g.top) tiled.positive
  rw [tiled.ended] at room
  unfold Heap.rounds
  unfold headerSize at *
  omega

/-- All sizes fit in the type `uint`. -/
theorem Tiled.small (tiled : Tiled g s given tiles) (place : (x, (⟨n, owner⟩ : Tile)) ∈ placed g.top tiles) :
    n < 2 ^ 32 := by
  have bounds := placed_bounds place
  have ended := tiled.ended
  have limit := tiled.limit
  unfold plus headerSize at bounds
  dsimp only at bounds
  omega

/-- The header of a pointer that has been given out. -/
theorem Tiled.tile (tiled : Tiled g s given tiles) (member : b ∈ given) : ∃ l n r,
    tiles = l ++ ⟨n, some b.2⟩ :: r ∧ b.1 - headerSize = stop g.top l ∧ b.1 = plus (stop g.top l) 1 := by
  obtain ⟨y, n, place, first⟩ := mem_useds.mp (tiled.handed.mem_iff.mp member)
  obtain ⟨l, r, split, rfl⟩ := placed_split place
  exact ⟨l, n, r, split, by rw [first]; exact Nat.add_sub_cancel .., first⟩

end Tiled

end Xv6.Umalloc
