import Xv6.Umalloc.Malloc

namespace Xv6.Umalloc
open Function

/-- What a program does with its heap: it calls `malloc` with counts that do not overflow the argument of
`sbrk`, gives back what it got and has not given back, and stores to what it got. The list holds the pointers
it may use, with the counts it asked for. -/
inductive Run (g : Program) (grants : Nat → Bool) : Heap → List (Nat × Nat) → Prop
  | start (mem : Nat → Header) : Run g grants ⟨mem, 0, g.top, 0⟩ []
  | malloc {s s' : Heap} {given : List (Nat × Nat)} {nbytes ap : Nat} : Run g grants s given →
      headerSize * ((nbytes + headerSize - 1) / headerSize + 1) < 2 ^ 31 →
      s.malloc g grants nbytes = some (ap, s') →
      Run g grants s' (if ap = 0 then given else (ap, nbytes) :: given)
  | free {s s' : Heap} {given : List (Nat × Nat)} {ap n : Nat} : Run g grants s given → (ap, n) ∈ given →
      s.free g ap = some s' → Run g grants s' (given.erase (ap, n))
  | store {s : Heap} {given : List (Nat × Nat)} {ap n a : Nat} (h : Header) :
      Run g grants s given → (ap, n) ∈ given →
      ap ≤ a → a < ap + n → Run g grants { s with mem := update s.mem a h } given

/-- The number of units of the block with this header. -/
def Heap.size (s : Heap) (p : Nat) : Nat := (s.mem p).size

/-- Two blocks have nothing in common. -/
def Heap.Apart (s : Heap) (p q : Nat) : Prop := plus p (s.size p) ≤ q ∨ plus q (s.size q) ≤ p

/-- The list that `freep` leads to, from `base` on, and the blocks that have been given out. -/
structure Good (g : Program) (s : Heap) (given : List (Nat × Nat)) (free : List Nat) : Prop where
  circle : Trail s.ptr g.base free g.base
  rover : s.freep ∈ g.base :: free
  gaps : (g.base :: free).Pairwise fun p q => plus p (s.size p) < q
  aligned : ∀ b ∈ given, b.1 % 16 = 0
  holds : ∀ b ∈ given, b.1 + b.2 ≤ plus (b.1 - headerSize) (s.size (b.1 - headerSize))
  disjoint : given.Pairwise fun b c => s.Apart (b.1 - headerSize) (c.1 - headerSize)
  away : ∀ b ∈ given, ∀ p ∈ g.base :: free, s.Apart (b.1 - headerSize) p
  inside : ∀ p ∈ free ++ given.map fun b => b.1 - headerSize, g.top ≤ p ∧ plus p (s.size p) ≤ s.brk
  units : headerSize * ((free.map s.size).sum + (given.map fun b => s.size (b.1 - headerSize)).sum) =
    s.brk - g.top

section Good

variable {g : Program} {grants : Nat → Bool} {s s' : Heap} {given given' : List (Nat × Nat)}
  {tiles : List Tile}
  {a x y n : Nat} {t u : Tile} {b : Nat × Nat}

theorem placed_apart (first : (x, t) ∈ placed a tiles) (second : (y, u) ∈ placed a tiles)
    (apart : (x, t) ≠ (y, u)) :
    plus x t.size ≤ y ∨ plus y u.size ≤ x := by
  have pairs : (placed a tiles).Pairwise fun p q => plus p.1 p.2.size ≤ q.1 ∨ plus q.1 q.2.size ≤ p.1 :=
    (placed_pairwise a tiles).imp Or.inl
  have symm : Std.Symm fun p q : Nat × Tile => plus p.1 p.2.size ≤ q.1 ∨ plus q.1 q.2.size ≤ p.1 :=
    ⟨fun _ _ => Or.symm⟩
  exact pairs.forall first second apart

/-- No free tile touches the next one. -/
theorem frees_gaps (merged : tiles.IsChain Parted) (positive : ∀ t ∈ tiles, 0 < t.size)
    (headers : ∀ p ∈ placed a tiles, (s.mem p.1).size = p.2.size) :
    (frees a tiles).Pairwise fun p q => plus p (s.size p) < q := by
  induction tiles generalizing a with
  | nil => exact .nil
  | cons t rest ih =>
    obtain ⟨next, merged⟩ := List.isChain_cons.mp merged
    have positive' : ∀ u ∈ rest, 0 < u.size := fun u member => positive u (List.mem_cons_of_mem t member)
    have later := ih merged positive' fun p member => headers p (List.mem_cons_of_mem _ member)
    obtain ⟨n, _ | m⟩ := t
    · refine .cons (fun x member => ?_) later
      have size : s.size a = n := headers (a, ⟨n, none⟩) (List.mem_cons_self ..)
      rw [size]
      exact frees_distant (fun u head => (next u head).resolve_left fun free => free rfl) positive' member
    · exact later

/-- Every unit is free or handed out. -/
theorem units_sum (headers : ∀ p ∈ placed a tiles, (s.mem p.1).size = p.2.size) :
    ((frees a tiles).map s.size).sum + ((useds a tiles).map fun b => s.size (b.1 - headerSize)).sum =
      (tiles.map Tile.size).sum := by
  induction tiles generalizing a with
  | nil => rfl
  | cons t rest ih =>
    have later := ih fun p member => headers p (List.mem_cons_of_mem _ member)
    have own := headers (a, t) (List.mem_cons_self ..)
    have header : plus a 1 - headerSize = a := Nat.add_sub_cancel ..
    obtain ⟨n, _ | m⟩ := t
    · have size : s.size a = n := own
      rw [frees_free, useds_free, List.map_cons, List.sum_cons, List.map_cons, List.sum_cons, ← later, size]
      dsimp only
      omega
    · rw [frees_used, useds_used, List.map_cons, List.sum_cons, List.map_cons, List.sum_cons, ← later]
      have size : s.size a = n := own
      dsimp only
      rw [header, size]
      omega

theorem Tiled.perm (tiled : Tiled g s given tiles) (perm : given'.Perm given) : Tiled g s given' tiles :=
  { tiled with handed := perm.trans tiled.handed }

/-- A store to what has been given out hits no header. -/
theorem Tiled.store (tiled : Tiled g s given tiles) (h : Header) (member : b ∈ given) (lower : b.1 ≤ x)
    (upper : x < b.1 + b.2) : Tiled g { s with mem := update s.mem x h } given tiles := by
  obtain ⟨l, n, r, split, -, place⟩ := tiled.tile member
  have start := base_lt g
  have asked := tiled.asked ⟨n, some b.2⟩ (split ▸ by simp) b.2 rfl
  have own : (stop g.top l, (⟨n, some b.2⟩ : Tile)) ∈ placed g.top tiles := by
    rw [split]
    simp [placed_append, placed]
  have inside : stop g.top l < x ∧ x < plus (stop g.top l) n := by
    unfold plus headerSize at *
    dsimp only at asked
    omega
  have other : ∀ p ∈ placed g.top tiles, p.1 ≠ x := fun p here same => by
    by_cases apart : p.1 = stop g.top l
    · omega
    · have some := tiled.positive _ (placed_bounds here).2.2
      rcases placed_apart here own fun same => apart (congrArg Prod.fst same) with below | above
      · unfold plus headerSize at below
        omega
      · dsimp only at above
        omega
  have reach : g.top ≤ stop g.top l := Nat.le_add_right ..
  have base : g.base ≠ x := by omega
  have ptr : ∀ p ∈ g.base :: frees g.top tiles, Heap.ptr { s with mem := update s.mem x h } p = s.ptr p :=
    fun p node => by
    unfold Heap.ptr
    rcases List.mem_cons.mp node with rfl | free
    · exact congrArg Header.ptr (update_of_ne base ..)
    · obtain ⟨k, here⟩ := mem_frees.mp free
      exact congrArg Header.ptr (update_of_ne (other _ here) ..)
  exact { tiled with
    headers := fun p here => (congrArg Header.size (update_of_ne (other p here) ..)).trans (tiled.headers p here)
    first := (congrArg Header.size (update_of_ne base ..)).trans tiled.first
    circle := tiled.circle.congr ptr }

/-- Before the first call there is no list. -/
def Fresh (g : Program) (s : Heap) (given : List (Nat × Nat)) : Prop :=
  s.freep = 0 ∧ s.brk = g.top ∧ given = []

theorem Fresh.start (fresh : Fresh g s given) : Tiled g (s.start g) given [] := by
  obtain ⟨none, brk, rfl⟩ := fresh
  rw [Heap.start, if_pos none]
  refine ⟨brk.symm, ?_, List.forall_mem_nil _, .nil, List.forall_mem_nil _, ?_, ?_,
    List.mem_cons_self .., .refl _,
    List.forall_mem_nil _⟩
  · show s.brk ≤ g.top + 2 ^ 27
    omega
  · rw [Heap.setSize_size, if_pos rfl, Nat.zero_mod]
  · refine Trail.nil_iff.mpr ?_
    rw [Heap.setSize_ptr]
    show (s.setPtr g.base g.base).ptr g.base = g.base
    rw [Heap.setPtr_ptr, update_self]

theorem Fresh.malloc (fresh : Fresh g s given) (nbytes : Nat) :
    s.malloc g grants nbytes = (s.start g).malloc g grants nbytes := by
  have base := g.positive
  have begun : (s.start g).freep = g.base := by
    rw [Heap.start, if_pos fresh.1]
    rfl
  have again : (s.start g).start g = s.start g := if_neg (by omega)
  unfold Heap.malloc
  rw [again]

theorem Tiled.free (tiled : Tiled g s given tiles) (member : b ∈ given) :
    ∃ s' tiles', s.free g b.1 = some s' ∧
    Tiled g s' (given.erase b) tiles' := by
  obtain ⟨l, n, r, rfl, -, place⟩ := tiled.tile member
  obtain ⟨s', l', N, r', run, -, -, -, tiled'⟩ :=
    free_spec (tiled.perm (List.perm_cons_erase member).symm) place
  exact ⟨s', _, run, tiled'⟩

theorem Run.tiled (run : Run g grants s given) : Fresh g s given ∨ ∃ tiles, Tiled g s given tiles := by
  induction run with
  | start mem => exact .inl ⟨rfl, rfl, rfl⟩
  | @malloc s s' given nbytes ap _ small got ih =>
    right
    obtain ⟨t, tiles, tiled, same⟩ : ∃ t tiles, Tiled g t given tiles ∧
        s.malloc g grants nbytes = t.malloc g grants nbytes := by
      rcases ih with fresh | ⟨tiles, tiled⟩
      · exact ⟨_, [], fresh.start, fresh.malloc nbytes⟩
      · exact ⟨s, tiles, tiled, rfl⟩
    obtain ⟨ap', s'', tiles', again, tiled'⟩ := malloc_spec grants tiled small
    obtain ⟨rfl, rfl⟩ := Prod.mk.inj (Option.some.inj (got.symm.trans (same.trans again)))
    exact ⟨tiles', tiled'⟩
  | free _ member got ih =>
    right
    rcases ih with ⟨-, -, rfl⟩ | ⟨tiles, tiled⟩
    · cases member
    obtain ⟨s'', tiles', again, tiled'⟩ := tiled.free member
    obtain rfl := Option.some.inj (got.symm.trans again)
    exact ⟨tiles', tiled'⟩
  | store h _ member lower upper ih =>
    rcases ih with ⟨-, -, rfl⟩ | ⟨tiles, tiled⟩
    · cases member
    · exact .inr ⟨tiles, tiled.store h member lower upper⟩

theorem Tiled.good (tiled : Tiled g s given tiles) : Good g s given (frees g.top tiles) := by
  have start := base_lt g
  have top := g.aligned
  have base : s.size g.base = 0 := tiled.first
  have used : ∀ b ∈ given, ∃ n, (b.1 - headerSize, (⟨n, some b.2⟩ : Tile)) ∈ placed g.top tiles ∧
      s.size (b.1 - headerSize) = n ∧ b.1 = plus (b.1 - headerSize) 1 := fun b member => by
    obtain ⟨x, n, here, place⟩ := mem_useds.mp (tiled.handed.mem_iff.mp member)
    have header : b.1 - headerSize = x := by rw [place]; exact Nat.add_sub_cancel ..
    rw [header]
    exact ⟨n, here, tiled.headers _ here, place⟩
  have free : ∀ p ∈ frees g.top tiles, ∃ n, (p, (⟨n, none⟩ : Tile)) ∈ placed g.top tiles ∧ s.size p = n :=
    fun p member => by
      obtain ⟨n, here⟩ := mem_frees.mp member
      exact ⟨n, here, tiled.headers _ here⟩
  refine ⟨tiled.circle, tiled.rover, .cons (fun p member => ?_)
    (frees_gaps tiled.merged tiled.positive tiled.headers),
    fun b member => ?_, fun b member => ?_, ?_, fun b member p node => ?_, fun p member => ?_, ?_⟩
  · have bound := (frees_bounds tiled.positive member).1
    rw [base]
    unfold plus
    omega
  · obtain ⟨n, here, -, place⟩ := used b member
    have aligned := placed_aligned here
    unfold plus headerSize at *
    omega
  · obtain ⟨n, here, size, place⟩ := used b member
    have asked := tiled.asked _ (placed_bounds here).2.2 b.2 rfl
    rw [size]
    unfold plus headerSize at *
    dsimp only at asked
    omega
  · refine (tiled.handed.pairwise_iff fun {b c} => Or.symm).mpr ?_
    have apart : (placed g.top tiles).Pairwise fun p q => s.Apart p.1 q.1 :=
      (placed_pairwise g.top tiles).imp_of_mem fun {p q} member _ below => .inl (by
        rw [Heap.size, tiled.headers p member]
        exact below)
    refine apart.filterMap _ fun p q apart b first c second => ?_
    obtain ⟨_, -, rfl⟩ := Option.map_eq_some_iff.mp first
    obtain ⟨_, -, rfl⟩ := Option.map_eq_some_iff.mp second
    have header : ∀ x, plus x 1 - headerSize = x := fun x => Nat.add_sub_cancel ..
    rwa [header, header]
  · obtain ⟨n, here, size, -⟩ := used b member
    rcases List.mem_cons.mp node with rfl | inside
    · right
      have bound := (placed_bounds here).1
      rw [base]
      unfold plus
      omega
    · obtain ⟨m, there, size'⟩ := free p inside
      have disjoint := placed_apart here there fun same => by
        cases congrArg (fun q : Nat × Tile => q.2.owner) same
      rwa [Heap.Apart, size, size']
  · rcases List.mem_append.mp member with inside | given'
    · obtain ⟨n, here, size⟩ := free p inside
      have bounds := placed_bounds here
      rw [size, ← tiled.ended]
      exact ⟨bounds.1, bounds.2.1⟩
    · obtain ⟨b, handed, rfl⟩ := List.mem_map.mp given'
      obtain ⟨n, here, size, -⟩ := used b handed
      have bounds := placed_bounds here
      rw [size, ← tiled.ended]
      exact ⟨bounds.1, bounds.2.1⟩
  · have sums := (tiled.handed.map fun b => s.size (b.1 - headerSize)).sum_nat
    rw [sums, units_sum tiled.headers, ← tiled.ended, stop, plus, Nat.add_sub_cancel_left]

/-- The heap of a program is in order after every run, and every call that it may make then ends. -/
theorem heap_in_order (run : Run g grants s given) :
    (Fresh g s given ∨ ∃ free, Good g s given free) ∧
    (∀ nbytes, headerSize * ((nbytes + headerSize - 1) / headerSize + 1) < 2 ^ 31 →
      ∃ ap s', s.malloc g grants nbytes = some (ap, s')) ∧
    ∀ b ∈ given, ∃ s', s.free g b.1 = some s' := by
  rcases run.tiled with fresh | ⟨tiles, tiled⟩
  · refine ⟨.inl fresh, fun nbytes small => ?_, fun b member => ?_⟩
    · obtain ⟨ap, s', -, got, -⟩ := malloc_spec grants fresh.start small
      exact ⟨ap, s', (fresh.malloc nbytes).trans got⟩
    · rw [fresh.2.2] at member
      cases member
  · refine ⟨.inr ⟨_, tiled.good⟩, fun nbytes small => ?_, fun b member => ?_⟩
    · obtain ⟨ap, s', -, got, -⟩ := malloc_spec grants tiled small
      exact ⟨ap, s', got⟩
    · obtain ⟨s', -, got, -⟩ := tiled.free member
      exact ⟨s', got⟩

end Good

section FirstCall

/-- A program of one page, with `base` near its end. -/
def onePage : Program := ⟨4072, 4096, by decide, by decide, by decide⟩

def zeroed : Heap := ⟨fun _ => ⟨0, 0⟩, 0, 4096, 0⟩

/-- The system gives memory to the first two calls of `sbrk` and to no other. -/
def twice (calls : Nat) : Bool := calls < 2

/-- Two blocks, the first of which is freed and too small for the third call; then the second is freed as
well. -/
def reused : Option ((Nat × Nat × Nat) × Heap) :=
  (zeroed.malloc onePage twice 10).bind fun first =>
    (first.2.malloc onePage twice 100).bind fun second =>
      (second.2.free onePage first.1).bind fun s =>
        (s.malloc onePage twice 70000).bind fun third =>
          (third.2.free onePage second.1).map fun s => ((first.1, second.1, third.1), s)

theorem reused_run : ∃ s, reused = some ((69616, 69488, 69648), s) ∧ s.sbrks = 2 ∧
    Run onePage twice s [(69648, 70000)] := by
  have values : reused.map (fun r => (r.1, r.2.sbrks)) = some ((69616, 69488, 69648), 2) := by decide +kernel
  obtain ⟨⟨blocks, s⟩, done, here⟩ := Option.map_eq_some_iff.mp values
  obtain ⟨rfl, sbrks⟩ : blocks = (69616, 69488, 69648) ∧ s.sbrks = 2 := Prod.mk.inj here
  refine ⟨s, done, sbrks, ?_⟩
  obtain ⟨⟨a, s₁⟩, first, rest⟩ := Option.bind_eq_some_iff.mp done
  obtain ⟨⟨b, s₂⟩, second, rest⟩ := Option.bind_eq_some_iff.mp rest
  obtain ⟨s₃, freed, rest⟩ := Option.bind_eq_some_iff.mp rest
  obtain ⟨⟨c, s₄⟩, third, rest⟩ := Option.bind_eq_some_iff.mp rest
  obtain ⟨s₅, last, same⟩ := Option.map_eq_some_iff.mp rest
  obtain ⟨⟨rfl, rfl, rfl⟩, rfl⟩ : (a = 69616 ∧ b = 69488 ∧ c = 69648) ∧ s₅ = s :=
    by simpa only [Prod.mk.injEq] using same
  have one : Run onePage twice s₁ [(69616, 10)] := Run.malloc (Run.start fun _ => ⟨0, 0⟩) (by decide) first
  have two : Run onePage twice s₂ [(69488, 100), (69616, 10)] := Run.malloc one (by decide) second
  have three : Run onePage twice s₃ [(69488, 100)] := Run.free two (n := 10) (.tail _ (.head _)) freed
  have four : Run onePage twice s₄ [(69648, 70000), (69488, 100)] := Run.malloc three (by decide) third
  exact Run.free four (n := 100) (.tail _ (.head _)) last

/-- After these calls one block is given out and the heap is in order. -/
theorem heap_in_order_reused : ∃ s, reused = some ((69616, 69488, 69648), s) ∧
    (∃ free, Good onePage s [(69648, 70000)] free) ∧ ∃ s', s.free onePage 69648 = some s' := by
  obtain ⟨s, done, -, run⟩ := reused_run
  obtain ⟨good, -, frees⟩ := heap_in_order run
  refine ⟨s, done, ?_, frees (69648, 70000) (List.mem_cons_self ..)⟩
  rcases good with ⟨-, -, none⟩ | good
  · cases none
  · exact good

end FirstCall

end Xv6.Umalloc
