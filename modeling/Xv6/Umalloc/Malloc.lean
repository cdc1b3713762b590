import Xv6.Umalloc.Free

namespace Xv6.Umalloc
open Function
open Vm (KERNBASE PHYSTOP)

section Malloc

variable {g : Program} {grants : Nat → Bool} {s : Heap} {given : List (Nat × Nat)} {tiles l r : List Tile}
  {n m nunits nbytes prevp fuel : Nat} {others : List Nat}

/-- `malloc` gives out a free block, or its upper end. -/
theorem take_spec (tiled : Tiled g s given (l ++ ⟨n, none⟩ :: r)) (fits : nunits ≤ n) (some : 0 < nunits)
    (asked : nbytes + headerSize ≤ headerSize * nunits) : ∃ ap s' tiles',
      s.take ((frees g.top l).getLastD g.base) (stop g.top l) nunits = (ap, s') ∧ ap ≠ 0 ∧
      Tiled g s' ((ap, nbytes) :: given) tiles' := by
  have start := base_lt g
  have positive := tiled.positive
  have low : ∀ t ∈ l, 0 < t.size := fun t member => positive t (List.mem_append_left _ member)
  have high : ∀ t ∈ r, 0 < t.size := fun t member =>
    positive t (List.mem_append_right _ (List.mem_cons_of_mem _ member))
  obtain ⟨lower, upper, -⟩ := List.isChain_append.mp tiled.merged
  obtain ⟨-, upper⟩ := List.isChain_cons.mp upper
  have circle := tiled.circle
  have nodup := tiled.nodup
  have handed := tiled.handed
  have headers := tiled.headers
  obtain ⟨p, hp⟩ : ∃ p, p = stop g.top l := ⟨_, rfl⟩
  have reach : g.top ≤ p := hp ▸ Nat.le_add_right ..
  rw [frees_append, frees_free, ← hp] at circle nodup
  rw [useds_append, useds_free, ← hp] at handed
  rw [placed_append, placed, ← hp] at headers
  rw [← hp]
  have size : (s.mem p).size = n := headers (p, ⟨n, none⟩) (by simp)
  have asks : ∀ t ∈ l ++ r, ∀ k, t.owner = .some k → k + headerSize ≤ headerSize * t.size :=
    fun t member => by
    refine tiled.asked t ?_
    rcases List.mem_append.mp member with first | last
    · exact List.mem_append_left _ first
    · exact List.mem_append_right _ (List.mem_cons_of_mem _ last)
  have inside : (frees g.top l).getLastD g.base ∈ g.base :: (frees g.top l ++ frees (plus p n) r) := by
    rw [← List.cons_append]
    exact List.mem_append_left _ Trail.mem_last
  by_cases whole : n = nunits
  · subst whole
    have list : frees g.top (l ++ ⟨n, .some nbytes⟩ :: r) = frees g.top l ++ frees (plus p n) r := by
      rw [frees_append, frees_used, ← hp]
    refine ⟨plus p 1, _, l ++ ⟨n, .some nbytes⟩ :: r, if_pos size, ?_, ?_, tiled.limit,
      fun t member => ?_, ?_,
      fun q member => ?_, ?_, ?_, ?_, ?_, fun t member => ?_⟩
    · unfold plus headerSize
      omega
    · have ended := tiled.ended
      rw [stop_append, stop_cons] at ended ⊢
      exact ended
    · rcases List.mem_append.mp member with first | later
      · exact low t first
      · rcases List.mem_cons.mp later with rfl | last
        · exact some
        · exact high t last
    · refine List.isChain_append.mpr ⟨lower, List.isChain_cons.mpr ⟨fun _ _ => Parted.left .., upper⟩,
        fun t _ u head => ?_⟩
      obtain rfl := Option.some.inj head
      exact Parted.right ..
    · show ((s.setPtr _ (s.ptr p)).mem q.1).size = q.2.size
      rw [Heap.setPtr_size]
      rw [placed_append, placed, ← hp] at member
      rcases List.mem_append.mp member with first | later
      · exact headers q (List.mem_append_left _ first)
      · rcases List.mem_cons.mp later with rfl | last
        · exact size
        · exact headers q (List.mem_append_right _ (List.mem_cons_of_mem _ last))
    · show ((s.setPtr _ (s.ptr p)).mem g.base).size = 0
      rw [Heap.setPtr_size]
      exact tiled.first
    · rw [list]
      show Trail (s.setPtr _ (s.ptr p)).ptr g.base _ g.base
      rw [Heap.setPtr_ptr]
      exact circle.remove nodup
    · rw [list]
      exact inside
    · rw [useds_append, useds_used, ← hp]
      exact ((List.perm_cons _).mpr handed).trans List.perm_middle.symm
    · intro k own
      rcases List.mem_append.mp member with first | later
      · exact asks t (List.mem_append_left _ first) k own
      · rcases List.mem_cons.mp later with rfl | last
        · obtain rfl := Option.some.inj own
          exact asked
        · exact asks t (List.mem_append_right _ last) k own
  · have part : 0 < n - nunits := by omega
    obtain ⟨q, hq⟩ : ∃ q, q = plus p (n - nunits) := ⟨_, rfl⟩
    have above : p < q := by
      unfold plus headerSize at hq
      omega
    have whole' : plus q nunits = plus p n := by
      rw [hq, plus_plus, Nat.sub_add_cancel fits]
    have small : n < 2 ^ 32 := tiled.small
      (show (p, (⟨n, none⟩ : Tile)) ∈ _ by simp [placed_append, placed, ← hp])
    have list : frees g.top (l ++ ⟨n - nunits, none⟩ :: ⟨nunits, .some nbytes⟩ :: r) =
        frees g.top l ++ p :: frees (plus p n) r := by
      rw [frees_append, frees_free, frees_used, ← hp, ← hq, whole']
    have taken : s.take ((frees g.top l).getLastD g.base) p nunits = (plus q 1,
        { (s.setSize p (n - nunits)).setSize q nunits with freep := (frees g.top l).getLastD g.base }) := by
      have left : ((s.setSize p (n - nunits)).mem p).size = n - nunits := by
        rw [Heap.setSize_size, if_pos rfl, Nat.mod_eq_of_lt (by omega)]
      rw [Heap.take, size, if_neg whole]
      simp only [left, ← hq]
    refine ⟨_, _, l ++ ⟨n - nunits, none⟩ :: ⟨nunits, .some nbytes⟩ :: r, taken, ?_, ?_, tiled.limit,
      fun t member => ?_,
      ?_, ?_, ?_, ?_, ?_, ?_, fun t member => ?_⟩
    · unfold plus headerSize
      omega
    · have ended := tiled.ended
      rw [stop_append, stop_cons, ← hp] at ended
      rw [stop_append, stop_cons, stop_cons, ← hp, ← hq, whole']
      exact ended
    · simp only [List.mem_append, List.mem_cons] at member
      rcases member with first | rfl | rfl | last
      · exact low t first
      · exact part
      · exact some
      · exact high t last
    · obtain ⟨-, -, next⟩ := List.isChain_append.mp tiled.merged
      refine List.isChain_append.mpr ⟨lower, List.isChain_cons_cons.mpr ⟨Parted.right ..,
        List.isChain_cons.mpr ⟨fun _ _ => Parted.left .., upper⟩⟩, fun t last u head => ?_⟩
      obtain rfl := Option.some.inj head
      exact next t last ⟨n, none⟩ rfl
    · have first := @headers_change g s l [] (s.setSize p (n - nunits)) p (n - nunits) none hp low
        (fun q member => headers q (List.mem_append_left _ member))
        (fun q member => by cases member) part fun x => by
          rw [Heap.setSize_size, Nat.mod_eq_of_lt (by omega)]
      have second := @headers_change g (s.setSize p (n - nunits)) (l ++ [⟨n - nunits, none⟩]) r
        ((s.setSize p (n - nunits)).setSize q nunits) q nunits (.some nbytes)
        (by rw [stop_append, ← hp, hq]; rfl)
        (fun t member => by
          rcases List.mem_append.mp member with first | own
          · exact low t first
          · exact (List.mem_singleton.mp own) ▸ part) first
        (fun u member => by
          have bounds := placed_bounds member
          have apart : u.1 ≠ p := fun same => by
            rw [whole'] at bounds
            unfold plus headerSize at bounds
            omega
          rw [Heap.setSize_size, if_neg apart]
          rw [whole'] at member
          exact headers u (List.mem_append_right _ (List.mem_cons_of_mem _ member))) some fun x => by
          rw [Heap.setSize_size, Nat.mod_eq_of_lt (by omega)]
      intro u member
      exact second u (by rwa [List.append_assoc])
    · show (((s.setSize p (n - nunits)).setSize q nunits).mem g.base).size = 0
      have first : g.base ≠ q := by omega
      have second : g.base ≠ p := by omega
      rw [Heap.setSize_size, if_neg first, Heap.setSize_size, if_neg second, tiled.first]
    · rw [list]
      show Trail ((s.setSize p (n - nunits)).setSize q nunits).ptr g.base _ g.base
      rw [Heap.setSize_ptr, Heap.setSize_ptr]
      exact circle
    · rw [list, ← List.cons_append]
      exact List.mem_append_left _ Trail.mem_last
    · rw [useds_append, useds_free, useds_used, ← hp, ← hq, whole']
      exact ((List.perm_cons _).mpr handed).trans List.perm_middle.symm
    · intro k own
      simp only [List.mem_append, List.mem_cons] at member
      rcases member with first | rfl | rfl | last
      · exact asks t (List.mem_append_left _ first) k own
      · cases own
      · obtain rfl := Option.some.inj own
        exact asked
      · exact asks t (List.mem_append_right _ last) k own

/-- What the loop of `malloc` does when it is back where it began. -/
def more (g : Program) (grants : Nat → Bool) (nunits fuel : Nat) (s : Heap) : Option (Nat × Heap) := do
  let (p, s) ← s.morecore g grants nunits
  if p = 0 then return (0, s)
  s.mallocLoop g grants nunits fuel p

/-- Once around the list, the loop of `malloc` has found a block, or calls `morecore`. -/
theorem mallocLoop_walk (g : Program) (grants : Nat → Bool) (nunits : Nat)
    (path : Trail s.ptr prevp others s.freep) (apart : s.freep ∉ others)
    (enough : others.length < fuel) :
    (∃ q ∈ prevp :: others, nunits ≤ (s.mem (s.ptr q)).size ∧
      s.mallocLoop g grants nunits fuel prevp = some (s.take q (s.ptr q) nunits)) ∨
    (∀ x ∈ others ++ [s.freep], (s.mem x).size < nunits) ∧ ∃ rest, fuel = rest + others.length + 1 ∧
      s.mallocLoop g grants nunits fuel prevp = more g grants nunits rest s := by
  induction others generalizing prevp fuel with
  | nil =>
    obtain ⟨fuel, rfl⟩ := Nat.exists_eq_succ_of_ne_zero (by omega : fuel ≠ 0)
    have leads := Trail.nil_iff.mp path
    by_cases fits : nunits ≤ (s.mem (s.ptr prevp)).size
    · exact .inl ⟨prevp, List.mem_cons_self .., fits, by rw [Heap.mallocLoop, if_pos fits]⟩
    · refine .inr ⟨fun x member => ?_, fuel, rfl, by rw [Heap.mallocLoop, if_neg fits, if_pos leads]; rfl⟩
      rw [List.mem_singleton.mp member, ← leads]
      omega
  | cons y others ih =>
    obtain ⟨fuel, rfl⟩ := Nat.exists_eq_succ_of_ne_zero (by omega : fuel ≠ 0)
    obtain ⟨leads, rest⟩ := Trail.cons_iff.mp path
    by_cases fits : nunits ≤ (s.mem (s.ptr prevp)).size
    · exact .inl ⟨prevp, List.mem_cons_self .., fits, by rw [Heap.mallocLoop, if_pos fits]⟩
    have further : s.ptr prevp ≠ s.freep := fun same => apart (same ▸ leads ▸ List.mem_cons_self ..)
    have step : s.mallocLoop g grants nunits (fuel + 1) prevp = s.mallocLoop g grants nunits fuel y := by
      rw [Heap.mallocLoop, if_neg fits, if_neg further, leads]
    have short : others.length < fuel := by
      rw [List.length_cons] at enough
      omega
    rw [step]
    rcases ih rest (fun member => apart (List.mem_cons_of_mem y member)) short with
      ⟨q, member, large, run⟩ | ⟨small, left, count, run⟩
    · exact .inl ⟨q, List.mem_cons_of_mem prevp member, large, run⟩
    · refine .inr ⟨fun x member => ?_, left, by rw [count, List.length_cons]; omega, run⟩
      rcases List.mem_cons.mp member with rfl | later
      · rw [← leads]
        omega
      · exact small x later

/-- From the rover on, the loop of `malloc` gives out a block or comes to call `morecore`. -/
theorem mallocLoop_spec (grants : Nat → Bool) (tiled : Tiled g s given tiles) (some : 0 < nunits)
    (asked : nbytes + headerSize ≤ headerSize * nunits) (enough : tiles.length < fuel) :
    (∃ ap s' tiles', s.mallocLoop g grants nunits fuel s.freep = .some (ap, s') ∧ ap ≠ 0 ∧
      Tiled g s' ((ap, nbytes) :: given) tiles') ∨
    (∀ x ∈ frees g.top tiles, (s.mem x).size < nunits) ∧ ∃ rest, fuel ≤ rest + tiles.length + 1 ∧
      s.mallocLoop g grants nunits fuel s.freep = more g grants nunits rest s := by
  obtain ⟨others, way, perm⟩ := tiled.circle.around tiled.rover
  have same := perm.length_eq
  rw [List.length_cons, List.length_cons] at same
  have few := frees_length g.top tiles
  have apart : s.freep ∉ others := (List.nodup_cons.mp (perm.nodup_iff.mpr tiled.nodup)).1
  rcases mallocLoop_walk g grants nunits way apart (show others.length < fuel by omega) with
    ⟨q, member, fits, run⟩ | ⟨small, rest, count, run⟩
  · left
    have place : s.ptr q ∈ g.base :: frees g.top tiles := by
      refine perm.mem_iff.mp ?_
      have image : s.ptr q ∈ others ++ [s.freep] := way ▸ List.mem_map_of_mem member
      exact (List.perm_append_singleton s.freep others).mem_iff.mp image
    have free : s.ptr q ∈ frees g.top tiles := by
      refine (List.mem_cons.mp place).resolve_left fun base => ?_
      rw [base, tiled.first] at fits
      omega
    obtain ⟨n, inside⟩ := mem_frees.mp free
    have size := tiled.headers _ inside
    obtain ⟨l, r, rfl, here⟩ := placed_split inside
    have pred : q = (frees g.top l).getLastD g.base := by
      have circle := tiled.circle
      have nodup := tiled.nodup
      have around := perm.mem_iff.mp member
      rw [frees_append, frees_free, ← here] at circle nodup around
      exact circle.pred nodup around rfl
    obtain ⟨ap, s', tiles', taken, valid, tiled'⟩ := take_spec tiled (le_of_le_of_eq fits size) some asked
    exact ⟨ap, s', tiles', by rw [run, here, pred, taken], valid, tiled'⟩
  · right
    refine ⟨fun x member => ?_, rest, by omega, run⟩
    have circle : x ∈ s.freep :: others := perm.mem_iff.mpr (List.mem_cons_of_mem _ member)
    exact small x ((List.perm_append_singleton s.freep others).mem_iff.mpr circle)

theorem toInt_of_lt (small : n < 2 ^ 31) : toInt n = n := by
  have wide : n % 2 ^ 32 = n := Nat.mod_eq_of_lt (by omega)
  rw [toInt, wide, if_pos small]

/-- More memory, as a tile that is given back at once. -/
theorem Tiled.grow (tiled : Tiled g s given tiles) (calls : Nat) {nu : Nat} (some : 0 < nu)
    (room : s.brk + headerSize * nu ≤ g.top + 2 ^ 27) :
    Tiled g ({ s with brk := s.brk + headerSize * nu, sbrks := calls }.setSize s.brk nu)
    ((plus s.brk 1, 0) :: given)
      (tiles ++ [⟨nu, .some 0⟩]) := by
  have start := base_lt g
  have ended := tiled.ended
  have reach : g.top ≤ s.brk := ended ▸ Nat.le_add_right ..
  have small : nu < 2 ^ 32 := by
    unfold headerSize at room
    omega
  have list : frees g.top (tiles ++ [⟨nu, .some 0⟩]) = frees g.top tiles := by
    rw [frees_append]
    exact List.append_nil _
  obtain ⟨s', hs'⟩ : ∃ s' : Heap,
    s' = { s with brk := s.brk + headerSize * nu, sbrks := calls }.setSize s.brk nu :=
    ⟨_, rfl⟩
  have ptr : s'.ptr = s.ptr := by rw [hs', Heap.setSize_ptr]; rfl
  have sizes : ∀ x, (s'.mem x).size = if x = s.brk then nu else (s.mem x).size := fun x => by
    rw [hs', Heap.setSize_size, Nat.mod_eq_of_lt small]
  have brk : s'.brk = s.brk + headerSize * nu := by rw [hs']; rfl
  have rover : s'.freep = s.freep := by rw [hs']; rfl
  rw [← hs']
  refine ⟨?_, brk ▸ room, fun t member => ?_, ?_, ?_, ?_, ?_, ?_, ?_, fun t member k own => ?_⟩
  · rw [stop_append, ended, brk]
    rfl
  · rcases List.mem_append.mp member with old | new
    · exact tiled.positive t old
    · exact (List.mem_singleton.mp new) ▸ some
  · refine List.isChain_append.mpr ⟨tiled.merged, .singleton _, fun t _ u head => ?_⟩
    obtain rfl := Option.some.inj head
    exact Parted.right ..
  · exact @headers_change g s tiles [] s' s.brk nu (.some 0) ended.symm tiled.positive tiled.headers
      (fun p member => by cases member) some sizes
  · have apart : g.base ≠ s.brk := by omega
    rw [sizes, if_neg apart, tiled.first]
  · rw [list, ptr]
    exact tiled.circle
  · rw [list, rover]
    exact tiled.rover
  · rw [useds_append, ended]
    exact ((List.perm_cons _).mpr tiled.handed).trans (List.perm_append_singleton (plus s.brk 1, 0) _).symm
  · rcases List.mem_append.mp member with old | new
    · exact tiled.asked t old k own
    · obtain rfl := List.mem_singleton.mp new
      obtain rfl := Option.some.inj own
      unfold headerSize
      dsimp only
      omega

theorem morecore_spec (grants : Nat → Bool) (tiled : Tiled g s given tiles)
    (small : headerSize * nunits < 2 ^ 31) :
    (∃ s', s.morecore g grants nunits = some (0, s') ∧ Tiled g s' given tiles) ∨
    ∃ s' l N r, s.morecore g grants nunits = some (s'.freep, s') ∧ s'.freep ≠ 0 ∧ nunits ≤ N ∧
      l.length + r.length ≤ tiles.length ∧ Tiled g s' given (l ++ ⟨N, none⟩ :: r) := by
  obtain ⟨nu, hnu⟩ : ∃ nu, nu = if nunits < 4096 then 4096 else nunits := ⟨_, rfl⟩
  have enough : nunits ≤ nu ∧ 0 < nu ∧ nu * headerSize < 2 ^ 31 := by
    rw [hnu]
    unfold headerSize at *
    split <;> omega
  have size : toInt (nu * headerSize) = (nu * headerSize : Nat) := toInt_of_lt enough.2.2
  have positive : (0 : Int) < (nu * headerSize : Nat) := by
    unfold headerSize
    omega
  by_cases granted : grants s.sbrks = true ∧ (s.brk : Int) + (nu * headerSize : Nat) ≤ g.top +
    (PHYSTOP - KERNBASE)
  · right
    have top : s.brk + headerSize * nu ≤ g.top + 2 ^ 27 := by
      have room := granted.2
      unfold PHYSTOP KERNBASE headerSize at room
      unfold headerSize
      omega
    have whole : ((s.brk : Int) + (nu * headerSize : Nat)).toNat = s.brk + headerSize * nu := by
      rw [Nat.mul_comm headerSize nu]
      omega
    have more : s.sbrk g grants (toInt (nu * headerSize)) =
        (some s.brk, { s with brk := s.brk + headerSize * nu, sbrks := s.sbrks + 1 }) := by
      rw [size, Heap.sbrk, if_pos positive, if_pos granted, whole]
    obtain ⟨s', l, N, r, run, large, fewer, -, tiled'⟩ := free_spec (tiled.grow (s.sbrks + 1) enough.2.1 top)
      (by rw [tiled.ended])
    refine ⟨s', l, N, r, ?_, ?_, le_trans enough.1 large, by simpa using fewer, tiled'⟩
    · rw [Heap.morecore]
      simp only [← hnu, more, run]
      rfl
    · have base := g.positive
      rcases List.mem_cons.mp tiled'.rover with here | inside
      · omega
      · have start := base_lt g
        have bound := (frees_bounds tiled'.positive inside).1
        omega
  · left
    have refused : s.sbrk g grants (toInt (nu * headerSize)) = (none, { s with sbrks := s.sbrks + 1 }) := by
      rw [size, Heap.sbrk, if_pos positive, if_neg granted]
    refine ⟨{ s with sbrks := s.sbrks + 1 }, ?_, tiled.ended, tiled.limit, tiled.positive,
      tiled.merged, tiled.headers,
      tiled.first, tiled.circle, tiled.rover, tiled.handed, tiled.asked⟩
    rw [Heap.morecore]
    simp only [← hnu, refused]

/-- `malloc` ends: it gives out a block, or 0 if there is no more memory. -/
theorem malloc_spec (grants : Nat → Bool) (tiled : Tiled g s given tiles)
    (small : headerSize * ((nbytes + headerSize - 1) / headerSize + 1) < 2 ^ 31) : ∃ ap s' tiles',
      s.malloc g grants nbytes = some (ap, s') ∧
      Tiled g s' (if ap = 0 then given else (ap, nbytes) :: given) tiles' := by
  have base := g.positive
  have units : unitsFor nbytes = (nbytes + headerSize - 1) / headerSize + 1 := by
    unfold unitsFor headerSize at *
    omega
  have some : 0 < unitsFor nbytes := by
    rw [units]
    exact Nat.succ_pos _
  have asked : nbytes + headerSize ≤ headerSize * unitsFor nbytes := by
    rw [units]
    unfold headerSize
    omega
  have begun : s.freep ≠ 0 := by
    rcases List.mem_cons.mp tiled.rover with here | inside
    · omega
    · have start := base_lt g
      have bound := (frees_bounds tiled.positive inside).1
      omega
  have few := tiled.few
  unfold Heap.malloc
  rw [Heap.start, if_neg begun]
  dsimp only
  rcases mallocLoop_spec grants tiled some asked (show tiles.length < 2 * s.rounds g by omega) with
    ⟨ap, s', tiles', run, valid, tiled'⟩ | ⟨-, rest, count, run⟩
  · exact ⟨ap, s', tiles', run, by rwa [if_neg valid]⟩
  rw [run, more]
  rcases morecore_spec grants tiled (units ▸ small) with
    ⟨s', run', tiled'⟩ | ⟨s', l, N, r, run', valid, large, fewer, tiled'⟩
  · rw [run']
    exact ⟨0, s', tiles, rfl, by rwa [if_pos rfl]⟩
  rw [run']
  simp only [bind, Option.bind, valid, if_false]
  -- the second time around there is a block
  have length : (l ++ (⟨N, none⟩ : Tile) :: r).length = l.length + r.length + 1 := by simp; omega
  rcases mallocLoop_spec grants tiled' some asked
    (show (l ++ (⟨N, none⟩ : Tile) :: r).length < rest by omega) with
    ⟨ap, s'', tiles', run'', valid', tiled''⟩ | ⟨short, -⟩
  · exact ⟨ap, s'', tiles', run'', by rwa [if_neg valid']⟩
  · have member : stop g.top l ∈ frees g.top (l ++ ⟨N, none⟩ :: r) := by
      rw [frees_append, frees_free]
      exact List.mem_append_right _ (List.mem_cons_self ..)
    have size := tiled'.headers (stop g.top l, ⟨N, none⟩) (by simp [placed_append, placed])
    have less := short _ member
    rw [size] at less
    exact absurd less (Nat.not_lt.mpr large)

end Malloc

end Xv6.Umalloc
