import Xv6.Umalloc.Runs

/-! `malloc` with every size that its parameter can have. -/

namespace Xv6.Umalloc
open Vm (KERNBASE PHYSTOP)

/-- The heaps in which the loop of `malloc` calls `morecore`. -/
def Heap.asks (g : Program) (grants : Nat → Bool) (nunits : Nat) : Nat → Nat → Heap → List Heap
  | 0, _, _ => []
  | fuel + 1, prevp, s =>
    let p := s.ptr prevp
    if nunits ≤ (s.mem p).size then []
    else if p = s.freep then
      s :: match s.morecore g grants nunits with
        | none => []
        | some (p, s) => if p = 0 then [] else asks g grants nunits fuel p s
    else asks g grants nunits fuel p s

/-- If `sbrk` answers `morecore` with an address, the process has not lost memory, and the whole block that
`morecore` makes there is memory that it has got. -/
def Heap.Provided (g : Program) (grants : Nat → Bool) (s : Heap) (nu : Nat) : Prop :=
  let nu := if nu < 4096 then 4096 else nu
  match s.sbrk g grants (toInt (nu * headerSize)) with
  | (none, _) => True
  | (some hp, s') => s.brk ≤ s'.brk ∧ s.brk ≤ hp ∧ plus hp nu ≤ s'.brk

/-- `malloc` ends with 0 or with so many bytes of the memory that the process has got from `sbrk`, and has
kept what there was. -/
def MallocSound (g : Program) (grants : Nat → Bool) (s : Heap) (nbytes : Nat) : Prop :=
  (∃ ap s', s.malloc g grants nbytes = some (ap, s') ∧ s.brk ≤ s'.brk ∧
    (ap ≠ 0 → g.top ≤ ap ∧ ap + nbytes ≤ s'.brk)) ∧
    ∀ t ∈ (s.start g).asks g grants (unitsFor nbytes) (2 * (s.start g).rounds g) (s.start g).freep,
      t.Provided g grants (unitsFor nbytes)

section Limits

variable {g : Program} {grants : Nat → Bool} {s s' : Heap} {given : List (Nat × Nat)} {tiles l r : List Tile}
  {n m nunits nbytes prevp fuel ap : Nat} {others : List Nat}

/-- Once around the list, the loop has found a block, or calls `morecore` with the heap unchanged. -/
theorem asks_walk (g : Program) (grants : Nat → Bool) (nunits : Nat) (path : Trail s.ptr prevp others s.freep)
    (apart : s.freep ∉ others) (enough : others.length < fuel) :
    (∃ q ∈ others ++ [s.freep], nunits ≤ (s.mem q).size) ∧ s.asks g grants nunits fuel prevp = [] ∨
    ∃ rest, fuel = rest + others.length + 1 ∧ s.asks g grants nunits fuel prevp =
      s :: match s.morecore g grants nunits with
        | none => []
        | some (p, s) => if p = 0 then [] else s.asks g grants nunits rest p := by
  induction others generalizing prevp fuel with
  | nil =>
    obtain ⟨fuel, rfl⟩ := Nat.exists_eq_succ_of_ne_zero (by omega : fuel ≠ 0)
    have leads := Trail.nil_iff.mp path
    by_cases fits : nunits ≤ (s.mem (s.ptr prevp)).size
    · exact .inl ⟨⟨s.freep, List.mem_singleton_self _, leads ▸ fits⟩, by rw [Heap.asks, if_pos fits]⟩
    · exact .inr ⟨fuel, rfl, by rw [Heap.asks, if_neg fits, if_pos leads]⟩
  | cons y others ih =>
    obtain ⟨fuel, rfl⟩ := Nat.exists_eq_succ_of_ne_zero (by omega : fuel ≠ 0)
    obtain ⟨leads, rest⟩ := Trail.cons_iff.mp path
    by_cases fits : nunits ≤ (s.mem (s.ptr prevp)).size
    · exact .inl ⟨⟨y, List.mem_cons_self, leads ▸ fits⟩, by rw [Heap.asks, if_pos fits]⟩
    have further : s.ptr prevp ≠ s.freep := fun same => apart (same ▸ leads ▸ List.mem_cons_self ..)
    have step : s.asks g grants nunits (fuel + 1) prevp = s.asks g grants nunits fuel y := by
      rw [Heap.asks, if_neg fits, if_neg further, leads]
    have short : others.length < fuel := by
      rw [List.length_cons] at enough
      omega
    rw [step]
    rcases ih rest (fun member => apart (List.mem_cons_of_mem y member)) short with
      ⟨⟨q, member, large⟩, none⟩ | ⟨left, count, asks⟩
    · exact .inl ⟨⟨q, List.mem_cons_of_mem y member, large⟩, none⟩
    · exact .inr ⟨left, by rw [count, List.length_cons]; omega, asks⟩

/-- From the rover on, `morecore` is not called if a free block is large enough, and is called if none is. -/
theorem asks_spec (grants : Nat → Bool) (tiled : Tiled g s given tiles) (some : 0 < nunits)
    (enough : tiles.length < fuel) :
    (∃ x ∈ frees g.top tiles, nunits ≤ (s.mem x).size) ∧ s.asks g grants nunits fuel s.freep = [] ∨
    ∃ rest, fuel ≤ rest + tiles.length + 1 ∧ s.asks g grants nunits fuel s.freep =
      s :: match s.morecore g grants nunits with
        | none => []
        | .some (p, s) => if p = 0 then [] else s.asks g grants nunits rest p := by
  obtain ⟨others, way, perm⟩ := tiled.circle.around tiled.rover
  have same := perm.length_eq
  rw [List.length_cons, List.length_cons] at same
  have few := frees_length g.top tiles
  have apart : s.freep ∉ others := (List.nodup_cons.mp (perm.nodup_iff.mpr tiled.nodup)).1
  rcases asks_walk g grants nunits way apart (show others.length < fuel by omega) with
    ⟨⟨q, member, large⟩, none⟩ | ⟨rest, count, asks⟩
  · have place := perm.mem_iff.mp ((List.perm_append_singleton s.freep others).mem_iff.mp member)
    refine .inl ⟨⟨q, (List.mem_cons.mp place).resolve_left fun base => ?_, large⟩, none⟩
    rw [base, tiled.first] at large
    omega
  · exact .inr ⟨rest, by omega, asks⟩

theorem free_brk (run : s.free g ap = some s') : s'.brk = s.brk := by
  obtain ⟨p, -, result⟩ := Option.bind_eq_some_iff.mp run
  rw [← Option.some.inj result]
  show ((s.joinUpper (ap - headerSize) p).joinLower (ap - headerSize) p).brk = s.brk
  rw [joinLower_brk, joinUpper_brk]

theorem take_brk (s : Heap) (prevp p nunits : Nat) : (s.take prevp p nunits).2.brk = s.brk := by
  unfold Heap.take
  split <;> rfl

theorem morecore_brk {p : Nat} (provided : s.Provided g grants nunits)
    (run : s.morecore g grants nunits = some (p, s')) :
    s.brk ≤ s'.brk := by
  obtain ⟨nu, hnu⟩ : ∃ nu, nu = if nunits < 4096 then 4096 else nunits := ⟨_, rfl⟩
  unfold Heap.morecore at run
  unfold Heap.Provided at provided
  simp only [← hnu] at run provided
  split at run
  next s₁ refused =>
    obtain ⟨-, rfl⟩ := Prod.mk.inj (Option.some.inj run)
    unfold Heap.sbrk at refused
    split at refused
    · split at refused
      · cases refused
      · rw [← (Prod.mk.inj refused).2]
    · cases refused
  next hp s₁ given =>
    rw [given] at provided
    obtain ⟨s₂, freed, result⟩ := Option.bind_eq_some_iff.mp run
    obtain ⟨-, rfl⟩ := Prod.mk.inj (Option.some.inj result)
    rw [free_brk freed]
    exact provided.1

/-- The process keeps its memory if every call of `morecore` gets what it asks for. -/
theorem mallocLoop_brk (run : s.mallocLoop g grants nunits fuel prevp = some (ap, s'))
    (provided : ∀ t ∈ s.asks g grants nunits fuel prevp, t.Provided g grants nunits) : s.brk ≤ s'.brk := by
  induction fuel generalizing s prevp with
  | zero => cases run
  | succ fuel ih =>
    rw [Heap.mallocLoop] at run
    rw [Heap.asks] at provided
    by_cases fits : nunits ≤ (s.mem (s.ptr prevp)).size
    · rw [if_pos fits] at run
      rw [← take_brk s prevp (s.ptr prevp) nunits, Option.some.inj run]
    · rw [if_neg fits] at run provided
      by_cases back : s.ptr prevp = s.freep
      · rw [if_pos back] at run provided
        obtain ⟨⟨p, s₁⟩, more, rest⟩ := Option.bind_eq_some_iff.mp run
        have grown := morecore_brk (provided s List.mem_cons_self) more
        rw [more] at provided
        dsimp only at rest provided
        by_cases zero : p = 0
        · rw [if_pos zero] at rest
          rwa [← (Prod.mk.inj (Option.some.inj rest)).2]
        · rw [if_neg zero] at rest provided
          exact Nat.le_trans grown (ih rest fun t member => provided t (List.mem_cons_of_mem _ member))
      · rw [if_neg back] at run provided
        exact ih run provided

/-- A size below the limit of `sbrk` is asked for and got in full. -/
theorem provided_small (small : headerSize * nunits < 2 ^ 31) : s.Provided g grants nunits := by
  obtain ⟨nu, hnu⟩ : ∃ nu, nu = if nunits < 4096 then 4096 else nunits := ⟨_, rfl⟩
  have bounds : 0 < nu ∧ nu * headerSize < 2 ^ 31 := by
    rw [hnu]
    unfold headerSize at *
    split <;> omega
  unfold Heap.Provided
  simp only [← hnu]
  rw [toInt_of_lt bounds.2, Heap.sbrk]
  have positive : (0 : Int) < (nu * headerSize : Nat) := by
    unfold headerSize
    omega
  rw [if_pos positive]
  split
  next => trivial
  next hp s₁ given =>
    split at given
    · cases given
      dsimp only
      unfold plus headerSize
      omega
    · cases given

/-- A size from the limit of `sbrk` on becomes an argument that is too small, and if it is not refused,
`morecore` gets less than it asks for. -/
theorem provided_large (large : 2 ^ 31 ≤ headerSize * nunits) (bound : headerSize * nunits ≤ 2 ^ 32 + 16) :
    s.Provided g grants nunits ↔ headerSize * nunits = 2 ^ 32 + 16 ∧
      ¬(grants s.sbrks = true ∧ s.brk + 16 ≤ g.top + (PHYSTOP - KERNBASE)) := by
  have whole : ¬nunits < 4096 := by
    unfold headerSize at large
    omega
  unfold Heap.Provided
  rw [if_neg whole]
  dsimp only
  rw [Nat.mul_comm nunits]
  by_cases most : headerSize * nunits = 2 ^ 32 + 16
  · have sixteen : toInt (headerSize * nunits) = 16 := by
      rw [most]
      rfl
    rw [sixteen, Heap.sbrk, if_pos (by decide)]
    by_cases granted : grants s.sbrks = true ∧ s.brk + 16 ≤ g.top + (PHYSTOP - KERNBASE)
    · rw [if_pos ⟨granted.1, by have room := granted.2; unfold PHYSTOP KERNBASE at *; omega⟩]
      refine iff_of_false (fun provided => ?_) fun holds => holds.2 granted
      have short := provided.2.2
      unfold plus at short
      rw [most] at short
      dsimp only at short
      omega
    · rw [if_neg fun given => granted ⟨given.1, by have room := given.2; unfold PHYSTOP KERNBASE at *; omega⟩]
      exact iff_of_true trivial ⟨most, granted⟩
  · have negative : ¬0 < toInt (headerSize * nunits) := by
      unfold toInt
      unfold headerSize at *
      split <;> omega
    rw [Heap.sbrk, if_neg negative]
    refine iff_of_false (fun provided => ?_) fun holds => most holds.1
    have short := provided.2.2
    unfold plus at short
    dsimp only at short
    split at short <;> omega

/-- No free block is as large as that. -/
theorem Tiled.no_large (tiled : Tiled g s given tiles) (large : 2 ^ 31 ≤ headerSize * nunits) :
    ¬∃ x ∈ frees g.top tiles, nunits ≤ (s.mem x).size := by
  rintro ⟨x, member, fits⟩
  obtain ⟨n, place⟩ := mem_frees.mp member
  have size := tiled.headers _ place
  have bounds := placed_bounds place
  have ended := tiled.ended
  have limit := tiled.limit
  unfold plus at bounds
  unfold headerSize at *
  dsimp only at size bounds
  omega

theorem Tiled.begun (tiled : Tiled g s given tiles) : s.start g = s := by
  have base := g.positive
  refine if_neg fun zero => ?_
  rcases List.mem_cons.mp tiled.rover with here | inside
  · omega
  · have start := base_lt g
    have bound := (frees_bounds tiled.positive inside).1
    omega

/-- The bytes of a pointer that has been given out. -/
theorem Tiled.inside (tiled : Tiled g s ((ap, nbytes) :: given) tiles) : g.top ≤ ap ∧ ap + nbytes ≤ s.brk := by
  obtain ⟨l, n, r, rfl, -, place⟩ := tiled.tile List.mem_cons_self
  have asked := tiled.asked ⟨n, some nbytes⟩ (by simp) nbytes rfl
  have ended := tiled.ended
  rw [stop_append, stop_cons] at ended
  have reach : g.top ≤ stop g.top l := Nat.le_add_right ..
  have rest : plus (stop g.top l) n ≤ stop (plus (stop g.top l) n) r := Nat.le_add_right ..
  rw [ended] at rest
  dsimp only at asked place
  unfold plus at *
  unfold headerSize at *
  omega

theorem sound_small (tiled : Tiled g s given tiles)
    (units : unitsFor nbytes = (nbytes + headerSize - 1) / headerSize + 1)
    (small : headerSize * unitsFor nbytes < 2 ^ 31) : MallocSound g grants s nbytes := by
  have provided : ∀ t ∈ (s.start g).asks g grants (unitsFor nbytes) (2 *
    (s.start g).rounds g) (s.start g).freep,
      t.Provided g grants (unitsFor nbytes) := fun t _ => provided_small small
  obtain ⟨ap, s', tiles', run, tiled'⟩ := malloc_spec grants tiled (units ▸ small)
  refine ⟨⟨ap, s', run, ?_, fun valid => ?_⟩, provided⟩
  · have kept := mallocLoop_brk run provided
    rwa [tiled.begun] at kept
  · rw [if_neg valid] at tiled'
    exact tiled'.inside

theorem sound_large (tiled : Tiled g s given tiles)
    (units : unitsFor nbytes = (nbytes + headerSize - 1) / headerSize + 1)
    (large : 2 ^ 31 ≤ headerSize * unitsFor nbytes) (bound : headerSize * unitsFor nbytes ≤ 2 ^ 32 + 16) :
    MallocSound g grants s nbytes ↔ headerSize * unitsFor nbytes = 2 ^ 32 + 16 ∧
      ¬(grants s.sbrks = true ∧ s.brk + 16 ≤ g.top + (PHYSTOP - KERNBASE)) := by
  have some : 0 < unitsFor nbytes := by
    rw [units]
    exact Nat.succ_pos _
  have few := tiled.few
  have enough : tiles.length < 2 * s.rounds g := by omega
  obtain ⟨rest, -, asks⟩ := (asks_spec grants tiled some enough).resolve_left fun found =>
    tiled.no_large large found.1
  rw [← provided_large large bound]
  constructor
  · intro sound
    refine sound.2 s ?_
    rw [tiled.begun, asks]
    exact List.mem_cons_self
  · intro provided
    obtain ⟨most, refused⟩ := (provided_large large bound).mp provided
    have sixteen : toInt (unitsFor nbytes * headerSize) = 16 := by
      rw [Nat.mul_comm, most]
      rfl
    have more : s.morecore g grants (unitsFor nbytes) = .some (0, { s with sbrks := s.sbrks + 1 }) := by
      have whole : ¬unitsFor nbytes < 4096 := by
        unfold headerSize at large
        omega
      have none : s.sbrk g grants 16 = (none, { s with sbrks := s.sbrks + 1 }) := by
        rw [Heap.sbrk, if_pos (by decide),
          if_neg fun given => refused ⟨given.1, by have room := given.2; unfold PHYSTOP KERNBASE at *; omega⟩]
      rw [Heap.morecore, if_neg whole]
      dsimp only
      rw [sixteen, none]
    have all : ∀ t ∈ s.asks g grants (unitsFor nbytes) (2 * s.rounds g) s.freep,
      t.Provided g grants (unitsFor nbytes) := by
      rw [asks, more]
      intro t member
      rw [List.mem_singleton.mp member]
      exact provided
    have result : ∃ ap s', s.mallocLoop g grants (unitsFor nbytes) (2 * s.rounds g) s.freep = .some (ap, s') ∧
        (ap ≠ 0 → g.top ≤ ap ∧ ap + nbytes ≤ s'.brk) := by
      have asked : nbytes + headerSize ≤ headerSize * unitsFor nbytes := by
        rw [units]
        unfold headerSize
        omega
      rcases mallocLoop_spec grants tiled some asked enough with ⟨ap, s', tiles', run, -,
        tiled'⟩ | ⟨-, rest, -, run⟩
      · exact ⟨ap, s', run, fun _ => tiled'.inside⟩
      · rw [Xv6.Umalloc.more, more] at run
        exact ⟨0, _, run, fun valid => absurd rfl valid⟩
    obtain ⟨ap, s', run, inside⟩ := result
    rw [MallocSound, Heap.malloc, tiled.begun]
    exact ⟨⟨ap, s', run, mallocLoop_brk run all, inside⟩, all⟩

theorem Fresh.sound (fresh : Fresh g s given) : MallocSound g grants s nbytes ↔
    MallocSound g grants (s.start g) nbytes := by
  have brk : (s.start g).brk = s.brk := by
    rw [Heap.start, if_pos fresh.1]
    rfl
  rw [MallocSound, MallocSound, fresh.malloc, fresh.start.begun, brk]

/-- From any heap in order, `malloc` is sound for sizes below 2^31 - 31. Beyond, the argument of `sbrk`
overflows, and only a size that becomes 16 there and is refused gives 0. -/
theorem malloc_sound_iff (inv : Fresh g s given ∨ ∃ tiles, Tiled g s given tiles) (nbytes : UInt32) :
    MallocSound g grants s nbytes.toNat ↔ nbytes.toNat ≤ 2 ^ 31 - 32 ∨
      2 ^ 32 - 15 ≤ nbytes.toNat ∧ ¬(grants s.sbrks = true ∧ s.brk + 16 ≤ g.top + (PHYSTOP - KERNBASE)) := by
  have bound := nbytes.toNat_lt
  have units : unitsFor nbytes.toNat = (nbytes.toNat + headerSize - 1) / headerSize + 1 := by
    unfold unitsFor headerSize
    omega
  have ordered : ∀ {t : Heap} {tiles}, Tiled g t given tiles → (MallocSound g grants t nbytes.toNat ↔
      nbytes.toNat ≤ 2 ^ 31 - 32 ∨
        2 ^ 32 - 15 ≤ nbytes.toNat ∧ ¬(grants t.sbrks = true ∧ t.brk + 16 ≤ g.top +
        (PHYSTOP - KERNBASE))) := by
    intro t tiles tiled
    by_cases small : nbytes.toNat ≤ 2 ^ 31 - 32
    · refine iff_of_true (sound_small tiled units ?_) (.inl small)
      rw [units]
      unfold headerSize
      omega
    · rw [sound_large tiled units (by rw [units]; unfold headerSize; omega)
        (by rw [units]; unfold headerSize; omega), units,
        or_iff_right small]
      refine and_congr_left fun _ => ?_
      unfold headerSize
      omega
  rcases inv with fresh | ⟨tiles, tiled⟩
  · have same : (s.start g).sbrks = s.sbrks ∧ (s.start g).brk = s.brk := by
      rw [Heap.start, if_pos fresh.1]
      exact ⟨rfl, rfl⟩
    rw [fresh.sound, ordered fresh.start, same.1, same.2]
  · exact ordered tiled

/-- Blocks have been given out and freed, and `sbrk` gives no more memory. -/
theorem malloc_sound_reused : ∃ s, reused = some ((69616, 69488, 69648), s) ∧
    MallocSound onePage twice s 1000 ∧
    MallocSound onePage twice s 4294967290 := by
  obtain ⟨s, done, sbrks, run⟩ := reused_run
  have refused : ¬(twice s.sbrks = true ∧ s.brk + 16 ≤ onePage.top + (PHYSTOP - KERNBASE)) := by
    rw [sbrks]
    exact fun given => absurd given.1 (by decide)
  exact ⟨s, done, (malloc_sound_iff run.tiled 1000).mpr (.inl (by decide)),
    (malloc_sound_iff run.tiled 4294967290).mpr (.inr ⟨by decide, refused⟩)⟩

/-- When the first call has left the end of the memory inside a page, a call for two gigabytes makes a block
there of memory that the process does not have. -/
theorem malloc_beyond : ∃ s s', zeroed.malloc onePage (fun _ => true) 65536 = some (4112, s) ∧
    (∃ tiles, Tiled onePage s [(4112, 65536)] tiles) ∧ s.malloc onePage (fun _ => true) 2147483617 =
    some (69664, s') ∧
    s'.brk = 69648 ∧ ¬MallocSound onePage (fun _ => true) s 2147483617 := by
  have both : ((zeroed.malloc onePage (fun _ => true) 65536).bind fun first =>
      (first.2.malloc onePage (fun _ => true) 2147483617).map fun second =>
      (first.1, second.1, second.2.brk)) =
        some (4112, 69664, 69648) := by decide +kernel
  obtain ⟨⟨ap, s⟩, first, rest⟩ := Option.bind_eq_some_iff.mp both
  obtain ⟨⟨ap', s'⟩, second, values⟩ := Option.map_eq_some_iff.mp rest
  obtain ⟨rfl, rfl, brk⟩ : ap = 4112 ∧ ap' = 69664 ∧ s'.brk = 69648 :=
    by simpa only [Prod.mk.injEq] using values
  have fresh : Fresh onePage zeroed [] := ⟨rfl, rfl, rfl⟩
  have small : headerSize * ((65536 + headerSize - 1) / headerSize + 1) < 2 ^ 31 := by decide
  obtain ⟨_, _, tiles, run, tiled⟩ := malloc_spec (fun _ => true) fresh.start small
  obtain ⟨rfl, rfl⟩ := Prod.mk.inj (Option.some.inj (run.symm.trans ((fresh.malloc 65536).symm.trans first)))
  refine ⟨_, s', first, ⟨tiles, tiled⟩, second, brk, fun sound => ?_⟩
  obtain ⟨⟨ap, t, again, -, inside⟩, -⟩ := sound
  obtain ⟨rfl, rfl⟩ := Prod.mk.inj (Option.some.inj (second.symm.trans again))
  have within := (inside (by decide)).2
  rw [brk] at within
  exact absurd within (by decide)

end Limits

end Xv6.Umalloc
