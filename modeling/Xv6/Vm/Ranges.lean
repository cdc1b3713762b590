import Xv6.Vm.Copyin

namespace Xv6.Vm
open Function

namespace Pagetable

/-- Every mapped page has its tables, and an address of memory. -/
structure WellFormed (pt : Pagetable) : Prop where
  mid {p pte} : pt.leaf p = some pte → pt.mid (p / 2 ^ 18) ≠ none
  low {p pte} : pt.leaf p = some pte → pt.low (p / 2 ^ 9) ≠ none
  frame {p pte} : pt.leaf p = some pte → pte.pa ≠ 0

/-- An address that a user program may read. -/
def Readable (pt : Pagetable) (va : Nat) : Prop :=
  va < MAXVA ∧ ∃ pte, pt.leaf (va / PGSIZE) = some pte ∧ pte.perm.u = true

/-- An address that a user program may write. -/
def Writable (pt : Pagetable) (va : Nat) : Prop :=
  va < MAXVA ∧ ∃ pte, pt.leaf (va / PGSIZE) = some pte ∧ pte.perm.u = true ∧ pte.perm.w = true

end Pagetable

section Ranges

variable {pt : Pagetable} {s s' : Memory} {va a k len pa : Nat} {src dst : Bytes}

theorem PGROUNDDOWN_below : MAXVA ≤ PGROUNDDOWN va ↔ MAXVA ≤ va := by
  unfold PGROUNDDOWN MAXVA PGSIZE
  omega

/-- The entries above that of an address. -/
theorem PGROUNDDOWN_tables (va : Nat) : PGROUNDDOWN va / 2 ^ 30 = va / PGSIZE / 2 ^ 18 ∧
    PGROUNDDOWN va / 2 ^ 21 = va / PGSIZE / 2 ^ 9 := by
  unfold PGROUNDDOWN PGSIZE
  omega

theorem Pagetable.WellFormed.tables (wf : pt.WellFormed) {pte : Pte}
    (leaf : pt.leaf (va / PGSIZE) = some pte) (below : va < MAXVA) :
    ¬(MAXVA ≤ PGROUNDDOWN va ∨ pt.mid (PGROUNDDOWN va / 2 ^ 30) = none ∨
      pt.low (PGROUNDDOWN va / 2 ^ 21) = none) := by
  obtain ⟨upper, lower⟩ := PGROUNDDOWN_tables va
  rw [upper, lower, PGROUNDDOWN_below]
  rintro (above | missing | missing)
  · omega
  · exact wf.mid leaf missing
  · exact wf.low leaf missing

theorem Pagetable.WellFormed.target_iff (wf : pt.WellFormed) : pt.target va = some pa ↔
    va < MAXVA ∧ ∃ pte, pt.leaf (va / PGSIZE) = some pte ∧ pte.perm.u = true ∧
    pte.perm.w = true ∧ pte.pa = pa := by
  constructor
  · intro found
    obtain ⟨below, pte, leaf, user, frame⟩ := Pagetable.target_some found
    have writable : pte.perm.w = true := by
      unfold Pagetable.target at found
      simp only [PGROUNDDOWN_div] at found
      rw [if_neg (wf.tables leaf below), leaf] at found
      exact (Option.ite_none_right_eq_some.mp found).1.1
    exact ⟨below, pte, leaf, user, writable, frame⟩
  · rintro ⟨below, pte, leaf, user, writable, rfl⟩
    unfold Pagetable.target
    simp only [PGROUNDDOWN_div]
    rw [if_neg (wf.tables leaf below), leaf]
    exact if_pos ⟨writable, user, wf.frame leaf⟩

theorem Pagetable.WellFormed.source_iff (wf : pt.WellFormed) : pt.source va = some pa ↔
    va < MAXVA ∧ ∃ pte, pt.leaf (va / PGSIZE) = some pte ∧ pte.perm.u = true ∧ pte.pa = pa := by
  unfold Pagetable.source
  simp only [PGROUNDDOWN_div]
  constructor
  · intro found
    obtain ⟨tables, rest⟩ := Option.ite_none_left_eq_some.mp found
    cases leaf : pt.leaf (va / PGSIZE) with
    | none =>
      rw [leaf] at rest
      cases rest
    | some pte =>
      rw [leaf] at rest
      obtain ⟨⟨user, -⟩, frame⟩ := Option.ite_none_right_eq_some.mp rest
      rw [PGROUNDDOWN_below] at tables
      exact ⟨by omega, pte, rfl, user, Option.some.inj frame⟩
  · rintro ⟨below, pte, leaf, user, rfl⟩
    rw [if_neg (wf.tables leaf below), leaf]
    exact if_pos ⟨user, wf.frame leaf⟩

theorem Pagetable.WellFormed.target_ne_none (wf : pt.WellFormed) : pt.target va ≠ none ↔ pt.Writable va := by
  rw [Option.ne_none_iff_exists']
  constructor
  · rintro ⟨pa, found⟩
    obtain ⟨below, pte, leaf, user, writable, -⟩ := wf.target_iff.mp found
    exact ⟨below, pte, leaf, user, writable⟩
  · rintro ⟨below, pte, leaf, user, writable⟩
    exact ⟨pte.pa, wf.target_iff.mpr ⟨below, pte, leaf, user, writable, rfl⟩⟩

theorem Pagetable.WellFormed.source_ne_none (wf : pt.WellFormed) : pt.source va ≠ none ↔ pt.Readable va := by
  rw [Option.ne_none_iff_exists']
  constructor
  · rintro ⟨pa, found⟩
    obtain ⟨below, pte, leaf, user, -⟩ := wf.source_iff.mp found
    exact ⟨below, pte, leaf, user⟩
  · rintro ⟨below, pte, leaf, user⟩
    exact ⟨pte.pa, wf.source_iff.mpr ⟨below, pte, leaf, user, rfl⟩⟩

/-- `copyout` copies all bytes exactly if the whole range is below MAXVA and user programs may write it, else
the bytes before the first address where this is not so; `copyin` likewise for reading. Only the places of the
copied bytes change in memory, all in pages that user programs may write. What `copyout` has written is what
`copyin` reads, if the pages of the range are in different pages of memory. -/
theorem copy_exact (wf : pt.WellFormed) (va len : Nat) (src dst : Bytes) (a : Nat) (s : Memory) :
    (∃ k s', k ≤ len ∧ copyout pt va src len s = .ok (if k = len then 0 else -1, s') ∧
      (k = len ↔ ∀ x < len, pt.Writable (va + x)) ∧ (∀ x < k, pt.Writable (va + x)) ∧
      Placed pt va k src s s' ∧
      ∀ pa o, (∀ x < len, ∀ pte, pt.leaf ((va + x) / PGSIZE) = some pte → pte.perm.u = true → pte.pa ≠ pa) →
        s'.mem pa o = s.mem pa o) ∧
    (∃ k, k ≤ len ∧ copyin pt dst a va len s =
      .ok ((if k = len then 0 else -1, dst.splice a k (pt.bytes s va)), s) ∧
      (k = len ↔ ∀ x < len, pt.Readable (va + x)) ∧ ∀ x < k, pt.Readable (va + x)) ∧
    ((∀ x < len, ∀ y < len, ∀ pte pte', pt.leaf ((va + x) / PGSIZE) = some pte →
      pt.leaf ((va + y) / PGSIZE) = some pte' →
        pte.pa = pte'.pa → (va + x) / PGSIZE = (va + y) / PGSIZE) →
      ∀ s', copyout pt va src len s = .ok (0, s') → copyin pt dst a va len s' =
      .ok ((0, dst.splice a len src), s')) := by
  obtain ⟨k, s', bound, run, reach, stop, placed⟩ := copyout_placed pt va src len s
  have writable : ∀ x < k, pt.Writable (va + x) := fun x below => wf.target_ne_none.mp (reach x below)
  have all : k = len ↔ ∀ x < len, pt.Writable (va + x) := by
    constructor
    · rintro rfl
      exact writable
    · intro every
      by_contra part
      exact wf.target_ne_none.mpr (every k (by omega)) (stop (by omega))
  refine ⟨⟨k, s', bound, run, all, writable, placed, fun pa o apart =>
    placed.others fun x below found => ?_⟩, ?_, ?_⟩
  · obtain ⟨-, pte, leaf, user, -, frame⟩ := wf.target_iff.mp found
    exact absurd frame (apart x (by omega) pte leaf user)
  · obtain ⟨k, bound, run, reach, stop⟩ := copyin_spec pt dst a va len s
    have readable : ∀ x < k, pt.Readable (va + x) := fun x below => wf.source_ne_none.mp (reach x below)
    refine ⟨k, bound, run, ⟨?_, fun every => ?_⟩, readable⟩
    · rintro rfl
      exact readable
    · by_contra part
      exact wf.source_ne_none.mpr (every k (by omega)) (stop (by omega))
  · intro injective s'' run'
    rw [run] at run'
    obtain ⟨value, rfl⟩ := Prod.mk.inj (Except.ok.inj run')
    obtain rfl : k = len := by
      by_contra part
      rw [if_neg part] at value
      cases value
    obtain ⟨j, bound', read, reach', stop'⟩ := copyin_spec pt dst a va k s'
    have whole : j = k := by
      by_contra part
      obtain ⟨below, pte, leaf, user, -⟩ := writable j (by omega)
      exact wf.source_ne_none.mpr ⟨below, pte, leaf, user⟩ (stop' (by omega))
    subst whole
    rw [read, if_pos rfl, splice_congr fun x below => ?_]
    obtain ⟨pa, found⟩ := Option.ne_none_iff_exists'.mp (reach x below)
    obtain ⟨inside, pte, leaf, user, -, frame⟩ := wf.target_iff.mp found
    rw [Pagetable.bytes, wf.source_iff.mpr ⟨inside, pte, leaf, user, frame⟩]
    refine placed.last below found fun y later less found' place => ?_
    obtain ⟨-, pte', leaf', -, -, frame'⟩ := wf.target_iff.mp found'
    have page := injective y less x below pte' pte leaf' leaf (frame'.trans frame.symm)
    have same : va + y = va + x := by rw [← Nat.div_add_mod (va + y) PGSIZE, page, place, Nat.div_add_mod]
    omega

end Ranges

/-- A page table with one page, which a user program may write. -/
def single : Pagetable := ⟨0x3000, fun _ => some 0x4000, fun _ => some 0x5000, fun p =>
  if p = 1 then some ⟨0x6000, ⟨true, true, false, true⟩⟩ else none⟩

theorem single_wellFormed : single.WellFormed := by
  refine ⟨fun _ => Option.some_ne_none _, fun _ => Option.some_ne_none _, fun {p pte} leaf => ?_⟩
  obtain ⟨-, frame⟩ := Option.ite_none_right_eq_some.mp leaf
  rw [← Option.some.inj frame]
  decide

/-- The last two bytes of the page. -/
theorem copy_exact_single : ∃ s s', copyout single 0x1FFE (fun _ => 7) 2 s = .ok (0, s') ∧
    copyin single (fun _ => 0) 0 0x1FFE 2 s' = .ok ((0, Bytes.splice (fun _ => 0) 0 2 fun _ => 7), s') := by
  let s : Memory := ⟨KERNBASE, KERNBASE, fun _ _ => 0, [], fun _ _ => false⟩
  obtain ⟨⟨k, s', -, run, all, -⟩, -, again⟩ :=
    copy_exact single_wellFormed 0x1FFE 2 (fun _ => 7) (fun _ => 0) 0 s
  have page {x : Nat} (below : x < 2) : (0x1FFE + x) / PGSIZE = 1 := by
    unfold PGSIZE
    omega
  have writable : ∀ x < 2, single.Writable (0x1FFE + x) := fun x below => by
    refine ⟨by unfold MAXVA; omega, ⟨0x6000, ⟨true, true, false, true⟩⟩, ?_, rfl, rfl⟩
    rw [page below]
    rfl
  rw [if_pos (all.mpr writable)] at run
  exact ⟨s, s', run, again (fun x below y below' _ _ _ _ _ => (page below).trans (page below').symm) s' run⟩

end Xv6.Vm
