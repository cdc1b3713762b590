import Xv6.Vm.Copyout

namespace Xv6.Vm
open Function

/-- The loop of `copyin`, which stores to a buffer from `a` on. No more than `len` rounds are made. -/
def copyinLoop (pt : Pagetable) : Nat → Bytes → Nat → Nat → Nat → VmM (Int × Bytes)
  | 0, dst, _, _, _ => pure (0, dst)
  | fuel + 1, dst, a, srcva, len =>
    if len = 0 then pure (0, dst)
    else do
      let va0 := PGROUNDDOWN srcva
      let pa0 ← walkaddr pt va0
      if pa0 = 0 then pure (-1, dst)
      else do
        let n := min (PGSIZE - (srcva - va0)) len
        let s ← get
        copyinLoop pt fuel (dst.splice a n ((s.mem pa0).drop (srcva - va0))) (a + n) (va0 + PGSIZE) (len - n)

def copyin (pt : Pagetable) (dst : Bytes) (a srcva len : Nat) : VmM (Int × Bytes) :=
  copyinLoop pt len dst a srcva len

namespace Pagetable

/-- The page that `copyin` reads from for an address, if there is one that it may read. -/
def source (pt : Pagetable) (va : Nat) : Option Nat :=
  let va0 := PGROUNDDOWN va
  if MAXVA ≤ va0 ∨ pt.mid (va0 / 2 ^ 30) = none ∨ pt.low (va0 / 2 ^ 21) = none then none
  else match pt.leaf (va0 / PGSIZE) with
    | some pte => if pte.perm.u ∧ pte.pa ≠ 0 then some pte.pa else none
    | none => none

/-- The bytes that `copyin` finds from an address on, as far as it may read. -/
def bytes (pt : Pagetable) (s : Memory) (va : Nat) : Bytes := fun x =>
  match pt.source (va + x) with
  | some pa => s.mem pa ((va + x) % PGSIZE)
  | none => 0

/-- The first of `n` bytes from an address on that `copyin` may not read. -/
def bad (pt : Pagetable) (va n : Nat) : Option Nat := (List.range n).find? fun x => pt.source (va + x) = none

end Pagetable

section Copyin

variable {pt : Pagetable} {s : Memory} {va a b k n len fuel : Nat} {dst : Bytes}

theorem Pagetable.source_congr (same : a / PGSIZE = b / PGSIZE) : pt.source a = pt.source b := by
  unfold source PGROUNDDOWN
  rw [same]

theorem bad_spec (found : pt.bad va n = some k) : pt.source (va + k) = none ∧ k < n := by
  refine ⟨?_, List.mem_range.mp (List.mem_of_find?_eq_some found)⟩
  have stop := List.find?_some found
  exact of_decide_eq_true stop

theorem Pagetable.bytes_drop (pt : Pagetable) (s : Memory) (va k : Nat) :
    (pt.bytes s va).drop k = pt.bytes s (va + k) := by
  funext x
  rw [Bytes.drop_apply, bytes, bytes, Nat.add_assoc]

theorem walkaddr_source (pt : Pagetable) (va : Nat) (s : Memory) :
    walkaddr pt (PGROUNDDOWN va) s = .ok ((pt.source va).getD 0, s) := by
  unfold Pagetable.source
  dsimp only
  by_cases inside : MAXVA ≤ PGROUNDDOWN va
  · rw [if_pos (.inl inside), walkaddr, if_pos inside]
    rfl
  by_cases present : pt.mid (PGROUNDDOWN va / 2 ^ 30) ≠ none ∧ pt.low (PGROUNDDOWN va / 2 ^ 21) ≠ none
  · have mapped : ¬(MAXVA ≤ PGROUNDDOWN va ∨ pt.mid (PGROUNDDOWN va / 2 ^ 30) = none ∨
        pt.low (PGROUNDDOWN va / 2 ^ 21) = none) := by tauto
    rw [if_neg mapped, walkaddr_found pt (Nat.lt_of_not_le inside) present.1 present.2]
    cases leaf : pt.leaf (PGROUNDDOWN va / PGSIZE) with
    | none => rfl
    | some pte =>
      by_cases user : pte.perm.u = true ∧ pte.pa ≠ 0
      · simp [user]
      · have zero : (if pte.perm.u = true then pte.pa else 0) = 0 := by
          split
          next u => by_contra some; exact user ⟨u, some⟩
          next => rfl
        simp only [zero, if_neg user]
        rfl
  · have absent : pt.mid (PGROUNDDOWN va / 2 ^ 30) = none ∨ pt.low (PGROUNDDOWN va / 2 ^ 21) = none :=
      by tauto
    rw [if_pos (.inr absent), walkaddr, if_neg inside]
    show (walk pt (PGROUNDDOWN va) false s >>= _) = _
    rw [walk_found pt (Nat.lt_of_not_le inside), decide_eq_false present]
    simp only [bind, Except.bind]
    cases pt.leaf (PGROUNDDOWN va / PGSIZE) with
    | none => rfl
    | some pte => rfl

theorem source_ne_zero {pa : Nat} (found : pt.source va = some pa) : pa ≠ 0 := by
  unfold Pagetable.source at found
  dsimp only at found
  split at found
  · cases found
  · split at found
    · split at found
      next ok =>
        cases found
        exact ok.2
      next => cases found
    · cases found

/-- A round of `copyin`. -/
theorem copyinLoop_round : copyinLoop pt (fuel + 1) dst a va len s =
    if len = 0 then .ok ((0, dst), s)
    else match pt.source va with
      | none => .ok ((-1, dst), s)
      | some pa => copyinLoop pt fuel
          (dst.splice a (min (PGSIZE - va % PGSIZE) len) ((s.mem pa).drop (va % PGSIZE)))
          (a + min (PGSIZE - va % PGSIZE) len) (PGROUNDDOWN va + PGSIZE)
          (len - min (PGSIZE - va % PGSIZE) len) s := by
  rw [copyinLoop]
  by_cases done : len = 0
  · rw [if_pos done, if_pos done]
    rfl
  rw [if_neg done, if_neg done]
  show (walkaddr pt (PGROUNDDOWN va) s >>= _) = _
  rw [walkaddr_source]
  cases found : pt.source va with
  | none => rfl
  | some pa =>
    simp only [bind, Except.bind, Option.getD_some, if_neg (source_ne_zero found), sub_PGROUNDDOWN]
    rfl

/-- Two pieces next to each other. -/
theorem splice_splice (dst src : Bytes) (a k n : Nat) :
    (dst.splice a k src).splice (a + k) n (src.drop k) = dst.splice a (k + n) src := by
  funext x
  by_cases first : a ≤ x ∧ x < a + k
  · rw [Bytes.splice_outside (by omega), Bytes.splice_inside first.1 first.2,
      Bytes.splice_inside first.1 (by omega)]
  by_cases second : a + k ≤ x ∧ x < a + k + n
  · rw [Bytes.splice_inside second.1 second.2, Bytes.splice_inside (by omega) (by omega), Bytes.drop_apply]
    congr 1
    omega
  · rw [Bytes.splice_outside (by omega), Bytes.splice_outside (by omega), Bytes.splice_outside (by omega)]

theorem splice_congr {src src' : Bytes} (same : ∀ x < n, src x = src' x) :
    dst.splice a n src = dst.splice a n src' := by
  funext x
  by_cases inside : a ≤ x ∧ x < a + n
  · rw [Bytes.splice_inside inside.1 inside.2, Bytes.splice_inside inside.1 inside.2, same _ (by omega)]
  · rw [Bytes.splice_outside (by omega), Bytes.splice_outside (by omega)]

/-- `copyin` copies the bytes before the first address that it cannot read. -/
theorem copyin_spec (pt : Pagetable) (dst : Bytes) (a va len : Nat) (s : Memory) :
    ∃ k, k ≤ len ∧ copyin pt dst a va len s =
        .ok ((if k = len then 0 else -1, dst.splice a k (pt.bytes s va)), s) ∧
      (∀ x < k, pt.source (va + x) ≠ none) ∧ (k < len → pt.source (va + k) = none) := by
  suffices ∀ fuel dst a va len, len ≤ fuel → ∃ k, k ≤ len ∧ copyinLoop pt fuel dst a va len s =
        .ok ((if k = len then 0 else -1, dst.splice a k (pt.bytes s va)), s) ∧
      (∀ x < k, pt.source (va + x) ≠ none) ∧ (k < len → pt.source (va + k) = none) from
    this len dst a va len (le_refl len)
  have empty : ∀ (dst : Bytes) a src, dst.splice a 0 src = dst := fun dst a src =>
    funext fun x => Bytes.splice_outside (by omega)
  intro fuel
  induction fuel with
  | zero =>
    intro dst a va len enough
    obtain rfl : len = 0 := by omega
    refine ⟨0, le_refl 0, ?_, fun _ below => absurd below (Nat.not_lt_zero _), fun below =>
      absurd below (Nat.lt_irrefl 0)⟩
    rw [empty]
    rfl
  | succ fuel ih =>
    intro dst a va len enough
    rw [copyinLoop_round]
    by_cases done : len = 0
    · subst done
      refine ⟨0, le_refl 0, ?_, fun _ below => absurd below (Nat.not_lt_zero _), fun below =>
        absurd below (Nat.lt_irrefl 0)⟩
      rw [empty]
      rfl
    rw [if_neg done]
    cases found : pt.source va with
    | none =>
      exact ⟨0, Nat.zero_le _, by rw [if_neg (Ne.symm done),
        empty], fun _ below => absurd below (Nat.not_lt_zero _),
        fun _ => found⟩
    | some pa =>
      have below : va % PGSIZE < PGSIZE := Nat.mod_lt _ (by decide)
      obtain ⟨n, hn⟩ : ∃ n, n = min (PGSIZE - va % PGSIZE) len := ⟨_, rfl⟩
      simp only [← hn]
      have page : ∀ x < n, pt.source (va + x) = some pa := fun x early => by
        rw [Pagetable.source_congr (same_page va (by omega)).1, found]
      have here : dst.splice a n ((s.mem pa).drop (va % PGSIZE)) = dst.splice a n (pt.bytes s va) := by
        refine splice_congr fun x early => ?_
        rw [Bytes.drop_apply, Pagetable.bytes, page x early, (same_page va (by omega)).2]
      obtain ⟨k, bound, run, reach, stop⟩ :=
        ih (dst.splice a n (pt.bytes s va)) (a + n) (PGROUNDDOWN va + PGSIZE)
        (len - n) (by omega)
      by_cases last : n = len
      · obtain rfl : k = 0 := by omega
        have present (x : Nat) (early : x < n) : pt.source (va + x) ≠ none := by
          rw [page x early]
          exact Option.some_ne_none pa
        refine ⟨n, by omega, ?_, present, fun less => by omega⟩
        rw [here, run, empty, if_pos (by omega), if_pos last]
      · rw [next_page va hn last] at run reach stop ⊢
        refine ⟨n + k, by omega, ?_, fun x less => ?_, fun less => ?_⟩
        · rw [here, run, ← Pagetable.bytes_drop, splice_splice]
          have ends : k = len - n ↔ n + k = len := by omega
          simp only [ends]
        · by_cases early : x < n
          · rw [page x early]
            exact Option.some_ne_none pa
          · have later := reach (x - n) (by omega)
            rwa [show va + n + (x - n) = va + x by omega] at later
        · rw [← Nat.add_assoc]
          exact stop (by omega)

/-- `copyin` of a part, by the first bad address of the whole. -/
theorem copyin_bad (pt : Pagetable) (dst : Bytes) (a va : Nat) {tot m n : Nat} (s : Memory)
    (part : tot + m ≤ n)
    (good : ∀ x < tot, pt.source (va + x) ≠ none) : ∃ k, k ≤ m ∧ copyin pt dst a (va + tot) m s =
      .ok ((if k = m then 0 else -1, dst.splice a k ((pt.bytes s va).drop tot)), s) ∧
      (∀ x < tot + k, pt.source (va + x) ≠ none) ∧ (k < m → pt.bad va n = some (tot + k)) := by
  obtain ⟨k, bound, run, reach, stop⟩ := copyin_spec pt dst a (va + tot) m s
  have all : ∀ x < tot + k, pt.source (va + x) ≠ none := fun x less => by
    by_cases early : x < tot
    · exact good x early
    · have later := reach (x - tot) (by omega)
      rwa [show va + tot + (x - tot) = va + x by omega] at later
  refine ⟨k, bound, by rw [run, Pagetable.bytes_drop], all, fun less => ?_⟩
  refine List.find?_eq_some_iff_getElem.mpr ⟨decide_eq_true ?_, tot + k, ?_, ?_, fun j early => ?_⟩
  · rw [← Nat.add_assoc]
    exact stop less
  · rw [List.length_range]
    omega
  · rw [List.getElem_range]
  · rw [List.getElem_range]
    simp [all j early]

end Copyin

end Xv6.Vm
