import Xv6.Vm.Machine

namespace Xv6.Vm
open Function

namespace Pagetable

/-- The page that `copyout` writes to for an address, if there is one that it may write to. -/
def target (pt : Pagetable) (va : Nat) : Option Nat :=
  let va0 := PGROUNDDOWN va
  if MAXVA ≤ va0 ∨ pt.mid (va0 / 2 ^ 30) = none ∨ pt.low (va0 / 2 ^ 21) = none then none
  else match pt.leaf (va0 / PGSIZE) with
    | some pte => if pte.perm.w ∧ pte.perm.u ∧ pte.pa ≠ 0 then some pte.pa else none
    | none => none

/-- The byte that a user program has at an address. -/
def user (pt : Pagetable) (s : Memory) (va : Nat) : Option UInt8 :=
  match pt.leaf (va / PGSIZE) with
  | some pte => if pte.perm.u then some (s.mem pte.pa (va % PGSIZE)) else none
  | none => none

/-- Different user pages are in different pages of memory. -/
def Injective (pt : Pagetable) : Prop :=
  ∀ p q pte pte', pt.leaf p = some pte → pt.leaf q = some pte' → pte.perm.u = true → pte'.perm.u = true →
    pte.pa = pte'.pa → p = q

end Pagetable

/-- The first `k` bytes of `src` have been copied to an address, and no other user byte has changed. -/
structure Stored (pt : Pagetable) (va k : Nat) (src : Bytes) (s s' : Memory) : Prop where
  inside : ∀ x < k, pt.user s' (va + x) = some (src x)
  outside : ∀ a, a < va ∨ va + k ≤ a → pt.user s' a = pt.user s a

/-- The first `k` bytes of `src` have been copied to the pages of the addresses from `va` on, the last one to
a place where several go, and nothing else in memory has changed. -/
structure Placed (pt : Pagetable) (va k : Nat) (src : Bytes) (s s' : Memory) : Prop where
  last {x pa} : x < k → pt.target (va + x) = some pa →
    (∀ y, x < y → y < k → pt.target (va + y) = some pa → (va + y) % PGSIZE ≠ (va + x) % PGSIZE) →
    s'.mem pa ((va + x) % PGSIZE) = src x
  others {pa o} : (∀ x < k, pt.target (va + x) = some pa → (va + x) % PGSIZE ≠ o) → s'.mem pa o = s.mem pa o
  freelist : s'.freelist = s.freelist

section Copyout

variable {pt : Pagetable} {s s' s'' : Memory} {va a b k m n len fuel pa : Nat} {src : Bytes}

theorem PGROUNDDOWN_div (va : Nat) : PGROUNDDOWN va / PGSIZE = va / PGSIZE :=
  Nat.mul_div_cancel _ (by decide)

theorem sub_PGROUNDDOWN (va : Nat) : va - PGROUNDDOWN va = va % PGSIZE := by
  have := Nat.div_add_mod va PGSIZE
  have := Nat.mul_comm PGSIZE (va / PGSIZE)
  unfold PGROUNDDOWN
  omega

theorem Pagetable.target_congr (same : a / PGSIZE = b / PGSIZE) : pt.target a = pt.target b := by
  unfold target PGROUNDDOWN
  rw [same]

theorem Pagetable.target_some (found : pt.target va = some pa) : va < MAXVA ∧
    ∃ pte, pt.leaf (va / PGSIZE) = some pte ∧ pte.perm.u = true ∧ pte.pa = pa := by
  unfold target at found
  simp only [PGROUNDDOWN_div] at found
  split at found
  · cases found
  next present =>
    split at found
    next pte leaf =>
      split at found
      next ok => exact ⟨by unfold PGROUNDDOWN MAXVA PGSIZE at *; omega, pte, leaf, ok.2.1, Option.some.inj found⟩
      next => cases found
    next => cases found

theorem walk_found (pt : Pagetable) (inside : va < MAXVA) :
    walk pt va false s = .ok ((decide (pt.mid (va / 2 ^ 30) ≠ none ∧ pt.low (va / 2 ^ 21) ≠ none), pt),
      s) := by
  unfold walk
  rw [if_neg (by omega)]
  cases mid : pt.mid (va / 2 ^ 30) with
  | none => rfl
  | some page =>
    have same : update pt.mid (va / 2 ^ 30) (some page) = pt.mid := by rw [← mid, update_eq_self]
    simp only [descend, pure_bind, same]
    cases low : pt.low (va / 2 ^ 21) with
    | none => rfl
    | some page' =>
      have same' : update pt.low (va / 2 ^ 21) (some page') = pt.low := by rw [← low, update_eq_self]
      simp only [pure_bind, same']
      rfl

theorem walkaddr_found (pt : Pagetable) (inside : va < MAXVA) (mid : pt.mid (va / 2 ^ 30) ≠ none)
    (low : pt.low (va / 2 ^ 21) ≠ none) : walkaddr pt va s =
      .ok (match pt.leaf (va / PGSIZE) with
        | some pte => if pte.perm.u then pte.pa else 0
        | none => 0, s) := by
  unfold walkaddr
  rw [if_neg (by omega)]
  show (walk pt va false s >>= _) = _
  rw [walk_found pt inside, decide_eq_true (And.intro mid low)]
  simp only [bind, Except.bind]
  cases pt.leaf (va / PGSIZE) with
  | none => rfl
  | some pte => rfl

/-- A round of `copyout`. -/
theorem copyLoop_round : copyLoop pt (fuel + 1) va src len s =
    if len = 0 then .ok (0, s)
    else match pt.target va with
      | none => .ok (-1, s)
      | some pa => copyLoop pt fuel (PGROUNDDOWN va + PGSIZE) (src.drop (min (PGSIZE - va % PGSIZE) len))
          (len - min (PGSIZE - va % PGSIZE) len)
          (s.write pa (va % PGSIZE) (min (PGSIZE - va % PGSIZE) len) src) := by
  rw [copyLoop]
  by_cases done : len = 0
  · rw [if_pos done, if_pos done]
    rfl
  rw [if_neg done, if_neg done]
  simp only [Pagetable.target]
  by_cases inside : MAXVA ≤ PGROUNDDOWN va
  · rw [if_pos inside, if_pos (.inl inside)]
    rfl
  rw [if_neg inside]
  show (walk pt (PGROUNDDOWN va) false s >>= _) = _
  rw [walk_found pt (Nat.lt_of_not_le inside)]
  simp only [bind, Except.bind]
  by_cases present : pt.mid (PGROUNDDOWN va / 2 ^ 30) ≠ none ∧ pt.low (PGROUNDDOWN va / 2 ^ 21) ≠ none
  swap
  · have absent : pt.mid (PGROUNDDOWN va / 2 ^ 30) = none ∨ pt.low (PGROUNDDOWN va / 2 ^ 21) = none :=
      by tauto
    rw [if_pos (Or.inr absent), decide_eq_false present]
    rfl
  have mapped : ¬(MAXVA ≤ PGROUNDDOWN va ∨ pt.mid (PGROUNDDOWN va / 2 ^ 30) = none ∨
      pt.low (PGROUNDDOWN va / 2 ^ 21) = none) := by tauto
  rw [if_neg mapped, decide_eq_true present]
  simp only [Bool.not_true, Bool.false_eq_true, if_false]
  cases leaf : pt.leaf (PGROUNDDOWN va / PGSIZE) with
  | none => rfl
  | some pte =>
    cases writable : pte.perm.w with
    | false =>
      simp only [Option.map_some, writable]
      rfl
    | true =>
      simp only [Option.map_some, writable, ne_eq, not_true, if_false, true_and]
      show (walkaddr pt (PGROUNDDOWN va) s >>= _) = _
      rw [walkaddr_found pt (Nat.lt_of_not_le inside) present.1 present.2, leaf]
      simp only [bind, Except.bind]
      by_cases user : pte.perm.u = true ∧ pte.pa ≠ 0
      · simp only [user]
        simp only [true_and, if_true, user.2, not_false_eq_true, if_false, sub_PGROUNDDOWN]
        rfl
      · have zero : (if pte.perm.u = true then pte.pa else 0) = 0 := by
          split
          next u => by_contra some; exact user ⟨u, some⟩
          next => rfl
        rw [zero, if_pos rfl, if_neg user]
        rfl

/-- `copyout` of one byte. -/
theorem copyout_byte (pt : Pagetable) (va : Nat) (c : UInt8) (s : Memory) : copyout pt va (fun _ => c) 1 s =
    match pt.target va with
    | none => .ok (-1, s)
    | some pa => .ok (0, s.write pa (va % PGSIZE) 1 fun _ => c) := by
  have below : va % PGSIZE < PGSIZE := Nat.mod_lt _ (by decide)
  rw [copyout, copyLoop_round, if_neg (by decide)]
  rw [show min (PGSIZE - va % PGSIZE) 1 = 1 by omega]
  rfl

theorem Stored.none (pt : Pagetable) (va : Nat) (src : Bytes) (s : Memory) : Stored pt va 0 src s s :=
  ⟨fun _ below => absurd below (Nat.not_lt_zero _), fun _ _ => rfl⟩

theorem Stored.append (first : Stored pt va k src s s') (second : Stored pt (va + k) m (src.drop k) s' s'') :
    Stored pt va (k + m) src s s'' := by
  refine ⟨fun x below => ?_, fun a out => ?_⟩
  · by_cases early : x < k
    · rw [second.outside (va + x) (by omega), first.inside x early]
    · have later := second.inside (x - k) (by omega)
      rw [Bytes.drop_apply] at later
      rwa [show va + k + (x - k) = va + x by omega, show k + (x - k) = x by omega] at later
  · rw [second.outside a (by omega), first.outside a (by omega)]

theorem Stored.congr {src' : Bytes} (stored : Stored pt va k src s s') (same : ∀ x < k, src x = src' x) :
    Stored pt va k src' s s' :=
  ⟨fun x below => by rw [stored.inside x below, same x below], stored.outside⟩

/-- Where an address is on the page of another one. -/
theorem same_page (va : Nat) (small : k < PGSIZE - va % PGSIZE) :
    (va + k) / PGSIZE = va / PGSIZE ∧ (va + k) % PGSIZE = va % PGSIZE + k := by
  unfold PGSIZE at *
  omega

/-- Where the next round starts, if this one did not end the copy. -/
theorem next_page (va : Nat) (size : n = min (PGSIZE - va % PGSIZE) len) (more : n ≠ len) :
    PGROUNDDOWN va + PGSIZE = va + n := by
  have whole := Nat.div_add_mod va PGSIZE
  have swap := Nat.mul_comm PGSIZE (va / PGSIZE)
  have below : va % PGSIZE < PGSIZE := Nat.mod_lt _ (by decide)
  unfold PGROUNDDOWN
  omega

theorem Placed.none (pt : Pagetable) (va : Nat) (src : Bytes) (s : Memory) : Placed pt va 0 src s s :=
  ⟨fun below => absurd below (Nat.not_lt_zero _), fun _ => rfl, rfl⟩

theorem Placed.append (first : Placed pt va k src s s') (second : Placed pt (va + k) m (src.drop k) s' s'') :
    Placed pt va (k + m) src s s'' := by
  refine ⟨fun {x pa} below found final => ?_, fun {pa o} out => ?_, second.freelist.trans first.freelist⟩
  · by_cases early : x < k
    · rw [second.others fun y less found' => ?_]
      · exact first.last early found fun y later less => final y later (by omega)
      · rw [Nat.add_assoc] at found' ⊢
        exact final (k + y) (by omega) (by omega) found'
    · obtain ⟨y, rfl⟩ : ∃ y, x = k + y := ⟨x - k, by omega⟩
      rw [← Nat.add_assoc] at found final ⊢
      refine second.last (by omega) found fun z later less found' => ?_
      rw [Nat.add_assoc] at found' ⊢
      exact final (k + z) (by omega) (by omega) found'
  · rw [second.others fun x less found => ?_, first.others fun x less found => out x (by omega) found]
    rw [Nat.add_assoc] at found ⊢
    exact out (k + x) (by omega) found

/-- A write inside a page. -/
theorem write_placed (found : pt.target va = some pa) (small : n ≤ PGSIZE - va % PGSIZE) (src : Bytes) :
    Placed pt va n src s (s.write pa (va % PGSIZE) n src) := by
  refine ⟨fun {x pa'} below found' _ => ?_, fun {pa' o} out => ?_, rfl⟩
  · obtain ⟨page, place⟩ := same_page va (by omega : x < PGSIZE - va % PGSIZE)
    rw [Pagetable.target_congr page, found] at found'
    obtain rfl := Option.some.inj found'
    simp only [Memory.write, update_self, place]
    rw [Bytes.splice_inside (by omega) (by omega)]
    congr 1
    omega
  · by_cases same : pa' = pa
    · subst same
      simp only [Memory.write, update_self]
      refine Bytes.splice_outside ?_
      by_contra! inside
      obtain ⟨page, place⟩ := same_page va (by omega : o - va % PGSIZE < PGSIZE - va % PGSIZE)
      exact out (o - va % PGSIZE) (by omega) ((Pagetable.target_congr page).trans found) (by omega)
    · simp only [Memory.write, update_of_ne same]

/-- What has been copied is what the user program has, if no page of memory is mapped twice. -/
theorem Placed.stored (injective : pt.Injective) (reach : ∀ x < k, pt.target (va + x) ≠ Option.none)
    (placed : Placed pt va k src s s') : Stored pt va k src s s' := by
  have single (a b : Nat) (page : a / PGSIZE = b / PGSIZE) (place : a % PGSIZE = b % PGSIZE) : a = b := by
    rw [← Nat.div_add_mod a PGSIZE, page, place, Nat.div_add_mod]
  refine ⟨fun x below => ?_, fun a out => ?_⟩
  · obtain ⟨pa, found⟩ := Option.ne_none_iff_exists'.mp (reach x below)
    obtain ⟨_, pte, leaf, user, rfl⟩ := Pagetable.target_some found
    simp only [Pagetable.user, leaf, user, if_true]
    congr 1
    refine placed.last below found fun y later less found' place => ?_
    obtain ⟨_, pte', leaf', user', same⟩ := Pagetable.target_some found'
    have equal := single _ _ (injective _ _ _ _ leaf' leaf user' user same) place
    omega
  · unfold Pagetable.user
    cases other : pt.leaf (a / PGSIZE) with
    | none => rfl
    | some pte =>
      by_cases user : pte.perm.u = true
      swap
      · simp [user]
      simp only [user, if_true]
      congr 1
      refine placed.others fun x less found place => ?_
      obtain ⟨_, pte', leaf', user', same⟩ := Pagetable.target_some found
      have equal := single _ _ (injective _ _ _ _ leaf' other user' user same) place
      omega

theorem write_stored (injective : pt.Injective) (found : pt.target va = some pa)
    (small : n ≤ PGSIZE - va % PGSIZE)
    (src : Bytes) : Stored pt va n src s (s.write pa (va % PGSIZE) n src) := by
  refine (write_placed found small src).stored injective fun x early => ?_
  rw [Pagetable.target_congr (same_page va (by omega)).1, found]
  exact Option.some_ne_none pa

/-- `copyout` copies the bytes before the first address that it cannot write to. -/
theorem copyout_placed (pt : Pagetable) (va : Nat) (src : Bytes) (len : Nat) (s : Memory) :
    ∃ k s', k ≤ len ∧ copyout pt va src len s = .ok (if k = len then 0 else -1, s') ∧
      (∀ x < k, pt.target (va + x) ≠ none) ∧ (k < len → pt.target (va + k) = none) ∧
      Placed pt va k src s s' := by
  suffices ∀ fuel va src len s, len ≤ fuel → ∃ k s', k ≤ len ∧
      copyLoop pt fuel va src len s = .ok (if k = len then 0 else -1, s') ∧
      (∀ x < k, pt.target (va + x) ≠ none) ∧ (k < len → pt.target (va + k) = none) ∧
      Placed pt va k src s s' from
    this len va src len s (le_refl len)
  intro fuel
  induction fuel with
  | zero =>
    intro va src len s enough
    obtain rfl : len = 0 := by omega
    exact ⟨0, s, le_refl 0, rfl, fun _ below => absurd below (Nat.not_lt_zero _),
      fun below => absurd below (Nat.lt_irrefl 0), Placed.none ..⟩
  | succ fuel ih =>
    intro va src len s enough
    rw [copyLoop_round]
    by_cases done : len = 0
    · subst done
      exact ⟨0, s, le_refl 0, rfl, fun _ below => absurd below (Nat.not_lt_zero _),
        fun below => absurd below (Nat.lt_irrefl 0), Placed.none ..⟩
    rw [if_neg done]
    cases found : pt.target va with
    | none =>
      exact ⟨0, s, Nat.zero_le _, by rw [if_neg (Ne.symm done)], fun _ below => absurd below (Nat.not_lt_zero _),
        fun _ => found, Placed.none ..⟩
    | some pa =>
      have below : va % PGSIZE < PGSIZE := Nat.mod_lt _ (by decide)
      obtain ⟨n, hn⟩ : ∃ n, n = min (PGSIZE - va % PGSIZE) len := ⟨_, rfl⟩
      simp only [← hn]
      have placed := write_placed (s := s) found (by omega : n ≤ PGSIZE - va % PGSIZE) src
      have reach : ∀ x < n, pt.target (va + x) ≠ none := fun x early => by
        rw [Pagetable.target_congr (same_page va (by omega)).1, found]
        exact Option.some_ne_none pa
      by_cases last : n = len
      · refine ⟨len, s.write pa (va % PGSIZE) n src, le_refl len, ?_, last ▸ reach, fun less =>
          by omega, last ▸ placed⟩
        rw [last, Nat.sub_self]
        rw [if_pos rfl]
        cases fuel <;> rfl
      · rw [next_page va hn last]
        obtain ⟨k, s', bound, run, reach', stop, placed'⟩ := ih (va + n) (src.drop n) (len - n)
          (s.write pa (va % PGSIZE) n src) (by omega)
        refine ⟨n + k, s', by omega, ?_, fun x less => ?_, fun less => ?_, placed.append placed'⟩
        · rw [run]
          congr 3
          exact propext (by omega)
        · by_cases early : x < n
          · exact reach x early
          · have later := reach' (x - n) (by omega)
            rwa [show va + n + (x - n) = va + x by omega] at later
        · rw [← Nat.add_assoc]
          exact stop (by omega)

/-- `copyout` where no page of memory is mapped twice. -/
theorem copyout_spec (injective : pt.Injective) (va : Nat) (src : Bytes) (len : Nat) (s : Memory) :
    ∃ k s', k ≤ len ∧ copyout pt va src len s = .ok (if k = len then 0 else -1, s') ∧
      (∀ x < k, pt.target (va + x) ≠ none) ∧ (k < len → pt.target (va + k) = none) ∧
      Stored pt va k src s s' := by
  obtain ⟨k, s', bound, run, reach, stop, placed⟩ := copyout_placed pt va src len s
  exact ⟨k, s', bound, run, reach, stop, placed.stored injective reach⟩

end Copyout

end Xv6.Vm
