import Xv6.Vm.Panics
import Xv6.Vm.Stack

/-! The steps of `sbrk`, `fork` and `exec` on page tables keep the shape of an address space and stop with no
panic. -/

namespace Xv6.Vm
open Function

section Safety

variable {F : Nat → Prop} {s s' : Memory} {pt pt' old new : Pagetable}
  {a i n pa q sz sz' top frame frame' va : Nat} {pte : Pte}

theorem Owned.nodup (own : Owned F s pt sz top frame) : s.freelist.Nodup := by
  refine List.nodup_iff_count_le_one.mpr fun x => ?_
  by_cases listed : x ∈ s.freelist
  · have once := own.once (own.free x listed)
    unfold total at once
    omega
  · rw [List.count_eq_zero.mpr listed]
    exact Nat.zero_le 1

/-- A page table without user memory whose tables were free. -/
theorem Owned.start (shaped : Shaped pt 0 top frame) (free : ∀ pa ∈ s.freelist, F pa)
    (once : ∀ x, F x → total s pt x ≤ 1)
    (balance : ∀ x, ¬F x → total s pt x ≤ (if top = x then 1 else 0) + if frame = x then 1 else 0)
    (valid : ∀ pa, F pa → Valid s.kernelEnd pa) (kernelEnd : KERNBASE ≤ s.kernelEnd) :
    Owned F s pt 0 top frame := by
  have ends := TRAPFRAME_pages
  refine ⟨shaped, free, fun {q pte} early here => ?_, fun {pa} some => ?_, fun {x} => once x,
    fun {pa} => valid pa, kernelEnd⟩
  · have wrong := (shaped.user (by omega) (by omega)).mp (here ▸ Option.some_ne_none pte)
    exact absurd wrong (Nat.not_lt_zero q)
  · by_contra out
    have few := balance pa out
    have last : MAXVA / PGSIZE < 2 ^ 27 := by
      unfold MAXVA PGSIZE
      omega
    have first : pt.frame (TRAMPOLINE / PGSIZE) = Option.some top := by
      rw [Pagetable.frame, shaped.top]
      rfl
    have second : pt.frame (TRAPFRAME / PGSIZE) = Option.some frame := by
      rw [Pagetable.frame, shaped.frame]
      rfl
    have both := @Tally.two pt.frame pa (TRAMPOLINE / PGSIZE) (2 ^ 27) _ _ (TRAPFRAME / PGSIZE)
      (by omega) (by omega) (by omega)
      first second
    unfold total Pagetable.owned at few
    omega

theorem uvmcopy_ends (shaped : Shaped old sz top frame') (own : Owned F s new 0 top frame)
    (apart : ∀ q pte, old.leaf q = some pte → pte.pa ∉ s.freelist) :
    Ends (uvmcopy old new sz) s (fun _ => False) fun r s' =>
      r.1 = -1 ∧ Resized F s s' new r.2 0 top frame ∨ r.1 = 0 ∧ Resized F s s' new r.2 sz top frame := by
  have count : (sz + PGSIZE - 1) / PGSIZE = PGROUNDUP sz / PGSIZE :=
    (PGROUNDUP_div (shaped.small.trans TRAPFRAME_below)).symm
  have safe : Safe (uvmcopy old new sz) s :=
    copyPages_safe _ shaped own rfl (by rw [count, Nat.zero_div, Nat.zero_add])
  refine (safe.ends.and (uvmcopy_gives new sz own.free own.nodup apart)).mono fun r s' ⟨same, step,
    balance, way⟩ => ?_
  rw [count] at way
  refine way.imp (fun ⟨failed, leaf⟩ => ⟨failed, ?_⟩) fun ⟨done, takes, kept, copied⟩ => ⟨done, ?_⟩
  · exact own.resized step balance same (own.toShaped.congr (step.sound own.sound) leaf)
      fun q pte early here =>
      own.frames early (leaf ▸ here)
  · have small := (PGROUNDUP_small shaped.small).2
    have ends := TRAPFRAME_pages
    have above {q : Nat} (above : PGROUNDUP sz / PGSIZE ≤ q) (top : q ≠ TRAMPOLINE / PGSIZE)
      (frame : q ≠ TRAPFRAME / PGSIZE) :
        r.2.leaf q = none := by
      rw [kept q above]
      exact not_not.mp fun some => Nat.not_lt_zero q ((own.user top frame).mp some)
    refine own.resized step balance same ⟨step.sound own.sound,
      by rw [kept _ (by omega), own.top], by rw [kept _ small, own.frame],
      fun {q} top frame => ⟨fun some => ?_, fun below => ?_⟩, fun {q pte} here => ?_,
      shaped.small⟩ fun q pte early here => ?_
    · by_contra out
      exact some (above (by omega) top frame)
    · obtain ⟨pte, pa, -, there, -⟩ := copied q below
      exact there ▸ Option.some_ne_none _
    · by_cases below : q < PGROUNDUP sz / PGSIZE
      · obtain ⟨pte', pa, there, there', -⟩ := copied q below
        obtain rfl := Option.some.inj (there'.symm.trans here)
        have readable := shaped.readable there
        exact readable
      · rw [kept q (by omega)] at here
        exact own.readable here
    · by_cases below : q < PGROUNDUP sz / PGSIZE
      · obtain ⟨pte', pa, -, there', listed, -⟩ := copied q below
        obtain rfl := Option.some.inj (there'.symm.trans here)
        exact own.free pa listed
      · rw [above (by omega) (by omega) (by omega)] at here
        cases here

/-- `growproc` for any number of bytes, which may be negative. -/
theorem growproc_ends (p : Proc) (n : Int) (own : Owned F s p.pagetable p.sz top p.trapframe) :
    Ends (growproc n p) s (fun _ => False) fun r s' =>
      Resized F s s' p.pagetable r.2.pagetable r.2.sz top p.trapframe ∧ r.2.trapframe = p.trapframe := by
  unfold growproc
  refine Ends.ite (fun _ => ?_) fun _ => Ends.ite (fun _ => ?_) fun _ => ?_
  · refine (uvmalloc_ends own _ true false).bind fun r s₁ ⟨resized, _⟩ => ?_
    refine Ends.ite (fun failed => Ends.pure ⟨?_, rfl⟩) fun some => Ends.pure ⟨?_, rfl⟩
    · rwa [if_pos failed] at resized
    · rwa [if_neg some] at resized
  · exact (uvmdealloc_ends own _).bind fun r s₁ ⟨_, resized⟩ => Ends.pure ⟨resized, rfl⟩
  · exact Ends.pure ⟨{ Uses.refl own.free with kernelEnd := rfl, owned := own, total := fun _ => rfl }, rfl⟩

/-- The page of the stack guard. -/
theorem uvmclear_ends (own : Owned F s pt sz top frame) (below : va / PGSIZE < PGROUNDUP sz / PGSIZE) :
    Ends (uvmclear pt va) s (fun _ => False) fun pt' s' => s' = s ∧ Resized F s s' pt pt' sz top frame := by
  have small := (PGROUNDUP_small own.small).2
  have ends := TRAPFRAME_pages
  have inside : va < MAXVA := by
    unfold MAXVA PGSIZE at *
    omega
  obtain ⟨pte, here⟩ := Option.ne_none_iff_exists'.mp (own.mapped below)
  obtain ⟨-, -, index, index', -⟩ := page_indices inside
  have low := own.sound.leaf (here ▸ Option.some_ne_none pte)
  have mid := own.sound.low low
  rw [index'] at low mid
  rw [index] at mid
  have found : decide (pt.mid (va / 2 ^ 30) ≠ none ∧ pt.low (va / 2 ^ 21) ≠ none) = true :=
    decide_eq_true ⟨mid, low⟩
  have safe : Safe (uvmclear pt va) s := by
    unfold uvmclear
    refine Safe.bind_run (walk_found pt inside) ?_
    dsimp only
    rw [found, if_neg (by decide)]
    exact .pure _ _
  refine (safe.ends.and (uvmclear_gives pt va own.free)).mono fun pt' s' ⟨_, same, step, balance,
    leaf⟩ => ⟨same, ?_⟩
  subst same
  rw [here, Option.map_some] at leaf
  have other {q : Nat} (out : q ≠ va / PGSIZE) : pt'.leaf q = pt.leaf q := by rw [leaf, update_of_ne out]
  have self : pt'.leaf (va / PGSIZE) = some pte.clear := by rw [leaf, update_self]
  refine own.resized step balance rfl ⟨step.sound own.sound,
    by rw [other (by omega), own.top], by rw [other (by omega), own.frame],
    fun {q} top frame => ?_, fun {q pte'} there => ?_, own.small⟩ fun q pte' early there => ?_
  · by_cases same : q = va / PGSIZE
    · rw [same, self]
      exact ⟨fun _ => below, fun _ => Option.some_ne_none _⟩
    · rw [other same]
      exact own.user top frame
  · by_cases same : q = va / PGSIZE
    · rw [same, self] at there
      obtain rfl := Option.some.inj there
      have readable := own.readable here
      exact readable
    · exact own.readable (other same ▸ there)
  · by_cases same : q = va / PGSIZE
    · rw [same, self] at there
      obtain rfl := Option.some.inj there
      have page := own.frames (by omega) here
      exact page
    · exact own.frames early (other same ▸ there)

/-- The pages of a segment are there when its bytes are read. -/
theorem loadLoop_safe (ip : File) (offset size n i : Nat) (own : Owned F s pt sz top frame)
    (users : pt.Users) (aligned : va % PGSIZE = 0)
    (aligned' : i % PGSIZE = 0) (count : (va + i) / PGSIZE + n ≤ PGROUNDUP sz / PGSIZE) :
    Safe (loadLoop pt va ip offset size n i) s := by
  induction n generalizing s i with
  | zero => exact .pure _ _
  | succ n ih =>
    have small := (PGROUNDUP_small own.small).2
    have ends := TRAPFRAME_pages
    have inside : va + i < MAXVA := by
      unfold MAXVA PGSIZE at *
      omega
    obtain ⟨pte, here⟩ := Option.ne_none_iff_exists'.mp
      (own.mapped (by omega : (va + i) / PGSIZE < PGROUNDUP sz / PGSIZE))
    obtain ⟨-, -, index, index', -⟩ := page_indices inside
    have low := own.sound.leaf (here ▸ Option.some_ne_none pte)
    have mid := own.sound.low low
    rw [index'] at low mid
    rw [index] at mid
    have user := users _ pte (by omega) here
    have nonnull : pte.pa ≠ 0 := by
      have valid := (own.valid (own.frames (by omega) here)).2.1
      have base := own.kernelEnd
      unfold KERNBASE at base
      omega
    have next : (va + (i + PGSIZE)) / PGSIZE = (va + i) / PGSIZE + 1 := by
      rw [← Nat.add_assoc]
      exact Nat.add_div_right (va + i) (by decide)
    have found : walkaddr pt (va + i) s = .ok (pte.pa, s) := by
      rw [walkaddr_found pt inside mid low, here]
      simp only [user, if_true]
    unfold loadLoop
    refine Safe.bind_run found ?_
    rw [if_neg nonnull]
    unfold readi
    rw [bind_assoc]
    refine (Safe.write s _).bind (Gives.modify (Q := fun _ s₁ => s₁ = s.write pte.pa 0 _ _) rfl)
      fun _ s₁ wrote _ => ?_
    subst wrote
    rw [pure_bind]
    exact Safe.ite (fun _ => .pure _ _) fun _ => ih _ (own.write ..)
      ((Nat.add_mod_right i PGSIZE).trans aligned') (by omega)

theorem Resized.trans {pt'' : Pagetable} {s'' : Memory} {sz'' : Nat}
    (first : Resized F s s' pt pt' sz' top frame)
    (second : Resized F s' s'' pt' pt'' sz'' top frame) : Resized F s s'' pt pt'' sz'' top frame :=
  { first.toUses.trans second.toUses with
    kernelEnd := second.kernelEnd.trans first.kernelEnd
    owned := second.owned
    total := fun x => (second.total x).trans (first.total x) }

theorem Owned.resized_refl (own : Owned F s pt sz top frame) : Resized F s s pt pt sz top frame :=
  { Uses.refl own.free with kernelEnd := rfl, owned := own, total := fun _ => rfl }

/-- The bytes of a segment are in pages that `uvmalloc` has made or that were there. -/
theorem loadseg_ends (ip : File) (ph : Bytes) (own : Owned F s pt sz top frame) (users : pt.Users)
    (aligned : phVaddr ph % PGSIZE = 0)
    (bytes : phVaddr ph + phFilesz ph % 2 ^ 32 ≤ sz) :
    Ends (loadseg pt (phVaddr ph) ip (phOff ph % 2 ^ 32) (phFilesz ph % 2 ^ 32)) s
    (fun _ => False) fun _ s' =>
      Resized F s s' pt pt sz top frame := by
  have safe : Safe (loadseg pt (phVaddr ph) ip (phOff ph % 2 ^ 32) (phFilesz ph % 2 ^ 32)) s := by
    refine loadLoop_safe ip _ _ _ 0 own users aligned rfl ?_
    rw [PGROUNDUP_div (own.small.trans TRAPFRAME_below), Nat.add_zero]
    unfold PGSIZE at *
    omega
  refine (safe.ends.and (loadLoop_gives _ 0 own.free fun q pte here user => ?_)).mono fun r s' ⟨same,
    uses, list, _⟩ => ?_
  · refine own.frames (Nat.lt_of_not_le fun above => ?_) here
    have small := (PGROUNDUP_small own.small).2
    rcases own.above (here ▸ Option.some_ne_none pte) (by omega) with rfl | rfl
    · obtain rfl := Option.some.inj (own.top.symm.trans here)
      cases user
    · obtain rfl := Option.some.inj (own.frame.symm.trans here)
      cases user
  · have balance (x : Nat) : total s' pt x = total s pt x := by
      unfold total
      rw [list]
    exact own.resized (uses.same pt) balance same own.toShaped fun _ _ => own.frames

/-- What a round of `exec` does with a program header. -/
theorem loadSegment_ends (ip : File) (ph : Bytes) (own : Owned F s pt sz top frame) (users : pt.Users) :
    Ends (loadSegment ip ph pt sz) s (fun _ => False) fun r s' =>
      Resized F s s' pt r.2.1 r.2.2 top frame ∧ r.2.1.Users := by
  have same := own.resized_refl
  unfold loadSegment
  by_cases load : phType ph ≠ ELF_PROG_LOAD
  · rw [if_pos load]
    exact Ends.pure ⟨same, users⟩
  by_cases fits : phMemsz ph < phFilesz ph
  · rw [if_neg load, if_pos fits]
    exact Ends.pure ⟨same, users⟩
  by_cases wraps : (phVaddr ph + phMemsz ph) % 2 ^ 64 < phVaddr ph
  · rw [if_neg load, if_neg fits, if_pos wraps]
    exact Ends.pure ⟨same, users⟩
  by_cases aligned : phVaddr ph % PGSIZE ≠ 0
  · rw [if_neg load, if_neg fits, if_neg wraps, if_pos aligned]
    exact Ends.pure ⟨same, users⟩
  rw [if_neg load, if_neg fits, if_neg wraps, if_neg aligned]
  refine (uvmalloc_ends own _ _ _).bind fun r s₁ ⟨resized, most, users'⟩ => ?_
  obtain ⟨sz1, pt₁⟩ := r
  dsimp only at resized most users' ⊢
  by_cases failed : sz1 = 0
  · rw [if_pos failed] at resized ⊢
    exact Ends.pure ⟨resized, users' users⟩
  rw [if_neg failed] at resized ⊢
  have bytes : phVaddr ph + phFilesz ph % 2 ^ 32 ≤ sz1 := by
    have large := most failed
    have memory : phMemsz ph < 2 ^ 64 := Bytes.le_lt ph 40 8
    have start : phVaddr ph < 2 ^ 64 := Bytes.le_lt ph 16 8
    omega
  refine (loadseg_ends ip ph resized.owned (users' users) (not_not.mp aligned) bytes).bind
    fun r' s₂ loaded => ?_
  have after := resized.trans loaded
  by_cases bad : r' < 0
  · rw [if_pos bad]
    exact Ends.pure ⟨after, users' users⟩
  · rw [if_neg bad]
    exact Ends.pure ⟨after, users' users⟩

theorem loadSegments_ends (ip : File) (n off : Nat) (own : Owned F s pt sz top frame) (users : pt.Users) :
    Ends (loadSegments ip n off pt sz) s (fun _ => False) fun r s' =>
      Resized F s s' pt r.2.1 r.2.2 top frame ∧ r.2.1.Users := by
  induction n generalizing off s pt sz with
  | zero => exact Ends.pure ⟨own.resized_refl, users⟩
  | succ n ih =>
    rw [loadSegments_succ]
    refine Ends.ite (fun _ => Ends.pure ⟨own.resized_refl, users⟩) fun _ => ?_
    refine (loadSegment_ends ip _ own users).bind fun r s₁ ⟨resized, users₁⟩ => ?_
    refine Ends.ite (fun _ => ?_) fun _ => Ends.pure ⟨resized, users₁⟩
    exact (ih _ resized.owned users₁).mono fun r' s' ⟨resized', users'⟩ => ⟨resized.trans resized', users'⟩

theorem copyout_safe (pt : Pagetable) (va : Nat) (src : Bytes) (len : Nat) (s : Memory) :
    Safe (copyout pt va src len) s := by
  suffices ∀ fuel va src len s, Safe (copyLoop pt fuel va src len) s from this len va src len s
  intro fuel
  induction fuel with
  | zero => exact fun _ _ _ s => .pure _ _
  | succ fuel ih =>
    intro va src len s
    refine ⟨?_⟩
    unfold Ends
    rw [copyLoop_round]
    by_cases empty : len = 0
    · rw [if_pos empty]
    rw [if_neg empty]
    cases pt.target va with
    | none => rfl
    | some pa => exact (ih _ _ _ _).ends

theorem pushArgs_safe (base : Nat) (argv : List (List UInt8)) (sp : Nat) (ustack : List Nat) (s : Memory) :
    Safe (pushArgs pt base argv sp ustack) s := by
  induction argv generalizing sp ustack s with
  | nil =>
    unfold pushArgs
    exact Safe.ite (fun _ => .pure _ _) fun _ => (copyout_safe ..).bind Gives.any fun _ _ _ _ => .pure _ _
  | cons arg argv ih =>
    unfold pushArgs
    refine Safe.ite (fun _ => .pure _ _) fun _ => Safe.ite (fun _ => .pure _ _) fun _ => ?_
    exact (copyout_safe ..).bind Gives.any fun _ s₁ _ _ => Safe.ite (fun _ => .pure _ _) fun _ => ih _ _ s₁

end Safety

end Xv6.Vm
