import Xv6.Vm.Ledger

namespace Xv6.Vm
open Function

section Rounding

variable {a b : Nat}

theorem PGROUNDUP_aligned (a : Nat) : PGROUNDUP a % PGSIZE = 0 := Nat.mul_mod_left _ PGSIZE

theorem PGROUNDUP_self (aligned : a % PGSIZE = 0) (small : a ≤ MAXVA) : PGROUNDUP a = a := by
  unfold PGROUNDUP MAXVA PGSIZE at *
  omega

theorem PGROUNDUP_div (small : a ≤ MAXVA) : PGROUNDUP a / PGSIZE = (a + PGSIZE - 1) / PGSIZE := by
  unfold PGROUNDUP MAXVA PGSIZE at *
  omega

end Rounding

section Alloc

variable {F : Nat → Prop} {s s' : Memory} {pt pt' : Pagetable} {a n start newsz oldsz : Nat} {perm : Perm}

theorem uvmdealloc_gives (pt : Pagetable) (oldsz newsz : Nat) (free : ∀ pa ∈ s.freelist, F pa)
    (use : ∀ q pte, PGROUNDUP newsz / PGSIZE ≤ q → q < PGROUNDUP oldsz / PGSIZE →
      pt.leaf q = some pte → F pte.pa) :
    Gives (uvmdealloc pt oldsz newsz) s fun r s' => Step F s s' pt r.2 ∧
    (∀ x, total s' r.2 x = total s pt x) ∧
      (oldsz ≤ newsz ∧ r.1 = oldsz ∧ r.2.leaf = pt.leaf ∨ newsz < oldsz ∧ r.1 = newsz ∧
        r.2.leaf = cleared pt.leaf (PGROUNDUP newsz / PGSIZE) (PGROUNDUP oldsz / PGSIZE -
        PGROUNDUP newsz / PGSIZE)) := by
  unfold uvmdealloc
  refine Gives.ite (fun more => ?_) fun less => ?_
  · exact Gives.pure ⟨(Uses.refl free).same pt, fun _ => rfl, .inl ⟨more, rfl, rfl⟩⟩
  · have fewer : newsz < oldsz := Nat.lt_of_not_le less
    have whole (a : Nat) : PGROUNDUP a = PGSIZE * (PGROUNDUP a / PGSIZE) :=
      (Nat.mul_div_cancel' (Nat.dvd_of_mod_eq_zero (PGROUNDUP_aligned a))).symm
    refine Gives.ite (fun some => ?_) fun none => ?_
    · have pages : (PGROUNDUP oldsz - PGROUNDUP newsz) / PGSIZE = PGROUNDUP oldsz / PGSIZE -
        PGROUNDUP newsz / PGSIZE := by
        have upper := whole oldsz
        have lower := whole newsz
        unfold PGSIZE at *
        omega
      unfold uvmunmap
      rw [if_neg (not_not.mpr (PGROUNDUP_aligned newsz)), pages]
      refine (unmapLoop_gives _ pt (PGROUNDUP newsz) free fun q pte later early there => ?_).bind
        fun pt' s' result =>
        Gives.pure ⟨result.1, result.2.2, .inr ⟨fewer, rfl, result.2.1⟩⟩
      exact use q pte later (by omega) there
    · have empty : PGROUNDUP oldsz / PGSIZE - PGROUNDUP newsz / PGSIZE = 0 := by
        have upper := whole oldsz
        have lower := whole newsz
        unfold PGSIZE at *
        omega
      rw [empty, cleared_zero]
      exact Gives.pure ⟨(Uses.refl free).same pt, fun _ => rfl, .inr ⟨fewer, rfl, rfl⟩⟩

/-- What the failed rounds of `uvmalloc` leave: the page table without the pages that were added. -/
theorem undo_gives (pt : Pagetable) (free : ∀ pa ∈ s.freelist, F pa) (start_aligned : start % PGSIZE = 0)
    (aligned : a % PGSIZE = 0)
    (order : start ≤ a) (small : a = start ∨ a ≤ MAXVA)
    (made : ∀ q pte, start / PGSIZE ≤ q → q < a / PGSIZE → pt.leaf q = some pte → F pte.pa) :
    Gives (uvmdealloc pt a start) s fun r s' => Step F s s' pt r.2 ∧ (∀ x, total s' r.2 x = total s pt x) ∧
      r.2.leaf = cleared pt.leaf (start / PGSIZE) (a / PGSIZE - start / PGSIZE) := by
  rcases small with rfl | below
  · refine (uvmdealloc_gives pt a a free fun q pte later early => by omega).mono fun r s' result => ?_
    obtain ⟨step, total', ⟨-, -, same⟩ | ⟨less, -⟩⟩ := result
    · rw [Nat.sub_self, cleared_zero]
      exact ⟨step, total', same⟩
    · exact absurd less (Nat.lt_irrefl a)
  · have upper := PGROUNDUP_self aligned below
    have lower := PGROUNDUP_self start_aligned (by omega : start ≤ MAXVA)
    refine (uvmdealloc_gives pt a start free ?_).mono fun r s' result => ?_
    · rw [upper, lower]
      exact made
    · obtain ⟨step, total', ⟨most, -, same⟩ | ⟨-, -, same⟩⟩ := result
      · obtain rfl : a = start := by omega
        rw [Nat.sub_self, cleared_zero]
        exact ⟨step, total', same⟩
      · rw [upper, lower] at same
        exact ⟨step, total', same⟩

theorem cleared_update (leaf : Nat → Option Pte) {first p : Nat} {pte : Pte} (order : first ≤ p)
    (empty : leaf p = none) :
    cleared (update leaf p (some pte)) first (p + 1 - first) = cleared leaf first (p - first) := by
  funext q
  unfold cleared
  by_cases same : q = p
  · subst same
    rw [if_pos (by omega), if_neg (by omega), empty]
  · rw [update_of_ne same]
    by_cases inside : first ≤ q ∧ q < p
    · rw [if_pos (by omega), if_pos (by omega)]
    · rw [if_neg (by omega), if_neg (by omega)]

/-- The rounds of `uvmalloc`: all pages are added, or none are left. -/
theorem allocLoop_gives (n : Nat) (pt : Pagetable) (a : Nat) (free : ∀ pa ∈ s.freelist, F pa)
    (start_aligned : start % PGSIZE = 0)
    (aligned : a % PGSIZE = 0) (order : start ≤ a) (small : a = start ∨ a ≤ MAXVA)
    (made : ∀ q pte, start / PGSIZE ≤ q → q < a / PGSIZE → pt.leaf q = some pte → F pte.pa) :
    Gives (allocLoop start newsz perm n pt a) s fun r s' => Step F s s' pt r.2 ∧
    (∀ x, total s' r.2 x = total s pt x) ∧
      (r.1 = 0 ∧ r.2.leaf = cleared pt.leaf (start / PGSIZE) (a / PGSIZE - start / PGSIZE) ∨
        r.1 = newsz ∧ Takes s s' ∧ (n = 0 ∨ a + PGSIZE * n ≤ MAXVA) ∧
          (∀ q, q < a / PGSIZE ∨ a / PGSIZE + n ≤ q → r.2.leaf q = pt.leaf q) ∧
          ∀ q, a / PGSIZE ≤ q → q < a / PGSIZE + n → pt.leaf q = none ∧ ∃ pa ∈ s.freelist,
          r.2.leaf q = some ⟨pa, perm⟩) := by
  induction n generalizing s pt a with
  | zero =>
    refine Gives.pure ⟨(Uses.refl free).same pt, fun _ => rfl,
      .inr ⟨rfl, .refl s, .inl rfl, fun _ _ => rfl, fun q later early => by omega⟩⟩
  | succ n ih =>
    unfold allocLoop
    refine (kalloc_gives free).bind fun r s₁ alloc => ?_
    obtain ⟨uses, same, ⟨rfl, rfl, list⟩ | ⟨mem, rfl, list⟩⟩ := alloc
    · refine (undo_gives pt free start_aligned aligned order small made).bind fun r s₂ undone => ?_
      exact Gives.pure ⟨undone.1, undone.2.1, .inl ⟨rfl, undone.2.2⟩⟩
    have own : F mem := free mem (list ▸ List.mem_cons_self ..)
    have taken (x : Nat) : s.freelist.count x = s₁.freelist.count x +
      if mem = x then 1 else 0 := list ▸ count_cons ..
    refine (mappages_gives pt a mem perm uses.free).bind fun r s₂ map => ?_
    obtain ⟨step, takes, below, ⟨zero, empty, leaf, total'⟩ | ⟨failed, leaf, total', -⟩⟩ := map
    · have whole : a + PGSIZE ≤ MAXVA := by
        unfold MAXVA PGSIZE at *
        omega
      have next : (a + PGSIZE) / PGSIZE = a / PGSIZE + 1 := Nat.add_div_right a (by decide)
      have earlier : start / PGSIZE ≤ a / PGSIZE := Nat.div_le_div_right order
      refine Gives.ite (fun wrong => absurd zero wrong) fun _ => ?_
      refine (ih r.2 (a + PGSIZE) step.free ((Nat.add_mod_right ..).trans aligned) (by omega)
        (.inr whole) ?_).mono
        fun r' s' rest => ?_
      · intro q pte later early there
        rw [leaf] at there
        by_cases same : q = a / PGSIZE
        · rw [same, update_self] at there
          obtain rfl := Option.some.inj there
          exact own
        · rw [update_of_ne same] at there
          exact made q pte later (by omega) there
      obtain ⟨step', total'', result⟩ := rest
      refine ⟨(uses.same pt).trans (step.trans step'), fun x => ?_, ?_⟩
      · have first := total' x
        have more := taken x
        rw [total'', first]
        unfold total
        omega
      · rcases result with ⟨failed, leaf'⟩ | ⟨done, takes', room, kept, added⟩
        · refine .inl ⟨failed, ?_⟩
          rw [leaf', leaf, next, cleared_update pt.leaf earlier empty]
        · rw [next] at kept added
          have first : Takes s s₁ := .write list fun x _ => by rw [same]
          have rest := first.trans takes
          refine .inr ⟨done, rest.trans takes', .inr ?_, fun q out => ?_, fun q later early => ?_⟩
          · rw [Nat.mul_succ]
            rcases room with rfl | room
            · omega
            · omega
          · rw [kept q (by omega), leaf, update_of_ne (by omega)]
          · by_cases other : q = a / PGSIZE
            · subst other
              rw [kept _ (by omega), leaf, update_self]
              exact ⟨empty, mem, list ▸ List.mem_cons_self .., rfl⟩
            · obtain ⟨missing, pa, listed, there⟩ := added q (by omega) (by omega)
              rw [leaf, update_of_ne other] at missing
              exact ⟨missing, pa, rest.suffix.subset listed, there⟩
    · refine Gives.ite (fun _ => ?_) fun wrong => absurd failed (by omega)
      refine (kfree_gives step.free own).bind fun _ s₃ freed => ?_
      obtain ⟨uses', list'⟩ := freed
      refine (undo_gives r.2 uses'.free start_aligned aligned order small (leaf ▸ made)).bind
        fun r' s₄ undone => ?_
      obtain ⟨step', total'', leaf'⟩ := undone
      refine Gives.pure ⟨(uses.same pt).trans (step.trans ((uses'.same r.2).trans step')), fun x => ?_,
        .inl ⟨rfl, leaf ▸ leaf'⟩⟩
      have first := total' x
      have more := taken x
      have back := count_cons mem s₂.freelist x
      show total s₄ r'.2 x = _
      rw [total'']
      unfold total at first ⊢
      rw [list', back]
      omega

/-- `uvmalloc` adds all pages up to the new size, or none. -/
theorem uvmalloc_gives (pt : Pagetable) (oldsz newsz : Nat) (w x : Bool) (small : oldsz ≤ MAXVA)
    (free : ∀ pa ∈ s.freelist, F pa) :
    Gives (uvmalloc pt oldsz newsz w x) s fun r s' => Step F s s' pt r.2 ∧
    (∀ x, total s' r.2 x = total s pt x) ∧
      (newsz < oldsz ∧ r.1 = oldsz ∧ r.2.leaf = pt.leaf ∨ oldsz ≤ newsz ∧ r.1 = 0 ∧ r.2.leaf = pt.leaf ∨
        oldsz ≤ newsz ∧ r.1 = newsz ∧ newsz ≤ MAXVA ∧ Takes s s' ∧
          (∀ q, q < PGROUNDUP oldsz / PGSIZE ∨ PGROUNDUP newsz / PGSIZE ≤ q → r.2.leaf q = pt.leaf q) ∧
          ∀ q, PGROUNDUP oldsz / PGSIZE ≤ q → q < PGROUNDUP newsz / PGSIZE →
            pt.leaf q = none ∧ ∃ pa ∈ s.freelist, r.2.leaf q = some ⟨pa, ⟨true, w, x, true⟩⟩) := by
  unfold uvmalloc
  refine Gives.ite (fun less => Gives.pure ⟨(Uses.refl free).same pt, fun _ => rfl,
    .inl ⟨less, rfl, rfl⟩⟩) fun more => ?_
  have order : oldsz ≤ newsz := Nat.le_of_not_lt more
  refine (allocLoop_gives _ pt (PGROUNDUP oldsz) free (PGROUNDUP_aligned oldsz)
    (PGROUNDUP_aligned oldsz) le_rfl (.inl rfl)
    fun q pte later early => by omega).mono fun r s' result => ?_
  obtain ⟨step, total', ⟨failed, leaf⟩ | ⟨done, takes, room, kept, added⟩⟩ := result
  · rw [Nat.sub_self, cleared_zero] at leaf
    exact ⟨step, total', .inr (.inl ⟨order, failed, leaf⟩)⟩
  · have inside : newsz ≤ MAXVA := by
      unfold PGROUNDUP MAXVA PGSIZE at *
      omega
    have pages : PGROUNDUP oldsz / PGSIZE + (newsz - PGROUNDUP oldsz + PGSIZE - 1) / PGSIZE =
      PGROUNDUP newsz / PGSIZE := by
      unfold PGROUNDUP MAXVA PGSIZE at *
      omega
    rw [pages] at kept added
    exact ⟨step, total', .inr (.inr ⟨order, done, inside, takes, kept, added⟩)⟩

end Alloc

end Xv6.Vm
