import Xv6.Vm.Alloc

/-! Page tables that are made and given back as a whole. -/

namespace Xv6.Vm
open Function

section Whole

variable {F : Nat → Prop} {s s' : Memory} {pt pt' : Pagetable} {i : Nat}

/-- The tables of level 0 below an entry. -/
theorem freeLow_gives (pt : Pagetable) (i : Nat) (free : ∀ pa ∈ s.freelist, F pa)
    (use : ∀ pa, pt.low i = some pa → F pa) :
    Gives (freeLow pt i) s fun _ s' => Uses F s s' ∧
      (∀ x, s'.freelist.count x = s.freelist.count x + if pt.low i = some x then 1 else 0) ∧
      (pt.low i ≠ none → ∀ k < 512, pt.leaf (512 * i + k) = none) := by
  unfold freeLow
  cases here : pt.low i with
  | none => exact Gives.pure ⟨.refl free,
      fun x => by rw [if_neg (Option.some_ne_none x).symm]; rfl, fun some => absurd rfl some⟩
  | some page =>
    refine Gives.ite (fun _ => Gives.throw _) fun none => (kfree_gives free (use page here)).mono
      fun _ s' freed => ?_
    obtain ⟨uses, list⟩ := freed
    refine ⟨uses, fun x => ?_, fun _ k below => ?_⟩
    · rw [list, count_cons]
      simp only [Option.some.injEq]
    · simp only [List.any_eq_true, List.mem_range, not_exists, not_and] at none
      exact Option.not_isSome_iff_eq_none.mp (none k below)

/-- The tables of level 1 and 0 below an entry. -/
theorem freeMid_gives (pt : Pagetable) (i : Nat) (free : ∀ pa ∈ s.freelist, F pa)
    (use : ∀ pa, pt.mid i = some pa → F pa)
    (use' : ∀ j pa, pt.low j = some pa → F pa) (sound : pt.Sound) :
    Gives (freeMid pt i) s fun _ s' => Uses F s s' ∧
      (∀ x, s'.freelist.count x = s.freelist.count x + (if pt.mid i = some x then 1 else 0) +
        tally (fun j => pt.low (512 * i + j)) x 512) ∧
      ∀ p, p / 2 ^ 18 = i → pt.leaf p = none := by
  unfold freeMid
  cases here : pt.mid i with
  | none =>
    have none (j : Nat) (below : j < 512) : pt.low (512 * i + j) = none := by
      by_contra some
      have above := sound.low some
      rw [show (512 * i + j) / 2 ^ 9 = i by omega] at above
      exact above here
    refine Gives.pure ⟨.refl free, fun x => ?_, fun p under => ?_⟩
    · rw [Tally.zero fun j below => by rw [none j below]; exact (Option.some_ne_none
        x).symm, if_neg (Option.some_ne_none x).symm]
      rfl
    · by_contra some
      have low := sound.leaf some
      rw [show p / 2 ^ 9 = 512 * i + p / 2 ^ 9 % 512 by omega] at low
      exact low (none _ (Nat.mod_lt _ (by decide)))
  | some page =>
    refine (Gives.forM_range (fun j s' => Uses F s s' ∧
      (∀ x, s'.freelist.count x = s.freelist.count x + tally (fun j => pt.low (512 * i + j)) x j) ∧
        ∀ p, 512 * i ≤ p / 2 ^ 9 → p / 2 ^ 9 < 512 * i + j → pt.leaf p = none) ⟨.refl free, fun _ => rfl,
        fun p lower upper => by omega⟩
      fun j below s₁ before => ?_).bind fun _ s₂ all => ?_
    · obtain ⟨uses, count, clear⟩ := before
      refine (freeLow_gives pt (512 * i + j) uses.free (use' _)).mono fun _ s₂ freed => ?_
      obtain ⟨uses', count', clear'⟩ := freed
      refine ⟨uses.trans uses', fun x => ?_, fun p lower upper => ?_⟩
      · rw [count', count, tally]
        omega
      · by_cases last : p / 2 ^ 9 = 512 * i + j
        · by_contra some
          have low := sound.leaf some
          rw [last] at low
          have none := clear' low (p % 512) (Nat.mod_lt _ (by decide))
          rw [show 512 * (512 * i + j) + p % 512 = p by omega] at none
          exact some none
        · exact clear p lower (by omega)
    · obtain ⟨uses, count, clear⟩ := all
      refine (kfree_gives uses.free (use page here)).mono fun _ s₃ freed => ?_
      obtain ⟨uses', list⟩ := freed
      refine ⟨uses.trans uses', fun x => ?_, fun p under => clear p (by omega) (by omega)⟩
      rw [list, count_cons, count]
      simp only [Option.some.injEq]
      omega

theorem Pagetable.Sound.mid_tables (sound : pt.Sound) {pa : Nat} (here : pt.mid i = some pa) :
    0 < pt.tables pa := by
  have inside := sound.mid (here ▸ Option.some_ne_none pa)
  have counted := Tally.pos_iff.mpr ⟨i, inside, here⟩
  unfold tables
  omega

theorem Pagetable.Sound.low_below (sound : pt.Sound) (some : pt.low i ≠ none) : i < 2 ^ 18 := by
  have inside := sound.mid (sound.low some)
  omega

theorem Pagetable.Sound.low_tables (sound : pt.Sound) {pa : Nat} (here : pt.low i = some pa) :
    0 < pt.tables pa := by
  have counted := Tally.pos_iff.mpr ⟨i, sound.low_below (here ▸ Option.some_ne_none pa), here⟩
  unfold tables
  omega

theorem Pagetable.Sound.leaf_below (sound : pt.Sound) {p : Nat} (some : pt.leaf p ≠ none) : p < 2 ^ 27 := by
  have inside := sound.low_below (sound.leaf some)
  omega

/-- `freewalk` frees each table, and stops with a panic if a page is still mapped. -/
theorem freewalk_gives (pt : Pagetable) (free : ∀ pa ∈ s.freelist, F pa)
    (use : ∀ pa, 0 < pt.tables pa → F pa) (sound : pt.Sound) :
    Gives (freewalk pt) s fun _ s' => Uses F s s' ∧
    (∀ x, s'.freelist.count x = s.freelist.count x + pt.tables x) ∧
      ∀ p, pt.leaf p = none := by
  unfold freewalk
  refine (Gives.forM_range (fun i s' => Uses F s s' ∧
    (∀ x, s'.freelist.count x = s.freelist.count x + tally pt.mid x i + tally pt.low x (512 * i)) ∧
      ∀ p, p / 2 ^ 18 < i → pt.leaf p = none) ⟨.refl free, fun _ => rfl, fun p less => by omega⟩
    fun i below s₁ before => ?_).bind fun _ s₂ all => ?_
  · obtain ⟨uses, count, clear⟩ := before
    refine (freeMid_gives pt i uses.free (fun pa here => use pa (sound.mid_tables here))
      (fun j pa here => use pa (sound.low_tables here)) sound).mono fun _ s₂ freed => ?_
    obtain ⟨uses', count', clear'⟩ := freed
    refine ⟨uses.trans uses', fun x => ?_, fun p less => ?_⟩
    · have mid : tally pt.mid x (i + 1) = tally pt.mid x i + if pt.mid i = some x then 1 else 0 := rfl
      have low := Tally.add pt.low x (512 * i) 512
      rw [count', count, mid, Nat.mul_succ, low]
      omega
    · by_cases last : p / 2 ^ 18 = i
      · exact clear' p last
      · exact clear p (by omega)
  · obtain ⟨uses, count, clear⟩ := all
    have own : F pt.root := use pt.root (by unfold Pagetable.tables; rw [if_pos rfl]; omega)
    refine (kfree_gives uses.free own).mono fun _ s₃ freed => ?_
    obtain ⟨uses', list⟩ := freed
    refine ⟨uses.trans uses', fun x => ?_, fun p => ?_⟩
    · rw [list, count_cons, count]
      unfold Pagetable.tables
      show _ + tally pt.mid x (2 ^ 9) + tally pt.low x (2 ^ 18) + _ = _
      omega
    · by_contra some
      have inside := sound.leaf_below some
      exact some (clear p (by omega))

/-- `uvmfree` gives back all pages of a page table that maps none above its size. -/
theorem uvmfree_gives (pt : Pagetable) (sz : Nat) (free : ∀ pa ∈ s.freelist, F pa)
    (use : ∀ pa, 0 < pt.owned pa → F pa)
    (sound : pt.Sound) : Gives (uvmfree pt sz) s fun _ s' => Uses F s s' ∧
    (∀ x, s'.freelist.count x = total s pt x) := by
  have tables (pt : Pagetable) (clear : ∀ p, pt.leaf p = none) (x : Nat) : pt.owned x = pt.tables x := by
    unfold Pagetable.owned
    rw [Tally.zero fun j _ => by rw [Pagetable.frame, clear j]; exact (Option.some_ne_none x).symm]
    exact Nat.add_zero _
  have own : ∀ pa, 0 < pt.tables pa → F pa := fun pa here => use pa (by unfold Pagetable.owned; omega)
  unfold uvmfree
  refine Gives.ite (fun _ => ?_) fun _ => ?_
  · unfold uvmunmap
    rw [if_neg (by decide)]
    refine (unmapLoop_gives _ pt 0 free fun q pte _ _ there => use pte.pa ?_).bind fun pt' s₁ unmapped => ?_
    · have counted : 0 < tally pt.frame pte.pa (2 ^ 27) :=
        Tally.pos_iff.mpr ⟨q, sound.leaf_below (there ▸ Option.some_ne_none pte),
          by rw [Pagetable.frame, there, Option.map_some]⟩
      unfold Pagetable.owned
      omega
    · obtain ⟨step, leaf, balance⟩ := unmapped
      refine (freewalk_gives pt' step.free (fun pa here => ?_) (step.sound sound)).mono fun _ s₂ freed => ?_
      · have same := balance pa
        unfold total Pagetable.owned at same
        by_cases listed : pa ∈ s.freelist
        · exact free pa listed
        · have none := List.count_eq_zero.mpr listed
          refine use pa ?_
          unfold Pagetable.owned
          omega
      · obtain ⟨uses, count, clear⟩ := freed
        refine ⟨step.toUses.trans uses, fun x => ?_⟩
        have same := balance x
        unfold total at same ⊢
        rw [tables pt' clear] at same
        rw [count, same]
  · refine (freewalk_gives pt free own sound).mono fun _ s₁ freed => ?_
    obtain ⟨uses, count, clear⟩ := freed
    refine ⟨uses, fun x => ?_⟩
    unfold total
    rw [count, tables pt clear]

/-- Whatever a page table and the list together have more than before, the list may have. -/
theorem owned_uses (free : ∀ pa ∈ s.freelist, F pa)
    (balance : ∀ x, total s' pt x = s.freelist.count x) (pa : Nat)
    (here : 0 < pt.owned pa) : F pa := by
  refine free pa (List.count_pos_iff.mp ?_)
  have same := balance pa
  unfold total at same
  omega

/-- A page table without entries. -/
def emptyTable (root : Nat) : Pagetable := ⟨root, fun _ => none, fun _ => none, fun _ => none⟩

theorem emptyTable_sound (root : Nat) : (emptyTable root).Sound :=
  ⟨fun some => absurd rfl some, fun some => absurd rfl some, fun some => absurd rfl some⟩

theorem emptyTable_owned (root x : Nat) : (emptyTable root).owned x = if root = x then 1 else 0 := by
  have empty (n : Nat) : tally (fun _ => none) x n = 0 := Tally.zero fun _ _ => (Option.some_ne_none x).symm
  have frames : (emptyTable root).frame = fun _ => none := rfl
  unfold Pagetable.owned Pagetable.tables
  rw [frames, empty]
  show _ + tally (fun _ => none) x _ + tally (fun _ => none) x _ + 0 = _
  rw [empty, empty]
  rfl

theorem uvmcreate_gives (free : ∀ pa ∈ s.freelist, F pa) : Gives uvmcreate s fun r s' => Uses F s s' ∧
    (r = none ∧ s'.freelist = s.freelist ∨
      ∃ root, r = some (emptyTable root) ∧ ∀ x, total s' (emptyTable root) x = s.freelist.count x) := by
  unfold uvmcreate
  refine (kalloc_gives free).bind fun r s₁ alloc => ?_
  obtain ⟨uses, -, ⟨rfl, rfl, -⟩ | ⟨root, rfl, list⟩⟩ := alloc
  · exact Gives.pure ⟨uses, .inl ⟨rfl, rfl⟩⟩
  · have own : F root := free root (list ▸ List.mem_cons_self ..)
    refine (memset_gives uses.free own).bind fun _ s₂ set => Gives.pure ⟨uses.trans set.1,
      .inr ⟨root, rfl, fun x => ?_⟩⟩
    unfold total
    rw [emptyTable_owned, set.2.2, list, count_cons]

/-- The page table of a new process image has the trampoline and the trapframe, and if it cannot be made all
pages are free again. -/
theorem procPagetable_gives (p : Proc) (free : ∀ pa ∈ s.freelist, F pa) :
    Gives (procPagetable p) s fun r s' => Uses F s s' ∧
    (r = none ∧ (∀ x, s'.freelist.count x = s.freelist.count x) ∨ ∃ pt, r = some pt ∧ pt.Sound ∧
      (∀ x, total s' pt x = s.freelist.count x + (if s.trampoline = x then 1 else 0) +
      if p.trapframe = x then 1 else 0) ∧
      pt.leaf = update (update (fun _ => none) (TRAMPOLINE / PGSIZE)
        (some ⟨s.trampoline, ⟨true, false, true, false⟩⟩))
        (TRAPFRAME / PGSIZE) (some ⟨p.trapframe, ⟨true, true, false, false⟩⟩)) := by
  unfold procPagetable
  refine (uvmcreate_gives free).bind fun r s₁ created => ?_
  obtain ⟨uses, ⟨rfl, list⟩ | ⟨root, rfl, balance⟩⟩ := created
  · exact Gives.pure ⟨uses, .inl ⟨rfl, fun x => by rw [list]⟩⟩
  refine Gives.bind_run (rfl : trampoline s₁ = .ok (s₁.trampoline, s₁)) ?_
  refine (mappages_gives (emptyTable root) TRAMPOLINE s₁.trampoline ⟨true, false, true, false⟩
    uses.free).bind fun r s₂ mapped => ?_
  obtain ⟨step, -, -, ⟨zero, -, leaf, balance₂⟩ | ⟨failed, leaf, balance₂, -⟩⟩ := mapped
  swap
  · refine Gives.ite (fun _ => ?_) fun wrong => absurd failed (by omega)
    have same (x : Nat) : total s₂ r.2 x = s.freelist.count x := (balance₂ x).trans (balance x)
    refine (uvmfree_gives r.2 0 step.free (owned_uses free same) (step.sound (emptyTable_sound root))).bind
      fun _ s₃ freed => ?_
    exact Gives.pure ⟨uses.trans (step.toUses.trans freed.1), .inl ⟨rfl, fun x => (freed.2 x).trans (same x)⟩⟩
  refine Gives.ite (fun wrong => absurd zero (by omega)) fun _ => ?_
  refine (mappages_gives r.2 TRAPFRAME p.trapframe ⟨true, true, false, false⟩ step.free).bind
    fun r' s₃ mapped' => ?_
  have sound := step.sound (emptyTable_sound root)
  obtain ⟨step', -, -, ⟨zero', -, leaf', balance₃⟩ | ⟨failed', leaf', balance₃, -⟩⟩ := mapped'
  · refine Gives.ite (fun wrong => absurd zero' (by omega)) fun _ => ?_
    refine Gives.pure ⟨uses.trans (step.toUses.trans step'.toUses),
      .inr ⟨r'.2, rfl, step'.sound sound, fun x => ?_, ?_⟩⟩
    · rw [balance₃, balance₂, balance, uses.trampoline]
    · rw [leaf', leaf, uses.trampoline]
      rfl
  · refine Gives.ite (fun _ => ?_) fun wrong => absurd failed' (by omega)
    refine (unmapKeep_gives r'.2 TRAMPOLINE).bind fun pt s₄ unmapped => ?_
    obtain ⟨rfl, rfl, -, pte, here, balance₄⟩ := unmapped
    rw [leaf', leaf, update_self] at here
    obtain rfl := Option.some.inj here
    have same (x : Nat) : total s₄ { r'.2 with leaf := update r'.2.leaf (TRAMPOLINE / PGSIZE) none } x =
      s.freelist.count x := by
      have third := balance₃ x
      have second := balance₂ x
      have first := balance x
      have last := balance₄ x
      dsimp only at last ⊢
      omega
    have unmap : Step F s₄ s₄ r'.2 { r'.2 with leaf := update r'.2.leaf (TRAMPOLINE / PGSIZE) none } :=
      setLeaf_step (.refl step'.free) fun _ some => absurd rfl some
    refine (uvmfree_gives _ 0 step'.free (owned_uses free same) (unmap.sound (step'.sound sound))).bind
      fun _ s₅ freed => ?_
    exact Gives.pure ⟨uses.trans (step.toUses.trans (step'.toUses.trans freed.1)),
      .inl ⟨rfl, fun x => (freed.2 x).trans (same x)⟩⟩

/-- What `proc_freepagetable` gives back of a page table with a trampoline and a trapframe. -/
theorem procFreepagetable_gives (pt : Pagetable) (sz : Nat) {top frame : Pte}
    (free : ∀ pa ∈ s.freelist, F pa) (sound : pt.Sound)
    (there : pt.leaf (TRAMPOLINE / PGSIZE) = some top) (there' : pt.leaf (TRAPFRAME / PGSIZE) = some frame)
    (use : ∀ pa, (if top.pa = pa then 1 else 0) + (if frame.pa = pa then 1 else 0) < pt.owned pa → F pa) :
    Gives (procFreepagetable pt sz) s fun _ s' => Uses F s s' ∧
      ∀ x, s'.freelist.count x + (if top.pa = x then 1 else 0) + (if frame.pa = x then 1 else 0) =
      total s pt x := by
  unfold procFreepagetable
  refine (unmapKeep_gives pt TRAMPOLINE).bind fun pt₁ s₁ unmapped => ?_
  obtain ⟨rfl, rfl, -, pte, here, balance⟩ := unmapped
  obtain rfl := Option.some.inj (here.symm.trans there)
  refine (unmapKeep_gives _ TRAPFRAME).bind fun pt₂ s₂ unmapped' => ?_
  obtain ⟨rfl, rfl, -, pte', here', balance'⟩ := unmapped'
  dsimp only at here' balance balance' ⊢
  rw [update_of_ne (by decide), there'] at here'
  obtain rfl := Option.some.inj here'
  have step : Step F s₂ s₂ pt { pt with leaf := update pt.leaf (TRAMPOLINE / PGSIZE) none } :=
    setLeaf_step (.refl free) fun _ some => absurd rfl some
  have step' : Step F s₂ s₂ { pt with leaf := update pt.leaf (TRAMPOLINE / PGSIZE) none }
      { pt with leaf := update (update pt.leaf (TRAMPOLINE / PGSIZE) none) (TRAPFRAME / PGSIZE) none } :=
    setLeaf_step (.refl free) fun _ some => absurd rfl some
  refine (uvmfree_gives _ sz free (fun pa own => use pa ?_) (step'.sound (step.sound sound))).mono
    fun _ s₃ freed => ?_
  · have first := balance pa
    have second := balance' pa
    unfold total at first second
    omega
  · obtain ⟨uses, count⟩ := freed
    refine ⟨uses, fun x => ?_⟩
    have first := balance x
    have second := balance' x
    rw [count]
    omega

/-- An entry without the user bit. -/
def Pte.clear (pte : Pte) : Pte := ⟨pte.pa, pte.perm.r, pte.perm.w, pte.perm.x, false⟩

/-- `uvmclear` keeps the frames. -/
theorem uvmclear_gives (pt : Pagetable) (va : Nat) (free : ∀ pa ∈ s.freelist, F pa) :
    Gives (uvmclear pt va) s fun pt' s' =>
    s' = s ∧ Step F s s pt pt' ∧ (∀ x, total s pt' x = total s pt x) ∧
      pt'.leaf = update pt.leaf (va / PGSIZE) ((pt.leaf (va / PGSIZE)).map Pte.clear) := by
  unfold uvmclear
  refine (look_gives pt va).bind fun r s₁ look => ?_
  obtain ⟨found, pt₁⟩ := r
  obtain ⟨rfl, rfl, below⟩ := look
  dsimp only
  refine Gives.ite (fun _ => Gives.throw _) fun _ => Gives.pure ⟨rfl, ?_, fun x => ?_, rfl⟩
  · refine setLeaf_step (.refl free) fun sound some => ?_
    obtain ⟨-, -, -, index, -⟩ := page_indices below
    refine sound.leaf fun none => some ?_
    rw [none]
    rfl
  · obtain ⟨-, -, -, -, small⟩ := page_indices below
    have kept := @owned_setLeaf pt₁ (va / PGSIZE) (by omega) ((pt₁.leaf (va / PGSIZE)).map Pte.clear) x
    have frame : ((pt₁.leaf (va / PGSIZE)).map Pte.clear).map Pte.pa = pt₁.frame (va / PGSIZE) := by
      rw [Pagetable.frame, Option.map_map]
      rfl
    rw [frame] at kept
    exact congrArg (s₁.freelist.count x + ·) (Nat.add_right_cancel kept)

end Whole

end Xv6.Vm
