import Xv6.Exec.Load

/-! `exec` after it has let go of the inode: the stack is added and the new program takes the place of the old
one, or everything is as it was. -/

namespace Xv6.Exec
open Function Content Namei Vm

/-- The new page table is that of the process and its registers are set, and the pages of the old one are
free. -/
structure Committed (k : Kernel) (s : Memory) (pt : Pagetable) (sz entry stack : Nat)
    (k' : Kernel) : Prop where
  rest : k' = { k with memory := k'.memory, fs := k'.fs, pagetable := pt, sz, name := k'.name }
  trampoline : k'.memory.trampoline = s.trampoline
  user (a) : pt.user k'.memory a = pt.user s a
  epc : k'.register epc = entry
  sp : k'.register sp = stack
  a1 : k'.register a1 = stack
  count (x) : k'.memory.freelist.count x + (if k.memory.trampoline = x then 1 else 0) +
    (if k.trapframe = x then 1 else 0) =
    s.freelist.count x + k.pagetable.owned x

/-- Two pages have been added to a page table above a size, the first without the user bit, and the arguments
are on the second. -/
structure Stacked (k : Kernel) (s : Memory) (pt : Pagetable) (sz : Nat) (argv : List (List UInt8))
    (s' : Memory) (pt' : Pagetable)
    (stack : Nat) : Prop where
  image : Image k.memory k.trapframe s' pt'
  kept {q pte} : pt.leaf q = some pte → pt'.leaf q = some pte
  guard : ∃ pa, pt'.leaf (PGROUNDUP sz / PGSIZE) = some ⟨pa, ⟨true, true, false, false⟩⟩
  page : ∃ pa, pt'.leaf (PGROUNDUP sz / PGSIZE + 1) = some ⟨pa, ⟨true, true, false, true⟩⟩
  user {a} : a < PGROUNDUP sz + PGSIZE → pt.leaf (a / PGSIZE) ≠ none → pt'.user s' a = pt.user s a
  small : stack < 2 ^ 64
  arguments : argv.length < MAXARG → (∀ arg ∈ argv, arg.length < PGSIZE) →
    ∃ ps, Arguments pt' s' (PGROUNDUP sz + PGSIZE) (PGROUNDUP sz + 2 * PGSIZE) argv ps ps stack

section Commit

variable {k k' : Kernel} {s s' : Memory} {f : Fs} {pt pt' : Pagetable} {sz entry stack argc : Nat}
  {path : List UInt8}
  {argv : List (List UInt8)}

theorem Image.user_kept (image : Image k.memory k.trapframe s pt) (spare : Spare k.memory k.trapframe)
    (same : ∀ pa ∈ k.memory.freelist, pa ∉ s.freelist → s'.mem pa = s.mem pa) (a : Nat) :
    pt.user s' a = pt.user s a := by
  unfold Pagetable.user
  cases here : pt.leaf (a / PGSIZE) with
  | none => rfl
  | some pte =>
    by_cases user : pte.perm.u = true
    · simp only [user, if_true, same pte.pa (image.user here user) ((image.once spare).unlisted here user)]
    · simp [user]

theorem setRegister_gives {r v : Nat} {Q : Unit → Kernel → Prop}
    (holds : Q () { k with memory := k.memory.write k.trapframe r 8 (Bytes.ofNat v) }) :
    Gives (setRegister r v) k Q :=
  Gives.bind_run (rfl : (get : ExecM Kernel) k = .ok (k, k)) (.part (Gives.modify holds))

/-- The registers that `exec` sets. -/
def registers (s : Memory) (trapframe entry stack : Nat) : Memory :=
  ((s.write trapframe a1 8 (Bytes.ofNat stack)).write trapframe epc 8 (Bytes.ofNat entry)).write
    trapframe sp 8 (Bytes.ofNat stack)

theorem registers_mem (s : Memory) (trapframe entry stack : Nat) :
    (registers s trapframe entry stack).mem trapframe =
    (((s.mem trapframe).store a1 8 stack).store epc 8 entry).store sp 8 stack := by
  unfold registers Memory.write Bytes.store
  simp only [update_self]

theorem registers_other (s : Memory) {trapframe pa : Nat} (entry stack : Nat) (other : pa ≠ trapframe) :
    (registers s trapframe entry stack).mem pa = s.mem pa := by
  unfold registers Memory.write
  simp only [update_of_ne other]

theorem commit_gives (ready : Ready k) (image : Image k.memory k.trapframe s pt) (small : entry < 2 ^ 64)
    (small' : stack < 2 ^ 64) :
    Gives (commit path argc entry pt sz stack) { k with memory := s, fs := f } fun r k' =>
      r = argc ∧ k'.fs = f ∧ Committed k s pt sz entry stack k' := by
  obtain ⟨_, top⟩ := ready.trampoline
  obtain ⟨_, frame⟩ := ready.trapframe
  have spare := ready.spare
  let s₁ := registers s k.trapframe entry stack
  unfold commit
  refine .seq (setRegister_gives (.seq (Gives.modify ?_)))
  refine Gives.bind_run rfl (.seq (Gives.modify (.seq (setRegister_gives (.seq (setRegister_gives ?_))))))
  refine .seq (.part ((procFreepagetable_gives (s := s₁) (F := fun pa => pa ∈ s.freelist ∨
    (if k.memory.trampoline = pa then 1 else 0) +
    (if k.trapframe = pa then 1 else 0) < k.pagetable.owned pa) k.pagetable k.sz (fun _ => .inl)
    ready.sound top frame fun _ => .inr).mono
    fun _ s₂ ⟨uses, count⟩ => Gives.pure ⟨rfl, rfl, ?_⟩))
  have kept {pa : Nat} (unlisted : pa ∉ s.freelist)
    (own : k.pagetable.owned pa ≤ (if k.trapframe = pa then 1 else 0)) :
      s₂.mem pa = s₁.mem pa := uses.mem fun wrong => wrong.elim unlisted fun more => by omega
  have trapframe : s₂.mem k.trapframe =
    (((s.mem k.trapframe).store a1 8 stack).store epc 8 entry).store sp 8 stack := by
    rw [kept (fun listed => spare.trapframe (image.free _ listed)) ?_, registers_mem]
    have once := ready.once k.trapframe
    unfold total at once
    rw [if_pos rfl]
    omega
  exact {
    rest := rfl
    trampoline := uses.trampoline
    user := image.user_kept spare fun pa listed unlisted => by
      have other : pa ≠ k.trapframe := fun same => spare.trapframe (same ▸ listed)
      have once := ready.once pa
      have free := List.count_pos_iff.mpr listed
      unfold total at once
      dsimp only
      rw [kept unlisted (by omega), registers_other s entry stack other]
    epc := by
      show (s₂.mem k.trapframe).le Exec.epc 8 = entry
      rw [trapframe, Bytes.le_store_disjoint (by decide), Bytes.le_store_self small]
    sp := by
      show (s₂.mem k.trapframe).le Exec.sp 8 = stack
      rw [trapframe, Bytes.le_store_self small']
    a1 := by
      show (s₂.mem k.trapframe).le Exec.a1 8 = stack
      rw [trapframe, Bytes.le_store_disjoint (by decide), Bytes.le_store_disjoint (by decide),
      Bytes.le_store_self small']
    count := count }

theorem stack_sizes (small : sz ≤ MAXVA) : (PGROUNDUP sz + (USERSTACK + 1) * PGSIZE) % 2 ^ 64 =
    PGROUNDUP sz + 2 * PGSIZE ∧
    PGROUNDUP (PGROUNDUP sz) = PGROUNDUP sz ∧
    PGROUNDUP (PGROUNDUP sz + 2 * PGSIZE) / PGSIZE = PGROUNDUP sz / PGSIZE + 2 ∧
    sub64 (PGROUNDUP sz + 2 * PGSIZE) ((USERSTACK + 1) * PGSIZE) = PGROUNDUP sz ∧
    sub64 (PGROUNDUP sz + 2 * PGSIZE) (USERSTACK * PGSIZE) = PGROUNDUP sz + PGSIZE ∧
    PGROUNDUP sz + 2 * PGSIZE < 2 ^ 64 := by
  unfold PGROUNDUP sub64 USERSTACK MAXVA PGSIZE at *
  omega

/-- The pages for the stack. -/
theorem stack_pages (image : Image k.memory k.trapframe s pt) (spare : Spare k.memory k.trapframe)
    (small : sz ≤ MAXVA) :
    Gives (uvmalloc pt (PGROUNDUP sz) (PGROUNDUP sz + 2 * PGSIZE) true false) s fun r s' =>
      Image k.memory k.trapframe s' r.2 ∧ (r.1 ≠ 0 → r.1 = PGROUNDUP sz + 2 * PGSIZE ∧
        (∀ q pte, pt.leaf q = some pte → r.2.leaf q = some pte) ∧
        (∀ q, PGROUNDUP sz / PGSIZE ≤ q → q < PGROUNDUP sz / PGSIZE + 2 →
          pt.leaf q = none ∧ ∃ pa, r.2.leaf q = some ⟨pa, ⟨true, true, false, true⟩⟩) ∧
        ∀ a, pt.leaf (a / PGSIZE) ≠ none → r.2.user s' a = pt.user s a) := by
  obtain ⟨-, whole, pages, -⟩ := stack_sizes small
  have below : PGROUNDUP sz ≤ MAXVA := by
    unfold PGROUNDUP MAXVA PGSIZE at *
    omega
  refine (uvmalloc_grown pt _ _ true false below image.free).mono fun r s' ⟨grown, _, added⟩ =>
    ⟨image.grown grown, fun some => ?_⟩
  obtain ⟨size, takes, -, new⟩ := added (Nat.le_add_right ..) some
  rw [whole, pages] at new
  refine ⟨size, fun q pte => grown.kept, fun q lower upper => ?_, fun a there => ?_⟩
  · obtain ⟨none, pa, -, here⟩ := new q lower upper
    exact ⟨none, pa, here⟩
  · exact (image.once spare).user_kept takes (fun _ _ => grown.kept) there

/-- The ends of `exec` that fail after it has let go of the inode. -/
theorem bad_after (image : Image k.memory k.trapframe s pt) (holds : Holds [] none k.fs f) (sz : Nat) :
    Gives (bad (some (pt, sz)) none) { k with memory := s, fs := f } fun _ k' => Undone k k' :=
  .seq (.part ((image.freed sz).mono fun _ _ ⟨uses, list⟩ => Gives.pure (Kept.undone ⟨rfl, holds⟩ uses list)))

theorem pushStack_gives (ready : Ready k) (image : Image k.memory k.trapframe s pt)
    (holds : Holds [] none k.fs f) (small : sz ≤ MAXVA)
    (small' : entry < 2 ^ 64) :
    Gives (pushStack pushArgs path argv entry pt sz) { k with memory := s, fs := f } fun r k' => r =
    -1 ∧ Undone k k' ∨
      r = argv.length ∧ k'.fs = f ∧ ∃ s' pt' stack, Stacked k s pt sz argv s' pt' stack ∧
        Committed k s' pt' (PGROUNDUP sz + 2 * PGSIZE) entry stack k' := by
  obtain ⟨size, -, -, guard, base, fits⟩ := stack_sizes small
  have spare := ready.spare
  unfold pushStack
  dsimp only
  rw [size]
  refine .seq (.part ((stack_pages image spare small).mono fun r s₁ ⟨image₁, added⟩ => ?_))
  obtain ⟨sz1, pt₁⟩ := r
  refine Gives.ite (fun _ => (bad_after image₁ holds _).bind fun _ k' undone => Gives.pure
    (.inl ⟨rfl, undone⟩)) fun some => ?_
  obtain ⟨rfl, kept, new, user⟩ := added some
  rw [guard, base]
  obtain ⟨empty, pa, first⟩ := new (PGROUNDUP sz / PGSIZE) le_rfl (by omega)
  obtain ⟨-, pa', second⟩ := new (PGROUNDUP sz / PGSIZE + 1) (by omega) (by omega)
  refine .seq (.part ((image₁.clear first rfl).mono fun pt₂ s₂ ⟨same, image₂, leaf⟩ => ?_))
  subst same
  have once := image₂.once spare
  have others {q : Nat} (other : q ≠ PGROUNDUP sz / PGSIZE) : pt₂.leaf q = pt₁.leaf q :=
    leaf ▸ update_of_ne other _ _
  refine .seq (.part ((((pushArgs_gives argv _ [] image₂.free fun a pa _ found => ?_).and
    (pushArgs_below once.injective argv _ [])).and ((pushArgs_small argv _ []).and fun r s₃ run => run)).mono
    fun r s₃ ⟨⟨⟨uses, list⟩, below⟩, place, run⟩ => ?_))
  · obtain ⟨-, pte, here, user', rfl⟩ := Pagetable.target_some found
    exact image₂.user here user'
  have image₃ := image₂.written uses list
  cases r with
  | none => exact (bad_after image₃ holds _).bind fun _ k' undone => Gives.pure (.inl ⟨rfl, undone⟩)
  | some stack =>
    refine (commit_gives ready image₃ small' (place stack rfl)).mono fun r k' ⟨result, files, committed⟩ =>
      .inr ⟨result, files, s₃, pt₂, stack, ?_, committed⟩
    exact {
      image := image₃
      kept := fun {q pte} here => by
        rw [others fun same => ?_, kept q pte here]
        rw [same, empty] at here
        cases here
      guard := ⟨pa, by rw [leaf, update_self]; rfl⟩
      page := ⟨pa', by rw [others (by omega), second]⟩
      user := fun {a} lower there => by
        have other : a / PGSIZE ≠ PGROUNDUP sz / PGSIZE := fun same => there (same ▸ empty)
        rw [below a lower, ← user a there]
        unfold Pagetable.user
        rw [others other]
      small := place stack rfl
      arguments := fun few short => by
        obtain ⟨⟨ps, args⟩, -⟩ := pushArgs_stored once.injective argv _ [] (by simpa using few) short
          (Nat.le_add_left ..) (by omega) fits _ s₃ run stack rfl
        exact ⟨ps, args⟩ }

end Commit

end Xv6.Exec
