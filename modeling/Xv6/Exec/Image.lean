import Xv6.Exec.Machine
import Xv6.Vm.Stack

/-! The page table of a new program, which is made of free pages only. -/

namespace Xv6.Exec
open Function Vm

/-- No page is free twice, and the trampoline and the trapframe are not free. -/
structure Spare (s : Memory) (trapframe : Nat) : Prop where
  nodup : s.freelist.Nodup
  trampoline : s.trampoline ∉ s.freelist
  trapframe : trapframe ∉ s.freelist

/-- Since `s₀` pages that were free have become a page table and its user pages, with the trampoline and the
trapframe besides; the others that were free still are. -/
structure Image (s₀ : Memory) (trapframe : Nat) (s : Memory) (pt : Pagetable) :
    Prop extends Uses (· ∈ s₀.freelist) s₀ s where
  sound : pt.Sound
  top : pt.leaf (TRAMPOLINE / PGSIZE) = some ⟨s₀.trampoline, ⟨true, false, true, false⟩⟩
  frame : pt.leaf (TRAPFRAME / PGSIZE) = some ⟨trapframe, ⟨true, true, false, false⟩⟩
  user {q pte} : pt.leaf q = some pte → pte.perm.u = true → pte.pa ∈ s₀.freelist
  balance (x) : total s pt x =
    s₀.freelist.count x + (if s₀.trampoline = x then 1 else 0) + if trapframe = x then 1 else 0

section Image

variable {s₀ s s' : Memory} {trapframe va : Nat} {pt pt' : Pagetable} {pte : Pte}

theorem Image.once (image : Image s₀ trapframe s pt) (spare : Spare s₀ trapframe) :
    Once (· ∈ s₀.freelist) s pt := by
  refine ⟨image.sound, image.user, fun {x} listed => ?_⟩
  have other : s₀.trampoline ≠ x := fun same => spare.trampoline (same ▸ listed)
  have other' : trapframe ≠ x := fun same => spare.trapframe (same ▸ listed)
  rw [image.balance, if_neg other, if_neg other']
  exact List.nodup_iff_count_le_one.mp spare.nodup x

theorem Image.grown (image : Image s₀ trapframe s pt) (grown : Grown (· ∈ s₀.freelist) s s' pt pt') :
    Image s₀ trapframe s' pt' :=
  { image.toUses.trans grown.toUses with
    sound := grown.sound image.sound
    top := grown.kept image.top
    frame := grown.kept image.frame
    user := fun here user => (grown.new here).elim (fun old => image.user old user) id
    balance := fun x => (grown.total x).trans (image.balance x) }

/-- Pages that were free are written. -/
theorem Image.written (image : Image s₀ trapframe s pt) (uses : Uses (· ∈ s₀.freelist) s s')
    (list : s'.freelist = s.freelist) :
    Image s₀ trapframe s' pt :=
  { image.toUses.trans uses with
    sound := image.sound
    top := image.top
    frame := image.frame
    user := image.user
    balance := fun x => by
      rw [← image.balance x]
      unfold total
      rw [list] }

/-- The page of the stack guard is taken from the user. -/
theorem Image.clear (image : Image s₀ trapframe s pt) (here : pt.leaf (va / PGSIZE) = some pte)
    (user : pte.perm.u = true) :
    Gives (uvmclear pt va) s fun pt' s' => s' = s ∧ Image s₀ trapframe s pt' ∧
      pt'.leaf = update pt.leaf (va / PGSIZE) (some pte.clear) := by
  refine (uvmclear_gives pt va image.free).mono fun pt' s' ⟨same, step, balance, leaf⟩ => ⟨same, ?_⟩
  rw [here, Option.map_some] at leaf
  have apart {q : Nat} {pte' : Pte} (there : pt.leaf q = some pte') (kernel : pte'.perm.u = false) :
    q ≠ va / PGSIZE := by
    rintro rfl
    obtain rfl := Option.some.inj (here.symm.trans there)
    rw [user] at kernel
    cases kernel
  refine ⟨{ image.toUses with
    sound := step.sound image.sound
    top := by rw [leaf, update_of_ne (apart image.top rfl), image.top]
    frame := by rw [leaf, update_of_ne (apart image.frame rfl), image.frame]
    user := fun {q pte'} there user' => ?_
    balance := fun x => (balance x).trans (image.balance x) }, leaf⟩
  by_cases same : q = va / PGSIZE
  · rw [leaf, same, update_self] at there
    obtain rfl := Option.some.inj there
    cases user'
  · rw [leaf, update_of_ne same] at there
    exact image.user there user'

/-- `proc_pagetable` makes the first pages of one, or gives back those that it has taken. -/
theorem procPagetable_image (p : Vm.Proc) : Gives (procPagetable p) s fun r s' =>
    r = none ∧ Uses (· ∈ s.freelist) s s' ∧ s'.freelist.Perm s.freelist ∨ ∃ pt, r = some pt ∧
      Image s p.trapframe s' pt := by
  refine (procPagetable_gives p fun _ => id).mono fun r s' ⟨uses, way⟩ => ?_
  obtain ⟨rfl, count⟩ | ⟨pt, rfl, sound, balance, leaf⟩ := way
  · exact .inl ⟨rfl, uses, List.perm_iff_count.mpr count⟩
  refine .inr ⟨pt, rfl, { uses with
    sound
    balance
    top := by rw [leaf, update_of_ne (by decide), update_self]
    frame := by rw [leaf, update_self]
    user := fun {q pte} here user => ?_ }⟩
  rw [leaf] at here
  by_cases frame : q = TRAPFRAME / PGSIZE
  · rw [frame, update_self] at here
    obtain rfl := Option.some.inj here
    cases user
  · rw [update_of_ne frame] at here
    by_cases top : q = TRAMPOLINE / PGSIZE
    · rw [top, update_self] at here
      obtain rfl := Option.some.inj here
      cases user
    · rw [update_of_ne top] at here
      cases here

/-- All of it is given back. -/
theorem Image.freed (image : Image s₀ trapframe s pt) (sz : Nat) :
    Gives (procFreepagetable pt sz) s fun _ s' =>
    Uses (· ∈ s₀.freelist) s₀ s' ∧ s'.freelist.Perm s₀.freelist := by
  refine (procFreepagetable_gives pt sz image.free image.sound image.top image.frame fun pa own => ?_).mono
    fun _ s' ⟨uses, count⟩ => ⟨image.toUses.trans uses, List.perm_iff_count.mpr fun x => ?_⟩
  · have balance := image.balance pa
    dsimp only at own
    refine List.count_pos_iff.mp ?_
    unfold total at balance
    omega
  · have balance := image.balance x
    have back := count x
    dsimp only at back
    omega

end Image

end Xv6.Exec
