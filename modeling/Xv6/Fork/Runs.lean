import Xv6.Fork.Machine

/-! `fork` makes a whole child or leaves everything as it was. -/

namespace Xv6.Fork
open Function
open Vm (Pagetable Memory Pte VmM PGSIZE TRAMPOLINE TRAPFRAME Uses total kalloc kfree kfree_gives
  kalloc_gives procPagetable
  procPagetable_gives procFreepagetable procFreepagetable_gives uvmcopy uvmcopy_gives emptyTable count_cons)

/-- What holds when the process at `p` calls `fork`: an entry that is not used has no memory and no files, no
page is free twice, and none of the pages of the process is free. -/
structure Ready (k : Kernel) (p : ProcId) : Prop where
  used : (k.proc p).state ≠ .unused
  blank {q} : (k.proc q).state = .unused → (k.proc q).sz = 0 ∧ (k.proc q).pagetable = none ∧
    ∀ fd, (k.proc q).ofile fd = none
  nodup : k.memory.freelist.Nodup
  nonnull : 0 ∉ k.memory.freelist
  trapframe : (k.proc p).trapframe ∉ k.memory.freelist
  pages {pt q pte} : (k.proc p).pagetable = some pt → pt.leaf q = some pte → pte.pa ∉ k.memory.freelist
  named : ∃ i < 16, (k.proc p).name i = 0
  nextpid : 0 < k.nextpid

/-- Nothing has changed that can be seen, except the next process number. -/
structure Unchanged (k k' : Kernel) : Prop where
  free : k'.memory.freelist.Perm k.memory.freelist
  mem {pa} : pa ∉ k.memory.freelist → k'.memory.mem pa = k.memory.mem pa
  fileRef : k'.fileRef = k.fileRef
  inodeRef : k'.inodeRef = k.inodeRef
  unused (q) : (k'.proc q).state = .unused ↔ (k.proc q).state = .unused
  proc {q} : (k.proc q).state ≠ .unused → k'.proc q = k.proc q
  nextpid : k'.nextpid = k.nextpid ∨ k'.nextpid = k.nextpid + 1

/-- The child `np` of the process at `p` is whole. -/
structure Forked (k k' : Kernel) (p np : ProcId) : Prop where
  unused : (k.proc np).state = .unused
  state : (k'.proc np).state = .runnable
  pid : (k'.proc np).pid = k.nextpid
  parent : (k'.proc np).parent = some p
  sz : (k'.proc np).sz = (k.proc p).sz
  pages : ∃ old new, (k.proc p).pagetable = some old ∧ (k'.proc np).pagetable = some new ∧
    ∀ va < (k.proc p).sz, ∃ pte pa, old.leaf (va / PGSIZE) = some pte ∧
    new.leaf (va / PGSIZE) = some ⟨pa, pte.perm⟩ ∧
      (∀ q pte', old.leaf q = some pte' → pte'.pa ≠ pa) ∧
      k'.memory.mem pa (va % PGSIZE) = k.memory.mem pte.pa (va % PGSIZE)
  trapframe : (k'.proc np).trapframe ≠ (k.proc p).trapframe
  registers : ∀ i < trapframeSize, i < a0 ∨ a0 + 8 ≤ i →
    k'.memory.mem (k'.proc np).trapframe i = k.memory.mem (k.proc p).trapframe i
  result : (k'.memory.mem (k'.proc np).trapframe).le a0 8 = 0
  ofile : (k'.proc np).ofile = (k.proc p).ofile
  cwd : (k'.proc np).cwd = (k.proc p).cwd
  name : (k'.proc np).name.str 16 = (k.proc p).name.str 16
  traceMask : (k'.proc np).traceMask = (k.proc p).traceMask
  fileRef (f) : k'.fileRef f = k.fileRef f + (List.finRange NOFILE).countP fun fd =>
    (k.proc p).ofile fd = some f
  inodeRef : k'.inodeRef = update k.inodeRef (k.proc p).cwd (k.inodeRef (k.proc p).cwd + 1)
  mem {pa} : pa ∉ k.memory.freelist → k'.memory.mem pa = k.memory.mem pa
  others {q} : q ≠ np → k'.proc q = k.proc q
  nextpid : k'.nextpid = k.nextpid + 1

/-- Only the entry `np` and free pages have changed, and `np` has got the next process number. -/
structure Within (k k' : Kernel) (np : ProcId) :
    Prop extends Uses (· ∈ k.memory.freelist) k.memory k'.memory where
  others {q} : q ≠ np → k'.proc q = k.proc q
  fileRef : k'.fileRef = k.fileRef
  inodeRef : k'.inodeRef = k.inodeRef
  nextpid : k'.nextpid = k.nextpid + 1

/-- The leaves of the page table of a process without user memory. -/
def ends (trampoline trapframe : Nat) : Nat → Option Pte :=
  update (update (fun _ => none) (TRAMPOLINE / PGSIZE) (some ⟨trampoline, ⟨true, false, true, false⟩⟩))
    (TRAPFRAME / PGSIZE) (some ⟨trapframe, ⟨true, true, false, false⟩⟩)

/-- The entry `np` after `allocproc`. -/
structure Fresh (k k' : Kernel) (np : ProcId) (pt : Pagetable) : Prop extends Within k k' np where
  unused : (k.proc np).state = .unused
  pid : (k'.proc np).pid = k.nextpid
  sz : (k'.proc np).sz = 0
  ofile (fd) : (k'.proc np).ofile fd = none
  page : (k'.proc np).trapframe ∈ k.memory.freelist
  pagetable : (k'.proc np).pagetable = some pt
  sound : pt.Sound
  leaf : pt.leaf = ends k.memory.trampoline (k'.proc np).trapframe
  balance (x) : total k'.memory pt x = k.memory.freelist.count x + if k.memory.trampoline = x then 1 else 0

section Fork

variable {k k' k'' : Kernel} {p np : ProcId} {pt old : Pagetable}

theorem setProc_gives {f : Slot → Slot} {Q : Unit → Kernel → Prop}
    (holds : Q () { k with proc := update k.proc p (f (k.proc p)) }) :
    Gives (setProc p f) k Q := Gives.modify holds

/-- What `freeproc` does with the entry `np`, if its pages are free again afterwards. -/
theorem freeproc_gives (within : Within k k' np) (unused : (k.proc np).state = .unused) (page sz : Nat)
    (table : Option Pagetable)
    (trapframe : (k'.proc np).trapframe = page) (pagetable : (k'.proc np).pagetable = table)
    (size : (k'.proc np).sz = sz)
    (pages : Gives (if page ≠ 0 then kfree page else pure ()) k'.memory fun _ s =>
      Gives (match table with | some pt => procFreepagetable pt sz | none => pure ()) s fun _ s' =>
        Uses (· ∈ k.memory.freelist) k.memory s' ∧ ∀ x, s'.freelist.count x = k.memory.freelist.count x) :
    Gives (freeproc np) k' fun _ k'' => Unchanged k k'' := by
  have ended (s : Memory) (uses : Uses (· ∈ k.memory.freelist) k.memory s)
      (count : ∀ x, s.freelist.count x = k.memory.freelist.count x) (f : Slot → Slot)
      (free : ∀ slot, (f slot).state = .unused) :
      Gives (setProc np f) { k' with memory := s } fun _ k'' => Unchanged k k'' := by
    refine setProc_gives ⟨List.perm_iff_count.mpr count, uses.mem, within.fileRef, within.inodeRef,
      fun q => ?_, fun {q} used => ?_,
      .inr within.nextpid⟩
    · dsimp only
      by_cases same : q = np
      · rw [same, update_self, free, unused]
      · rw [update_of_ne same, within.others same]
    · have other : q ≠ np := fun same => used (same ▸ unused)
      dsimp only
      rw [update_of_ne other, within.others other]
  unfold freeproc
  refine Gives.bind_run (rfl : (get : ForkM Kernel) k' = .ok (k', k')) ?_
  dsimp only
  rw [trapframe, pagetable, size]
  have emptied (s : Memory) (after : Gives (match table with
        | some pt => procFreepagetable pt sz | none => pure ()) s fun _ s' =>
      Uses (· ∈ k.memory.freelist) k.memory s' ∧ ∀ x, s'.freelist.count x =
      k.memory.freelist.count x) (f : Slot → Slot)
      (free : ∀ slot, (f slot).state = .unused) :
      Gives (match table with
          | some pt => vm (procFreepagetable pt sz) >>= fun _ => setProc np f
          | none => setProc np f)
        { k' with memory := s } fun _ k'' => Unchanged k k'' := by
    cases table with
    | none =>
      obtain ⟨uses, count⟩ := after _ _ rfl
      exact ended s uses count f free
    | some pt => exact .seq (.part (after.mono fun _ s' ⟨uses, count⟩ => ended s' uses count f free))
  by_cases null : page ≠ 0
  · rw [if_pos null] at pages ⊢
    refine .seq (.part (pages.mono fun _ s after => ?_))
    exact emptied s after _ fun _ => rfl
  · rw [if_neg null] at pages ⊢
    exact emptied k'.memory (pages _ _ rfl) _ fun _ => rfl

theorem Within.setProc (within : Within k k' np) (f : Slot → Slot) :
    Within k { k' with proc := update k'.proc np (f (k'.proc np)) } np :=
  { within with others := fun other => (update_of_ne other _ _).trans (within.others other) }

theorem Within.memory (within : Within k k' np) {s : Memory}
    (uses : Uses (· ∈ k.memory.freelist) k.memory s) :
    Within k { k' with memory := s } np :=
  { uses with
    others := within.others
    fileRef := within.fileRef
    inodeRef := within.inodeRef
    nextpid := within.nextpid }

theorem found_gives (ready : Ready k p) (unused : (k.proc np).state = .unused) :
    Gives (found np) k fun r k' =>
    r = none ∧ Unchanged k k' ∨ r = some np ∧ ∃ pt, Fresh k k' np pt := by
  obtain ⟨sz, pagetable, ofile⟩ := ready.blank unused
  have start : Within k { k with nextpid := k.nextpid + 1 } np := { Uses.refl fun _ => id with
    others := fun _ => rfl
    fileRef := rfl
    inodeRef := rfl
    nextpid := rfl }
  have named := start.setProc fun slot => { slot with pid := k.nextpid, state := .used }
  unfold found
  refine Gives.bind_run (rfl : allocpid k = .ok (k.nextpid, { k with nextpid := k.nextpid + 1 })) ?_
  refine .seq (setProc_gives (.seq (.part ((kalloc_gives named.free).mono fun r s₁ alloc => ?_))))
  obtain ⟨uses, -, ⟨rfl, same, -⟩ | ⟨page, rfl, list⟩⟩ := alloc
  · dsimp only at same
    rw [same]
    refine .seq (setProc_gives ?_)
    refine (freeproc_gives (named.setProc fun slot => { slot with trapframe := 0 }) unused 0 0 none
      (by simp only [update_self]) (by simp only [update_self, pagetable]) (by simp only [update_self, sz])
      ?_).bind fun _ k'' undone => Gives.pure (.inl ⟨rfl, undone⟩)
    exact Gives.pure (Gives.pure ⟨.refl fun _ => id, fun _ => rfl⟩)
  dsimp only at list
  have listed : page ∈ k.memory.freelist := list ▸ List.mem_cons_self ..
  have nonnull : page ≠ 0 := fun zero => ready.nonnull (zero ▸ listed)
  have paged := (named.memory uses).setProc fun slot => { slot with trapframe := page }
  refine .seq (setProc_gives (.seq
    (.part ((procPagetable_gives ⟨emptyTable 0, 0, page⟩ uses.free).mono fun r s₂ made => ?_))))
  obtain ⟨uses', ⟨rfl, count⟩ | ⟨pt, rfl, sound, balance, leaf⟩⟩ := made
  · have tabled := (paged.memory (uses.trans uses')).setProc fun slot => { slot with pagetable := none }
    refine .seq (setProc_gives ?_)
    refine (freeproc_gives tabled unused page 0 none (by simp only [update_self]) (by simp only [update_self])
      (by simp only [update_self, sz]) ?_).bind fun _ k'' undone => Gives.pure (.inl ⟨rfl, undone⟩)
    rw [if_pos nonnull]
    refine (kfree_gives uses'.free listed).mono fun _ s₃ freed => Gives.pure
      ⟨uses.trans (uses'.trans freed.1), fun x => ?_⟩
    rw [freed.2, count_cons, count, list, count_cons]
  · have tabled := (paged.memory (uses.trans uses')).setProc fun slot =>
      { slot with
        pagetable := some pt, context := update (update (fun _ => 0) 0 k.forkret) 1 (slot.kstack +
        PGSIZE), traceMask := 0 }
    refine Gives.bind_run rfl (.seq (setProc_gives (Gives.pure (.inr ⟨rfl, pt, ?_⟩))))
    exact { tabled with
      unused
      pid := by simp only [update_self]
      sz := by simp only [update_self, sz]
      ofile := fun fd => by simp only [update_self, ofile]
      page := by simp only [update_self, listed]
      pagetable := by simp only [update_self]
      sound
      leaf := by simp only [update_self, leaf, ends, uses.trampoline]
      balance := fun x => by
        rw [balance, list, count_cons, uses.trampoline]
        dsimp only
        omega }

theorem Unchanged.refl (k : Kernel) : Unchanged k k :=
  ⟨.refl _, fun _ => rfl, rfl, rfl, fun _ => Iff.rfl, fun _ => rfl, .inl rfl⟩

theorem allocproc_gives (ready : Ready k p) : Gives allocproc k fun r k' =>
    r = none ∧ Unchanged k k' ∨ ∃ np pt, r = some np ∧ Fresh k k' np pt := by
  unfold allocproc
  refine Gives.bind_run (rfl : (get : ForkM Kernel) k = .ok (k, k)) ?_
  cases entry : (List.finRange NPROC).find? fun p => (k.proc p).state = .unused with
  | none => exact Gives.pure (.inl ⟨rfl, .refl k⟩)
  | some np =>
    have unused := List.find?_some entry
    refine (found_gives ready (of_decide_eq_true unused)).mono fun r k' result => ?_
    rcases result with failed | ⟨rfl, pt, fresh⟩
    · exact .inl failed
    · exact .inr ⟨np, pt, rfl, fresh⟩

/-- The child has got the files of the parent at the descriptors of a list, and each has one
more reference. -/
structure Shares (k k' : Kernel) (p np : ProcId) (l : List (Fin NOFILE)) : Prop where
  rest : k' = { k with proc := k'.proc, fileRef := k'.fileRef }
  others {q} : q ≠ np → k'.proc q = k.proc q
  slot : k'.proc np = { k.proc np with ofile := (k'.proc np).ofile }
  ofile (fd) : (k'.proc np).ofile fd =
    if fd ∈ l then ((k.proc p).ofile fd).or ((k.proc np).ofile fd) else (k.proc np).ofile fd
  fileRef (f) : k'.fileRef f = k.fileRef f + l.countP fun fd => (k.proc p).ofile fd = some f

theorem dupFiles_gives (other : p ≠ np) (l : List (Fin NOFILE)) :
    Gives (l.forM (dupFile p np)) k fun _ k' => Shares k k' p np l := by
  induction l generalizing k with
  | nil => exact Gives.pure ⟨rfl, fun _ => rfl, rfl, fun _ => rfl, fun f => (Int.add_zero _).symm⟩
  | cons fd l ih =>
    show Gives (forM (fd :: l) (dupFile p np)) k _
    rw [List.forM_cons]
    unfold dupFile
    refine .seq (Gives.bind_run (rfl : (get : ForkM Kernel) k = .ok (k, k)) ?_)
    cases file : (k.proc p).ofile fd with
    | none =>
      refine Gives.pure (ih.mono fun _ k' done => ⟨done.rest, done.others, done.slot,
        fun fd' => ?_, fun f => ?_⟩)
      · rw [done.ofile]
        by_cases same : fd' = fd
        · rw [same, file]
          simp
        · simp [same]
      · rw [done.fileRef]
        simp [file]
    | some f =>
      refine .seq fun _ k₁ dup => setProc_gives (ih.mono fun _ k' done => ?_)
      unfold filedup at dup
      split at dup
      · cases dup
      · cases dup
        obtain ⟨rest, others, slot, ofile, fileRef⟩ := done
        dsimp only at rest others slot ofile fileRef
        simp only [update_of_ne other, update_self] at ofile slot fileRef
        refine ⟨rest, fun different => (others different).trans (update_of_ne different _ _), slot,
          fun fd' => ?_, fun f' => ?_⟩
        · rw [ofile]
          by_cases same : fd' = fd
          · rw [same, file, update_self]
            simp
          · simp [same]
        · rw [fileRef]
          by_cases same : f' = f
          · rw [same, update_self]
            simp [file]
            omega
          · simp [file, same, Ne.symm same]

/-- What `fork` fills in of the child. -/
structure Filled (k k' : Kernel) (p np : ProcId) : Prop where
  memory : k'.memory = (k.memory.write (k.proc np).trapframe 0 trapframeSize
    (k.memory.mem (k.proc p).trapframe)).write
    (k.proc np).trapframe a0 8 fun _ => 0
  slot : k'.proc np = { k.proc np with
    state := .runnable, parent := some p, sz := (k.proc p).sz, ofile := (k.proc p).ofile, cwd := (k.proc p).cwd
    name := safestrcpy (k.proc np).name (k.proc p).name 16, traceMask := (k.proc p).traceMask }
  others {q} : q ≠ np → k'.proc q = k.proc q
  fileRef (f) : k'.fileRef f = k.fileRef f + (List.finRange NOFILE).countP fun fd =>
    (k.proc p).ofile fd = some f
  inodeRef : k'.inodeRef = update k.inodeRef (k.proc p).cwd (k.inodeRef (k.proc p).cwd + 1)
  nextpid : k'.nextpid = k.nextpid

theorem setChild_gives (other : p ≠ np) (empty : ∀ fd, (k.proc np).ofile fd = none) :
    Gives (setChild p np) k fun r k' => r = (k.proc np).pid ∧ Filled k k' p np := by
  unfold setChild
  refine Gives.bind_run (rfl : (get : ForkM Kernel) k = .ok (k, k))
    (Gives.bind_run (rfl : (get : ForkM Kernel) k = .ok (k, k)) ?_)
  refine .seq (setProc_gives (.seq (.part (Gives.modify (.seq (.part (Gives.modify (.seq (setProc_gives ?_)))))))))
  refine .seq ((dupFiles_gives other _).mono fun _ k₁ shared =>
    .seq (Gives.modify (.seq (setProc_gives (Gives.pure ?_)))))
  obtain ⟨rest, others, slot, ofile, fileRef⟩ := shared
  dsimp only at rest others slot ofile fileRef
  simp only [update_of_ne other, update_self, List.mem_finRange, if_true, empty, Option.or_none] at slot ofile fileRef
  have files : (k₁.proc np).ofile = (k.proc p).ofile := funext ofile
  rw [files] at slot
  refine ⟨rfl, ?_⟩
  exact {
    memory := by
      dsimp only
      rw [rest]
    slot := by
      dsimp only
      rw [update_self, slot]
    others := fun different => by
      dsimp only
      rw [update_of_ne different, others different, update_of_ne different, update_of_ne different]
    fileRef
    inodeRef := by
      dsimp only
      rw [rest]
    nextpid := by
      dsimp only
      rw [rest] }

/-- The page of the trapframe is not free any more. -/
theorem Fresh.count_le (fresh : Fresh k k' np pt) (x : Nat) :
    k'.memory.freelist.count x + (if (k'.proc np).trapframe = x then 1 else 0) ≤
    k.memory.freelist.count x := by
  have top : pt.frame (TRAMPOLINE / PGSIZE) = some k.memory.trampoline := by
    rw [Pagetable.frame, fresh.leaf]
    rfl
  have frame : pt.frame (TRAPFRAME / PGSIZE) = some (k'.proc np).trapframe := by
    rw [Pagetable.frame, fresh.leaf]
    rfl
  have both := @Tally.two pt.frame x (TRAMPOLINE / PGSIZE) (2 ^ 27) _ _ (TRAPFRAME / PGSIZE) (by decide)
    (by decide) (by decide) top frame
  have balance := fresh.balance x
  unfold total Pagetable.owned at balance
  omega

theorem Fresh.nodup (fresh : Fresh k k' np pt) (nodup : k.memory.freelist.Nodup) :
    k'.memory.freelist.Nodup := by
  rw [List.nodup_iff_count_le_one] at nodup ⊢
  intro x
  have less := fresh.count_le x
  have one := nodup x
  omega

theorem Fresh.page_taken (fresh : Fresh k k' np pt) (nodup : k.memory.freelist.Nodup) :
    (k'.proc np).trapframe ∉ k'.memory.freelist := by
  intro listed
  have less := fresh.count_le (k'.proc np).trapframe
  have one := List.nodup_iff_count_le_one.mp nodup (k'.proc np).trapframe
  have there := List.count_pos_iff.mpr listed
  rw [if_pos rfl] at less
  omega

/-- The child is given back when its memory could not be copied. -/
theorem undo_gives (ready : Ready k p) (fresh : Fresh k k' np pt) {s : Memory} {new : Pagetable}
    (step : Vm.Step (· ∈ k.memory.freelist) k'.memory s pt new) (leaf : new.leaf = pt.leaf)
    (balance : ∀ x, total s new x = total k'.memory pt x) :
    Gives (freeproc np)
      { k' with
        memory := s, proc := update k'.proc np { k'.proc np with pagetable := some new } } fun _ k'' =>
      Unchanged k k'' := by
  have within := (fresh.toWithin.memory (fresh.toUses.trans step.toUses)).setProc fun slot =>
    { slot with pagetable := some new }
  have nonnull : (k'.proc np).trapframe ≠ 0 := fun zero => ready.nonnull (zero ▸ fresh.page)
  refine freeproc_gives within fresh.unused (k'.proc np).trapframe 0 (some new) (by simp only [update_self])
    (by simp only [update_self]) (by simp only [update_self, fresh.sz]) ?_
  rw [if_pos nonnull]
  refine (kfree_gives step.free fresh.page).mono fun _ s₁ freed => ?_
  obtain ⟨uses, list⟩ := freed
  have whole (x : Nat) : s.freelist.count x + new.owned x =
      k.memory.freelist.count x + if k.memory.trampoline = x then 1 else 0 := (balance
        x).trans (fresh.balance x)
  have top : new.leaf (TRAMPOLINE / PGSIZE) = some ⟨k.memory.trampoline, ⟨true, false, true, false⟩⟩ := by
    rw [leaf, fresh.leaf]
    rfl
  have frame : new.leaf (TRAPFRAME / PGSIZE) = some ⟨(k'.proc np).trapframe, ⟨true, true, false, false⟩⟩ := by
    rw [leaf, fresh.leaf]
    rfl
  refine (procFreepagetable_gives new 0 uses.free (step.sound fresh.sound) top frame fun pa more => ?_).mono
    fun _ s₂ freed => ?_
  · have here := whole pa
    dsimp only at more
    exact List.count_pos_iff.mp (by omega)
  · obtain ⟨uses', count⟩ := freed
    refine ⟨fresh.toUses.trans (step.toUses.trans (uses.trans uses')), fun x => ?_⟩
    have here := whole x
    have after := count x
    unfold total at after
    rw [list, count_cons] at after
    dsimp only at after
    omega

/-- The child is whole when its memory has been copied and the rest has been filled in. -/
theorem forked (ready : Ready k p) (fresh : Fresh k k' np pt) (table : (k.proc p).pagetable = some old)
    {s : Memory} {new : Pagetable}
    (uses : Uses (· ∈ k.memory.freelist) k'.memory s)
    (copied : ∀ q < ((k.proc p).sz + PGSIZE - 1) / PGSIZE, Vm.Copied old new k'.memory s q)
    (filled : Filled { k' with
      memory := s, proc := update k'.proc np { k'.proc np with pagetable := some new } } k'' p np) :
    Forked k k'' p np := by
  have other : p ≠ np := fun same => ready.used (same ▸ fresh.unused)
  obtain ⟨memory, slot, others, fileRef, inodeRef, nextpid⟩ := filled
  dsimp only at memory slot others fileRef inodeRef nextpid
  simp only [update_self, update_of_ne other, fresh.others other] at memory slot fileRef inodeRef
  have trapframe : (k''.proc np).trapframe = (k'.proc np).trapframe := by rw [slot]
  have kept (pa : Nat) (out : pa ≠ (k'.proc np).trapframe) : k''.memory.mem pa = s.mem pa := by
    rw [memory]
    exact (update_of_ne out _ _).trans (update_of_ne out _ _)
  have before {pa : Nat} (out : pa ∉ k.memory.freelist) : s.mem pa = k.memory.mem pa :=
    (uses.mem out).trans (fresh.mem out)
  have written : k''.memory.mem (k'.proc np).trapframe =
      ((s.mem (k'.proc np).trapframe).splice 0 trapframeSize (k.memory.mem (k.proc p).trapframe)).splice
      a0 8 fun _ => 0 := by
    rw [memory, before ready.trapframe]
    simp only [Memory.write, update_self]
  obtain ⟨i, inside, zero⟩ := ready.named
  exact {
    unused := fresh.unused
    state := by rw [slot]
    pid := by rw [slot, fresh.pid]
    parent := by rw [slot]
    sz := by rw [slot]
    pages := by
      refine ⟨old, new, table, by rw [slot], fun va below => ?_⟩
      obtain ⟨pte, pa, there, there', listed, -, bytes⟩ := copied (va / PGSIZE) (by unfold PGSIZE; omega)
      refine ⟨pte, pa, there, there', fun q pte' mapped same => ?_, ?_⟩
      · exact ready.pages table mapped (same ▸ fresh.free pa listed)
      · have apart : pa ≠ (k'.proc np).trapframe := fun same => fresh.page_taken ready.nodup (same ▸ listed)
        rw [kept pa apart, bytes _ (Nat.mod_lt va (by decide)), fresh.mem (ready.pages table there)]
    trapframe := by
      rw [trapframe]
      exact fun same => ready.trapframe (same ▸ fresh.page)
    registers := fun i below out => by
      rw [trapframe, written, Bytes.splice_outside out, Bytes.splice_inside (Nat.zero_le i) (by omega), Nat.sub_zero]
    result := by
      rw [trapframe, written, Bytes.le_splice_inside le_rfl le_rfl, Bytes.le_zero]
    ofile := by rw [slot]
    cwd := by rw [slot]
    name := by
      rw [slot, Bytes.str_safestrcpy, Bytes.str_of_end zero (by omega : i ≤ 15),
      Bytes.str_of_end zero (by omega : i ≤ 16)]
    traceMask := by rw [slot]
    fileRef := fun f => by rw [fileRef, fresh.fileRef]
    inodeRef := by rw [inodeRef, fresh.inodeRef]
    mem := fun {pa} out => by
      have apart : pa ≠ (k'.proc np).trapframe := fun same => out (same ▸ fresh.page)
      rw [kept pa apart, before out]
    others := fun different => by rw [others different, update_of_ne different, fresh.others different]
    nextpid := by rw [nextpid, fresh.nextpid] }

/-- A call of `fork` leaves everything as it was, with the same pages free, or makes a child that is whole. -/
theorem fork_whole (ready : Ready k p) {r : Int} (run : fork p k = .ok (r, k')) :
    r = -1 ∧ Unchanged k k' ∨ 0 < r ∧ ∃ np, r = (k'.proc np).pid ∧ Forked k k' p np := by
  have gives : Gives (fork p) k fun r k' =>
      r = -1 ∧ Unchanged k k' ∨ 0 < r ∧ ∃ np, r = (k'.proc np).pid ∧ Forked k k' p np := by
    unfold fork
    refine (allocproc_gives ready).bind fun child k₁ result => ?_
    obtain ⟨rfl, same⟩ | ⟨np, pt, rfl, fresh⟩ := result
    · exact Gives.pure (.inl ⟨rfl, same⟩)
    have other : p ≠ np := fun same => ready.used (same ▸ fresh.unused)
    refine Gives.bind_run (rfl : (get : ForkM Kernel) k₁ = .ok (k₁, k₁))
      (Gives.bind_run (rfl : (get : ForkM Kernel) k₁ = .ok (k₁, k₁)) ?_)
    rw [fresh.others other, fresh.pagetable]
    cases table : (k.proc p).pagetable with
    | none => exact Gives.throw _
    | some old =>
      refine Gives.bind_run (rfl : (get : ForkM Kernel) k₁ = .ok (k₁, k₁)) ?_
      rw [fresh.others other]
      have copy := @Vm.uvmcopy_gives (· ∈ k.memory.freelist) k₁.memory old pt (k.proc p).sz fresh.free
        (fresh.nodup ready.nodup)
        fun q pte there listed => ready.pages table there (fresh.free _ listed)
      refine .seq (.part (copy.mono fun r s copied => .seq (setProc_gives ?_)))
      obtain ⟨step, balance, ⟨failed, leaf⟩ | ⟨done, -, -, pages⟩⟩ := copied
      · refine Gives.ite (fun _ => ?_) fun wrong => by omega
        exact (undo_gives ready fresh step leaf balance).bind fun _ k₂ undone => Gives.pure
          (.inl ⟨rfl, undone⟩)
      · refine Gives.ite (fun wrong => by omega) fun _ => ?_
        refine (setChild_gives other ?_).mono fun r' k₂ result => ?_
        · dsimp only
          rw [update_self]
          exact fresh.ofile
        · obtain ⟨rfl, filled⟩ := result
          have whole := forked ready fresh table step.toUses pages filled
          have pid := whole.pid
          have positive := ready.nextpid
          dsimp only
          rw [update_self, fresh.pid]
          exact .inr ⟨positive, np, pid.symm, whole⟩
  exact gives r k' run

end Fork

/-- A process of one page that calls `fork`, the only one, with some free pages. -/
def single (freelist : List Nat) : Kernel where
  memory := ⟨0x80022000, 0x80007000, fun _ _ => 7, freelist, fun _ _ => false⟩
  proc p :=
    { state := if p = initproc then .running else .unused
      chan := 0
      killed := 0
      xstate := 0
      pid := 1
      parent := none
      kstack := 0x3FFFFFD000
      sz := if p = initproc then 4096 else 0
      pagetable := if p = initproc then some ⟨0x87FFF000, fun i => if i = 0 then some 0x87FFE000 else none,
        fun i => if i = 0 then some 0x87FFD000 else none,
        fun q => if q = 0 then some ⟨0x87FFC000, ⟨true, true, false, true⟩⟩ else none⟩ else none
      trapframe := 0x87FFB000
      context := fun _ => 0
      ofile := fun fd => if p = initproc ∧ fd.val = 0 then some 5 else none
      cwd := 3
      name := fun _ => 0
      traceMask := 2 }
  nextpid := 2
  fileRef := fun _ => 1
  inodeRef := fun _ => 1
  forkret := 0x80001000

/-- The trapframe, five tables and a page of the child. -/
def sevenPages : List Nat :=
  [0x87FF4000, 0x87FF5000, 0x87FF6000, 0x87FF7000, 0x87FF8000, 0x87FF9000, 0x87FFA000]

theorem single_ready {freelist : List Nat} (nodup : freelist.Nodup) (others : ∀ pa ∈ freelist, 0 < pa ∧
      pa < 0x87FFB000) :
    Ready (single freelist) initproc where
  used := nofun
  blank {q} unused := by
    have other : q ≠ initproc := by
      rintro rfl
      cases unused
    simp [single, other]
  nodup := nodup
  nonnull listed := Nat.lt_irrefl 0 (others 0 listed).1
  trapframe listed := Nat.lt_irrefl _ (others _ listed).2
  pages {pt q pte} table mapped listed := by
    obtain rfl := Option.some.inj table
    dsimp only at mapped
    split at mapped
    · obtain rfl := Option.some.inj mapped
      have below := (others _ listed).2
      dsimp only at below
      omega
    · cases mapped
  named := ⟨0, by decide, rfl⟩
  nextpid := Int.ofNat_succ_pos 1

theorem fork_seven : ∃ k', fork initproc (single sevenPages) = .ok (2, k') :=
  Gives.run_of_result (by decide +kernel)

theorem fork_six : ∃ k', fork initproc (single sevenPages.tail) = .ok (-1, k') :=
  Gives.run_of_result (by decide +kernel)

/-- Seven pages are enough for the child, and with six nothing is left of it. -/
theorem fork_whole_single : (∃ k', fork initproc (single sevenPages) = .ok (2, k') ∧
      ∃ np, Forked (single sevenPages) k' initproc np) ∧
    ∃ k', fork initproc (single sevenPages.tail) = .ok (-1, k') ∧ Unchanged (single sevenPages.tail) k' := by
  obtain ⟨k', run⟩ := fork_seven
  obtain ⟨k'', run'⟩ := fork_six
  refine ⟨⟨k', run, ?_⟩, k'', run', ?_⟩
  · obtain ⟨wrong, -⟩ | ⟨-, np, -, whole⟩ := fork_whole (single_ready (by decide) (by decide)) run
    · omega
    · exact ⟨np, whole⟩
  · obtain ⟨-, same⟩ | ⟨wrong, -⟩ := fork_whole (single_ready (by decide) (by decide)) run'
    · exact same
    · omega

end Xv6.Fork
