import Xv6.Exec.Whole
import Xv6.Vm.Safety

/-! `sys_exec` keeps the shape of the address space, and no step of it on memory stops with a panic. -/

namespace Xv6.Exec
open Function Content Namei Vm

/-- The panic of the inode table when all its entries are in use. -/
def Full (e : String) : Prop := e = "iget: no inodes"

/-- What holds when a process calls `exec`: its address space has its shape, and the pages of `F` are free or
its own. -/
structure Begins (F : Nat → Prop) (k : Kernel) : Prop where
  tree : Tree k.fs
  own : Owned F k.memory k.pagetable k.sz k.memory.trampoline k.trapframe
  trampoline : ¬F k.memory.trampoline
  trapframe : ¬F k.trapframe
  apart : k.memory.trampoline ≠ k.trapframe

/-- Another program is in memory, in pages of `F`. -/
structure Renewed (F : Nat → Prop) (k k' : Kernel) : Prop where
  owned : Owned F k'.memory k'.pagetable k'.sz k.memory.trampoline k.trapframe
  trampoline : k'.memory.trampoline = k.memory.trampoline
  total (x) : total k'.memory k'.pagetable x = total k.memory k.pagetable x
  mem {x} : ¬F x → x ≠ k.trapframe → k'.memory.mem x = k.memory.mem x

section Safety

variable {F : Nat → Prop} {k k' k₁ : Kernel} {s s' : Memory} {f : Fs} {ip : Namei.Slot} {pt : Pagetable}
  {i sz entry stack argc : Nat}
  {path : List UInt8} {argv : List (List UInt8)} {E : String → Prop}

theorem Begins.ready (begins : Begins F k) : Ready k := by
  have own := begins.own
  refine ⟨begins.tree, own.sound, ⟨_, own.top⟩, ⟨_, own.frame⟩, fun x => ?_⟩
  by_cases page : F x
  · exact own.once page
  · have few := own.tally_le page
    have unlisted : k.memory.freelist.count x = 0 :=
      List.count_eq_zero.mpr fun listed => page (own.free x listed)
    have apart := begins.apart
    unfold total
    split at few <;> split at few <;> omega

theorem Begins.spared (begins : Begins F k) : ¬k.memory.trampoline ∈ k.memory.freelist ∧
    ¬k.trapframe ∈ k.memory.freelist :=
  ⟨fun listed => begins.trampoline (begins.own.free _ listed), fun listed => begins.trapframe
    (begins.own.free _ listed)⟩

/-- A page table of free pages, before it has user memory. -/
theorem Begins.start (begins : Begins F k) (uses : Uses (· ∈ k.memory.freelist) k.memory s)
    (kernelEnd : s.kernelEnd = k.memory.kernelEnd)
    (shaped : Shaped pt 0 k.memory.trampoline k.trapframe)
    (balance : ∀ x, total s pt x = k.memory.freelist.count x + (if k.memory.trampoline = x then 1 else 0) +
      if k.trapframe = x then 1 else 0) : Owned (· ∈
      k.memory.freelist) s pt 0 k.memory.trampoline k.trapframe := by
  obtain ⟨top, frame⟩ := begins.spared
  refine Owned.start shaped uses.free (fun x listed => ?_) (fun x unlisted => ?_)
    (fun pa listed => kernelEnd ▸ begins.own.valid (begins.own.free pa listed))
    (kernelEnd ▸ begins.own.kernelEnd)
  · have other : k.memory.trampoline ≠ x := by
      rintro rfl
      exact top listed
    have other' : k.trapframe ≠ x := by
      rintro rfl
      exact frame listed
    rw [balance, if_neg other, if_neg other']
    exact List.nodup_iff_count_le_one.mp begins.own.nodup x
  · rw [balance, List.count_eq_zero.mpr unlisted, Nat.zero_add]

theorem endOp_ends {Q : Unit → Kernel → Prop} (holds : Q () { k with outstanding := k.outstanding - 1 }) :
    Ends endOp k E Q := holds

/-- The ends of `exec` that fail while it has the inode. -/
theorem bad_ends (table : Option (Pagetable × Nat)) (holds : Holds [ip] (some ip) k.fs f)
    (present : k.fs.Present (f.inode ip).inum)
    (freed : ∀ pt sz, table = some (pt, sz) → Safe (procFreepagetable pt sz) s) :
    Ends (bad table (some ip)) (k.inside s f) Full fun _ k' => k'.memory.kernelEnd = s.kernelEnd := by
  have left (s : Memory) : Ends (do fs (iunlockput ip); endOp) (k.inside s f) Full fun _ k' =>
    k'.memory.kernelEnd = s.kernelEnd :=
    .seq (.part ((iunlockput_ends holds present).mono fun _ _ _ => endOp_ends rfl))
  unfold bad
  cases table with
  | none => exact left s
  | some table =>
    refine .seq (.part (((freed _ _ rfl).ends.weaken fun _ => False.elim).mono fun _ s' same => ?_))
    exact (left s').mono fun _ _ same' => same'.trans same

/-- `exec` of an inode that it has locked. -/
theorem loadFile_ends (begins : Begins F k) (holds : Holds [ip] (some ip) k.fs f)
    (present : k.fs.Present (f.inode ip).inum)
    (file : Vm.File) : Ends (loadFile ip file) (k.inside k.memory f) Full fun r k' => k'.memory.kernelEnd =
    k.memory.kernelEnd ∧
      ∀ entry pt sz, r = some (entry, pt, sz) →
        Owned (· ∈ k.memory.freelist) k'.memory pt sz k.memory.trampoline k.trapframe ∧ pt.Users := by
  have failed (s : Memory) (same : s.kernelEnd = k.memory.kernelEnd) (table : Option (Pagetable × Nat))
      (freed : ∀ pt sz, table = some (pt, sz) → Safe (procFreepagetable pt sz) s) :
      Ends (bad table (some ip) >>= fun _ => pure none) (k.inside s f) Full fun
        (r : Option (Nat × Pagetable × Nat)) k' =>
        k'.memory.kernelEnd = k.memory.kernelEnd ∧ ∀ entry pt sz, r = some (entry, pt, sz) →
          Owned (· ∈ k.memory.freelist) k'.memory pt sz k.memory.trampoline k.trapframe ∧ pt.Users :=
    (bad_ends table holds present freed).bind fun _ k' same' => Ends.pure ⟨same'.trans same, nofun⟩
  unfold loadFile
  by_cases header : file.count 0 elfhdrSize ≠ elfhdrSize
  · rw [if_pos header]
    exact failed _ rfl none nofun
  by_cases magic : file.bytes.le 0 4 ≠ ELF_MAGIC
  · rw [if_neg header, if_pos magic]
    exact failed _ rfl none nofun
  rw [if_neg header, if_neg magic]
  refine Ends.bind_run (rfl : (get : ExecM Kernel) (k.inside k.memory f) =
    .ok (k.inside k.memory f, k.inside k.memory f)) ?_
  have valid : ∀ pa ∈ k.memory.freelist, Valid k.memory.kernelEnd pa :=
    fun pa listed => begins.own.valid (begins.own.free pa listed)
  refine .seq (.part (((procPagetable_ends ⟨k.pagetable, k.sz, k.trapframe⟩ (fun _ => id) valid).weaken
    fun _ => False.elim).mono
    fun r s₁ ⟨same, uses, way⟩ => ?_))
  obtain ⟨rfl, -⟩ | ⟨pt₀, rfl, shaped, users, balance⟩ := way
  · exact failed s₁ same none nofun
  have own₀ := begins.start uses same shaped balance
  refine .seq (.part (((loadSegments_ends file _ _ own₀ users).weaken fun _ => False.elim).mono
    fun r s₂ ⟨resized, users₂⟩ => ?_))
  obtain ⟨ok, pt, sz⟩ := r
  have same₂ := resized.kernelEnd.trans same
  cases ok with
  | false =>
    refine failed s₂ same₂ (some (pt, sz)) fun _ _ table => ?_
    obtain ⟨rfl, rfl⟩ := Prod.mk.inj (Option.some.inj table)
    exact ⟨(procFreepagetable_ends resized.owned).mono fun _ _ freed => freed.1⟩
  | true =>
    refine .seq (.part ((iunlockput_ends holds present).mono fun _ f' _ =>
      .seq (endOp_ends (Ends.pure ⟨same₂, ?_⟩))))
    rintro _ _ _ ⟨⟩
    exact ⟨resized.owned, users₂⟩

theorem loadProgram_ends (begins : Begins F k) (nonzero : ∀ b ∈ path, b ≠ 0) :
    Ends (loadProgram path) k Full fun r k' =>
    k'.memory.kernelEnd = k.memory.kernelEnd ∧ ∀ entry pt sz, r = some (entry, pt, sz) →
      Owned (· ∈ k.memory.freelist) k'.memory pt sz k.memory.trampoline k.trapframe ∧ pt.Users := by
  have tree := begins.tree
  unfold loadProgram
  refine .seq (Ends.modify (.seq
    (.part ((namei_ends (E := Full) tree path nonzero rfl).mono fun r f ⟨holds, found⟩ => ?_))))
  cases r with
  | none => exact .seq (endOp_ends (Ends.pure ⟨rfl, nofun⟩))
  | some ip =>
    obtain ⟨i, there, inum⟩ : ∃ i, follow k.fs.volume (k.fs.start path) (components path) = some i ∧
      (f.inode ip).inum = i :=
      ⟨_, found.symm, rfl⟩
    have present := tree.follow_present (tree.start_present path) there
    have holds : Holds [ip] none k.fs f := holds
    have used : 0 < (f.inode ip).ref := by
      rw [holds.ref, List.count_singleton_self]
      omega
    refine .seq (.part ((ilock_ends holds used ?_).mono fun _ f₁ ⟨locked, same⟩ => ?_))
    · rw [holds.volume, inum]
      exact present.1
    · refine Ends.bind_run (rfl : (get : ExecM Kernel) (k.inside k.memory f₁) =
        .ok (k.inside k.memory f₁, k.inside k.memory f₁)) ?_
      exact loadFile_ends begins locked (((same ip).trans inum).symm ▸ present) _

/-- The old pages are given back when the new ones have taken their place. -/
theorem commit_ends (begins : Begins F k)
    (own : Owned (· ∈ k.memory.freelist) s pt sz k.memory.trampoline k.trapframe)
    (uses : Uses (· ∈ k.memory.freelist) k.memory s) (same : s.kernelEnd = k.memory.kernelEnd)
    (balance : ∀ x, total s pt x = k.memory.freelist.count x + (if k.memory.trampoline = x then 1 else 0) +
      if k.trapframe = x then 1 else 0) : Ends (commit path argc entry pt sz stack) { k with
        memory := s, fs := f } Full fun _ k' =>
        k'.memory.kernelEnd = k.memory.kernelEnd ∧ Renewed F k k' := by
  let s₁ := registers s k.trapframe entry stack
  have less (x : Nat) (page : F x) : s.freelist.count x + pt.owned x = k.memory.freelist.count x := by
    have sum := balance x
    have other : k.memory.trampoline ≠ x := by
      rintro rfl
      exact begins.trampoline page
    have other' : k.trapframe ≠ x := by
      rintro rfl
      exact begins.trapframe page
    rw [if_neg other, if_neg other'] at sum
    exact sum
  have old : Owned F s₁ k.pagetable k.sz k.memory.trampoline k.trapframe :=
    ⟨begins.own.toShaped, fun pa listed => begins.own.free pa (uses.free pa listed), begins.own.frames,
      begins.own.tables,
      fun {x} page => by
        have once := begins.own.once page
        have sum := less x page
        unfold total at once ⊢
        show s.freelist.count x + _ ≤ 1
        omega, fun page => same ▸ begins.own.valid page, same ▸ begins.own.kernelEnd⟩
  unfold commit
  refine .bind_run (rfl : setRegister a1 stack { k with memory := s, fs := f } =
    .ok ((), { k with memory := s.write k.trapframe a1 8 (Bytes.ofNat stack), fs := f })) ?_
  refine .seq (Ends.modify (.bind_run rfl (.seq (Ends.modify (.bind_run rfl (.bind_run rfl ?_))))))
  refine .seq (.part (((procFreepagetable_ends old).weaken fun _ => False.elim).mono fun _ s₂ ⟨same₂,
    uses₂, count⟩ => Ends.pure ?_))
  have sum (x : Nat) : total s₂ pt x = total k.memory k.pagetable x := by
    have before := balance x
    have after := count x
    change _ = s.freelist.count x + _ at after
    unfold total at before ⊢
    omega
  refine ⟨same₂.trans same, ⟨own.toShaped, uses₂.free, fun early here => begins.own.free _
    (own.frames early here),
    fun here => begins.own.free _ (own.tables here), fun {x} page => sum x ▸ begins.own.once page,
    fun page => same₂ ▸ same ▸ begins.own.valid page, same₂ ▸ same ▸ begins.own.kernelEnd⟩,
    uses₂.trampoline.trans uses.trampoline,
    sum, fun {x} out other => ?_⟩
  exact (uses₂.mem out).trans ((registers_other s entry stack other).trans (uses.mem fun listed =>
    out (begins.own.free x listed)))

/-- The stack is added, and the program takes the place of the old one. -/
theorem pushStack_ends (begins : Begins F k) (image : Image k.memory k.trapframe s pt)
    (own : Owned (· ∈ k.memory.freelist) s pt sz k.memory.trampoline k.trapframe)
    (same : s.kernelEnd = k.memory.kernelEnd) :
    Ends (pushStack pushArgs path argv entry pt sz) { k with memory := s, fs := f } Full fun r k' =>
      k'.memory.kernelEnd = k.memory.kernelEnd ∧ (r = -1 ∨ Renewed F k k') := by
  have small := own.small.trans TRAPFRAME_below
  have spare := begins.ready.spare
  obtain ⟨size, whole, pages, guard, base, -⟩ := stack_sizes small
  have room := PGROUNDUP_small own.small
  have rounded : Owned (· ∈ k.memory.freelist) s pt (PGROUNDUP sz) k.memory.trampoline k.trapframe :=
    { own with
    toShaped := own.toShaped.resize room.1 (by rw [whole]) }
  have failed {s : Memory} {pt : Pagetable} {sz : Nat}
      (own : Owned (· ∈ k.memory.freelist) s pt sz k.memory.trampoline k.trapframe)
      (same : s.kernelEnd = k.memory.kernelEnd) :
      Ends (bad (some (pt, sz)) none >>= fun _ => pure (-1)) { k with memory := s, fs := f } Full fun r k' =>
        k'.memory.kernelEnd = k.memory.kernelEnd ∧ (r = -1 ∨ Renewed F k k') := by
    refine Ends.bind (Q := fun _ k' => k'.memory.kernelEnd = k.memory.kernelEnd) ?_ fun _ k' same' =>
      Ends.pure ⟨same', .inl rfl⟩
    refine .seq (.part (((procFreepagetable_ends own).weaken fun _ => False.elim).mono
      fun _ s' freed => Ends.pure ?_))
    exact freed.1.trans same
  unfold pushStack
  dsimp only
  rw [size]
  refine .seq (.part ((((uvmalloc_ends rounded _ true false).and (stack_pages image spare small)).weaken
    fun _ => False.elim).mono
    fun r s₁ ⟨⟨resized, _⟩, image₁, added⟩ => ?_))
  obtain ⟨sz1, pt₁⟩ := r
  dsimp only at resized image₁ added ⊢
  have same₁ := resized.kernelEnd.trans same
  by_cases none : sz1 = 0
  · rw [if_pos none] at resized ⊢
    exact failed resized.owned same₁
  rw [if_neg none] at resized ⊢
  have size₁ := (added none).1
  subst size₁
  have guarded := ((added none).2.2.1 (PGROUNDUP sz / PGSIZE) le_rfl (by omega)).2
  cases guarded with | intro pa first =>
  rw [guard, base]
  refine .seq (.part ((((uvmclear_ends resized.owned (by omega)).and (image₁.clear first rfl)).weaken
    fun _ => False.elim).mono
    fun pt₂ s₂ ⟨⟨_, cleared⟩, wrote, image₂, _⟩ => ?_))
  obtain rfl := wrote
  have own₂ := cleared.owned
  refine .seq (.part ((((pushArgs_safe _ argv _ [] s₂).ends.and
    ((pushArgs_gives argv _ [] image₂.free fun a pa _ found => ?_).and
    (pushArgs_small argv _ []))).weaken fun _ => False.elim).mono fun r s₃ ⟨same₃, ⟨uses, list⟩, _⟩ => ?_))
  · obtain ⟨-, pte, here, user, rfl⟩ := Pagetable.target_some found
    exact image₂.user here user
  have image₃ := image₂.written uses list
  have own₃ : Owned (· ∈ k.memory.freelist) s₃ pt₂ (PGROUNDUP sz + 2 * PGSIZE)
    k.memory.trampoline k.trapframe := by
    refine (own₂.resized (uses.same pt₂) (fun x => ?_) same₃ own₂.toShaped fun _ _ => own₂.frames).owned
    unfold total
    rw [list]
  cases r with
  | none => exact failed own₃ (same₃.trans same₁)
  | some stack =>
    exact (commit_ends begins own₃ image₃.toUses (same₃.trans same₁) image₃.balance).mono fun r k' ⟨same',
      renewed⟩ => ⟨same', .inr renewed⟩

theorem exec_ends (begins : Begins F k) (nonzero : ∀ b ∈ path, b ≠ 0) :
    Ends (exec path argv) k Full fun r k' =>
    k'.memory.kernelEnd = k.memory.kernelEnd ∧ (r = -1 ∨ Renewed F k k') := by
  unfold exec execWith
  refine ((loadProgram_ends begins nonzero).and (loadProgram_gives begins.ready nonzero)).bind
    fun r k₁ ⟨⟨same, own⟩, way⟩ => ?_
  obtain ⟨rfl, -⟩ | ⟨i, pt, sz, -, rfl, begun⟩ := way
  · exact Ends.pure ⟨same, .inl rfl⟩
  · dsimp only
    rw [begun.rest]
    exact pushStack_ends begins begun.image (own _ _ _ rfl).1 same

theorem fetchstr_ends (addr : Nat) (buf : Bytes) (max : Nat) :
    Ends (fetchstr addr buf max) k Full fun _ _ => True := by
  have read : Ends (copyinstr k.pagetable buf 0 addr max) k.memory Full fun _ _ => True := by
    rcases @copyinstrLoop_spec k.pagetable k.memory buf 0 max addr (max + 1) (Nat.lt_succ_self max) with
      ⟨_, -, -, -, run⟩ | ⟨_, -, -, -, run⟩ <;> exact .of_run run trivial
  unfold fetchstr
  exact Ends.bind_run (rfl : (get : ExecM Kernel) k = .ok (k, k))
    (.seq (.part (read.mono fun _ _ _ => Ends.pure trivial)))

theorem fetchaddr_ends (addr : Nat) : Ends (fetchaddr addr) k Full fun _ _ => True := by
  obtain ⟨_, -, run, -⟩ := copyin_spec k.pagetable (fun _ => 0) 0 addr 8 k.memory
  have read : Ends (Vm.copyin k.pagetable (fun _ => 0) 0 addr 8) k.memory Full fun _ _ => True :=
    .of_run run trivial
  unfold fetchaddr
  refine Ends.bind_run (rfl : (get : ExecM Kernel) k = .ok (k, k))
    (Ends.ite (fun _ => Ends.pure trivial) fun _ => ?_)
  exact .seq (.part (read.mono fun _ _ _ => Ends.pure trivial))

/-- The arguments are read to pages that were free. -/
theorem fetchArgs_ends (uargv n : Nat) (argv : List Nat) (taken : Taken k k₁ argv)
    (same : k₁.memory.kernelEnd = k.memory.kernelEnd) : Ends (fetchArgs uargv n argv) k₁ Full fun _ k' =>
      k'.memory.kernelEnd = k.memory.kernelEnd := by
  induction n generalizing argv k₁ with
  | zero => exact Ends.pure same
  | succ n ih =>
    unfold fetchArgs
    refine ((fetchaddr_ends _).and (fetchaddr_gives _)).bind fun uarg k₂ rest => ?_
    obtain rfl := rest.2
    cases uarg with
    | none => exact Ends.pure same
    | some uarg =>
      refine Ends.ite (fun _ => Ends.pure same) fun _ => ?_
      refine .seq (.part ((((kalloc_safe _).ends.and (kalloc_gives taken.free)).weaken fun _ => False.elim).mono
        fun page s got => ?_))
      obtain ⟨same', uses, -, ⟨rfl, rfl, -⟩ | ⟨page, rfl, list⟩⟩ := got
      · exact Ends.pure same
      refine Ends.bind_run rfl (((fetchstr_ends _ _ _).and (fetchstr_gives _ _ _)).bind fun r k₂ rest => ?_)
      obtain rfl := rest.2
      have more := taken.more uses list r.2
      exact .seq (.part (Ends.modify (Ends.ite (fun _ => ih _ more (same'.trans same)) fun _ =>
        Ends.pure (same'.trans same))))

theorem freeArgs_ends (argv : List Nat) (valid : ∀ page ∈ argv, Valid k.memory.kernelEnd page) :
    Ends (freeArgs argv) k Full fun _ k' => k'.memory.kernelEnd = k.memory.kernelEnd := by
  unfold freeArgs
  induction argv generalizing k with
  | nil => exact Ends.pure rfl
  | cons page argv ih =>
    show Ends (forM (page :: argv) _) k _ _
    rw [List.forM_cons]
    refine .seq (.part (((kfree_safe (valid page (List.mem_cons_self ..))).ends.weaken fun _ =>
      False.elim).mono fun _ s same => ?_))
    exact (ih (k := { k with memory := s }) fun p member => same ▸
      valid p (List.mem_cons_of_mem page member)).mono
      fun _ _ same' => same'.trans same

theorem Taken.begins {argv : List Nat} (taken : Taken k k₁ argv)
    (same : k₁.memory.kernelEnd = k.memory.kernelEnd)
    (begins : Begins F k) : Begins F k₁ := by
  have files : k₁.fs = k.fs := by rw [taken.rest]
  have pagetable : k₁.pagetable = k.pagetable := by rw [taken.rest]
  have size : k₁.sz = k.sz := by rw [taken.rest]
  have trapframe : k₁.trapframe = k.trapframe := by rw [taken.rest]
  have own := begins.own
  refine ⟨files ▸ begins.tree, ?_, ?_, trapframe ▸ begins.trapframe, ?_⟩
  · rw [pagetable, size, trapframe, taken.trampoline]
    refine ⟨own.toShaped, fun pa listed => own.free pa (taken.free pa listed), own.frames, own.tables,
      fun {x} page => ?_,
      fun page => same ▸ own.valid page, same ▸ own.kernelEnd⟩
    have once := own.once page
    have count := taken.count x
    unfold total at once ⊢
    omega
  · rw [taken.trampoline]
    exact begins.trampoline
  · rw [taken.trampoline, trapframe]
    exact begins.apart

/-- The pages of the arguments are given back to the new program. -/
theorem Renewed.back {argv : List Nat} {k₂ : Kernel} (begins : Begins F k) (taken : Taken k k₁ argv)
    (renewed : Renewed F k₁ k₂)
    (uses : Uses F k₂.memory s) (same : s.kernelEnd = k₂.memory.kernelEnd)
    (count : ∀ x, s.freelist.count x = k₂.memory.freelist.count x + argv.count x) :
    Renewed F k { k₂ with memory := s } := by
  have pagetable : k₁.pagetable = k.pagetable := by rw [taken.rest]
  have trapframe : k₁.trapframe = k.trapframe := by rw [taken.rest]
  have balance (x : Nat) : Vm.total s k₂.pagetable x = Vm.total k.memory k.pagetable x := by
    have inner := renewed.total x
    have less := taken.count x
    have more := count x
    rw [pagetable] at inner
    unfold Vm.total at inner ⊢
    omega
  refine ⟨?_, uses.trampoline.trans (renewed.trampoline.trans taken.trampoline), balance,
    fun {x} out other => ?_⟩
  · rw [← taken.trampoline, ← trapframe]
    refine renewed.owned.step (uses.same _) (fun x out => ?_) (fun x page => balance x ▸
      begins.own.once page) same
      renewed.owned.toShaped fun _ _ => renewed.owned.frames
    have none : argv.count x = 0 := by
      have less := taken.count x
      have unlisted : k.memory.freelist.count x = 0 :=
        List.count_eq_zero.mpr fun listed => out (begins.own.free x listed)
      omega
    unfold Vm.total
    rw [count, none, Nat.add_zero]
  · rw [uses.mem out, renewed.mem out (trapframe ▸ other), taken.mem fun listed =>
      out (begins.own.free x listed)]

/-- `sys_exec` can only stop with a panic when the inode table is full; it gives -1, or another program is in
memory. -/
theorem sysExec_ends (begins : Begins F k) : Ends sysExec k Full fun r k' =>
    k'.memory.kernelEnd = k.memory.kernelEnd ∧ (r = -1 ∨ Renewed F k k') := by
  unfold sysExec
  refine Ends.bind_run (rfl : (get : ExecM Kernel) k = .ok (k, k))
    (((fetchstr_ends _ _ _).and (fetchstr_gives _ _ _)).bind
    fun path k₁ ⟨_, rest⟩ => ?_)
  subst k₁
  refine Ends.ite (fun _ => Ends.pure ⟨rfl, .inl rfl⟩) fun _ => ?_
  refine ((fetchArgs_ends _ MAXARG [] (.refl k) rfl).and (fetchArgs_gives _ MAXARG [] (.refl k))).bind
    fun r k₁ ⟨same, taken⟩ => ?_
  obtain ⟨ok, argv⟩ := r
  dsimp only at taken
  have own : ∀ page ∈ argv, F page := fun page member => by
    have count := taken.count page
    have some := List.count_pos_iff.mpr member
    exact begins.own.free page (List.count_pos_iff.mp (by omega))
  refine Ends.ite (fun _ => ?_) fun _ => ?_
  · refine Ends.bind_run (rfl : (get : ExecM Kernel) k₁ = .ok (k₁, k₁)) ?_
    have begins₁ := taken.begins same begins
    refine (exec_ends begins₁ fun b => Bytes.str_nonzero).bind fun r k₂ ⟨same', way⟩ => ?_
    have freed := freeArgs_ends (k := k₂) argv fun page member => same' ▸ begins₁.own.valid (own page member)
    obtain rfl | renewed := way
    · exact freed.bind fun _ k' same'' => Ends.pure ⟨same''.trans (same'.trans same), .inl rfl⟩
    · refine (freed.and (freeArgs_gives argv renewed.owned.free own)).bind fun _ k' ⟨same'', rest,
        uses, count⟩ => Ends.pure ?_
      rw [rest]
      exact ⟨same''.trans (same'.trans same), .inr (renewed.back begins taken uses same'' count)⟩
  · refine (freeArgs_ends argv fun page member => ?_).bind fun _ _ same' => Ends.pure
      ⟨same'.trans same, .inl rfl⟩
    rw [same]
    exact begins.own.valid (own page member)

end Safety

end Xv6.Exec
