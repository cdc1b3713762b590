import Xv6.Exec.Runs

/-! `sys_exec` replaces the whole program of a process or changes nothing. -/

namespace Xv6.Exec
open Function Content Namei Vm

/-- The pages of `argv` have been taken from those that were free, which alone have been written. -/
structure Taken (k k' : Kernel) (argv : List Nat) :
    Prop extends Uses (· ∈ k.memory.freelist) k.memory k'.memory where
  rest : k' = { k with memory := k'.memory }
  count (x) : k'.memory.freelist.count x + argv.count x = k.memory.freelist.count x

/-- Another program is in memory. The pages of the old one are free, those of the new one were, and none has
been lost. -/
structure Replaced (k k' : Kernel) : Prop where
  rest : k' = { k with memory := k'.memory, fs := k'.fs, pagetable := k'.pagetable, sz := k'.sz, name := k'.name }
  files : Holds [] none k.fs k'.fs
  ready : Ready k'
  total (x) : total k'.memory k'.pagetable x = total k.memory k.pagetable x
  old {x} : 0 < k.pagetable.owned x → x ≠ k.memory.trampoline → x ≠ k.trapframe → x ∈ k'.memory.freelist
  new {x} : 0 < k'.pagetable.owned x → x ≠ k.memory.trampoline → x ≠ k.trapframe → x ∈ k.memory.freelist

section Whole

variable {F : Nat → Prop} {k k' k₁ k₂ : Kernel} {argv : List Nat} {addr max uargv : Nat}
  {buf : Bytes} {r : Int}

theorem fetchstr_gives (addr : Nat) (buf : Bytes) (max : Nat) :
    Gives (fetchstr addr buf max) k fun _ k' => k' = k := by
  have read : Gives (copyinstr k.pagetable buf 0 addr max) k.memory fun _ s => s = k.memory := by
    rcases @copyinstrLoop_spec k.pagetable k.memory buf 0 max addr (max + 1) (Nat.lt_succ_self max) with
      ⟨_, -, -, -, run⟩ | ⟨_, -, -, -, run⟩
    · exact .of_run run rfl
    · exact .of_run run rfl
  unfold fetchstr
  refine Gives.bind_run (rfl : (get : ExecM Kernel) k = .ok (k, k))
    (.seq (.part (read.mono fun r s same => Gives.pure ?_)))
  rw [same]

theorem fetchaddr_gives (addr : Nat) : Gives (fetchaddr addr) k fun _ k' => k' = k := by
  have read : Gives (Vm.copyin k.pagetable (fun _ => 0) 0 addr 8) k.memory fun _ s => s = k.memory := by
    obtain ⟨_, -, run, -⟩ := copyin_spec k.pagetable (fun _ => 0) 0 addr 8 k.memory
    exact .of_run run rfl
  unfold fetchaddr
  refine Gives.bind_run (rfl : (get : ExecM Kernel) k = .ok (k, k))
    (Gives.ite (fun _ => Gives.pure rfl) fun _ => ?_)
  refine .seq (.part (read.mono fun r s same => Gives.pure ?_))
  rw [same]

theorem Taken.refl (k : Kernel) : Taken k k [] := { Uses.refl fun _ => id with
  rest := rfl
  count := fun _ => rfl }

/-- A page is taken and filled. -/
theorem Taken.more {s : Memory} {page : Nat} (taken : Taken k k₁ argv)
    (uses : Uses (· ∈ k.memory.freelist) k₁.memory s)
    (list : k₁.memory.freelist = page :: s.freelist) (buf : Bytes) :
    Taken k { k₁ with memory := s.write page 0 PGSIZE buf } (argv ++ [page]) := by
  have own : page ∈ k.memory.freelist := taken.free page (list ▸ List.mem_cons_self ..)
  exact {
    taken.toUses.trans (uses.trans (write_uses uses.free own 0 PGSIZE buf)) with
    rest := by rw [taken.rest]
    count := fun x => by
      have before := taken.count x
      rw [list, count_cons] at before
      rw [List.count_append, count_cons, List.count_nil]
      show s.freelist.count x + _ = _
      omega }

/-- Each argument gets a page. -/
theorem fetchArgs_gives (uargv n : Nat) (argv : List Nat) (taken : Taken k k₁ argv) :
    Gives (fetchArgs uargv n argv) k₁ fun r k' => Taken k k' r.2 := by
  induction n generalizing argv k₁ with
  | zero => exact Gives.pure taken
  | succ n ih =>
    unfold fetchArgs
    refine (fetchaddr_gives _).bind fun uarg k₂ same => ?_
    subst k₂
    cases uarg with
    | none => exact Gives.pure taken
    | some uarg =>
      refine Gives.ite (fun _ => Gives.pure taken) fun _ => ?_
      refine .seq (.part ((kalloc_gives taken.free).mono fun page s ⟨uses, _, way⟩ => ?_))
      obtain ⟨rfl, rfl, -⟩ | ⟨page, rfl, list⟩ := way
      · exact Gives.pure taken
      refine Gives.bind_run rfl ((fetchstr_gives _ _ _).bind fun r k₂ same => ?_)
      subst k₂
      refine .seq (.part (Gives.modify ?_))
      have more := taken.more uses list r.2
      exact Gives.ite (fun _ => ih _ more) fun _ => Gives.pure more

theorem freeArgs_gives (argv : List Nat) (free : ∀ pa ∈ k.memory.freelist, F pa)
    (own : ∀ page ∈ argv, F page) :
    Gives (freeArgs argv) k fun _ k' => k' = { k with memory := k'.memory } ∧ Uses F k.memory k'.memory ∧
      ∀ x, k'.memory.freelist.count x = k.memory.freelist.count x + argv.count x := by
  unfold freeArgs
  induction argv generalizing k with
  | nil => exact Gives.pure ⟨rfl, .refl free, fun _ => rfl⟩
  | cons page argv ih =>
    show Gives (forM (page :: argv) _) k _
    rw [List.forM_cons]
    refine .seq (.part ((kfree_gives free (own page (List.mem_cons_self ..))).mono fun _ s ⟨uses, list⟩ => ?_))
    refine (ih (k := { k with memory := s }) uses.free fun p member =>
      own p (List.mem_cons_of_mem page member)).mono
      fun _ k' ⟨rest, uses', count⟩ => ⟨rest, uses.trans uses', fun x => ?_⟩
    rw [count, count_cons]
    show s.freelist.count x + _ = _
    rw [list, count_cons]
    omega

theorem Taken.ready (taken : Taken k k₁ argv) (ready : Ready k) : Ready k₁ := by
  have files : k₁.fs = k.fs := by rw [taken.rest]
  have pagetable : k₁.pagetable = k.pagetable := by rw [taken.rest]
  have trapframe : k₁.trapframe = k.trapframe := by rw [taken.rest]
  refine ⟨files ▸ ready.tree, pagetable ▸ ready.sound, ?_, ?_, fun x => ?_⟩
  · rw [pagetable, taken.trampoline]
    exact ready.trampoline
  · rw [pagetable, trapframe]
    exact ready.trapframe
  · have before := ready.once x
    have count := taken.count x
    rw [pagetable]
    unfold total at before ⊢
    omega

theorem Undone.ready (undone : Undone k k') (ready : Ready k) : Ready k' := by
  have pagetable : k'.pagetable = k.pagetable := by rw [undone.rest]
  have trapframe : k'.trapframe = k.trapframe := by rw [undone.rest]
  refine ⟨ready.tree.kept undone.files, pagetable ▸ ready.sound, ?_, ?_, fun x => ?_⟩
  · rw [pagetable, undone.trampoline]
    exact ready.trampoline
  · rw [pagetable, trapframe]
    exact ready.trapframe
  · have before := ready.once x
    unfold total at before ⊢
    rw [pagetable, undone.list.count_eq]
    exact before

theorem Committed.replaced {s : Memory} {pt pt' : Pagetable} {i sz entry stack : Nat}
    {strings : List (List UInt8)} (ready : Ready k)
    (begun : Begun k k₁ i pt sz) (stacked : Stacked k k₁.memory pt sz strings s pt' stack)
    (files : k'.fs = k₁.fs)
    (committed : Committed k s pt' (PGROUNDUP sz + 2 * PGSIZE) entry stack k') : Replaced k k' := by
  have image := stacked.image
  have balance := image.balance
  have count := committed.count
  have pagetable : k'.pagetable = pt' := by rw [committed.rest]
  have trapframe : k'.trapframe = k.trapframe := by rw [committed.rest]
  have holds : Holds [] none k.fs k'.fs := files ▸ begun.files
  have same (x : Nat) : total k'.memory k'.pagetable x = total k.memory k.pagetable x := by
    have before := balance x
    have after := count x
    rw [pagetable]
    unfold total at before ⊢
    omega
  exact {
    rest := by
      rw [pagetable]
      exact committed.rest.trans (by rw [committed.rest])
    files := holds
    ready := {
      tree := ready.tree.kept holds
      sound := pagetable ▸ image.sound
      trampoline := ⟨_, by rw [pagetable, committed.trampoline, image.trampoline]; exact image.top⟩
      trapframe := ⟨_, by rw [pagetable, trapframe]; exact image.frame⟩
      once := fun x => same x ▸ ready.once x }
    total := same
    old := fun {x} own top frame => by
      have after := count x
      rw [if_neg (Ne.symm top), if_neg (Ne.symm frame)] at after
      exact List.count_pos_iff.mp (by omega)
    new := fun {x} own top frame => by
      have before := balance x
      rw [if_neg (Ne.symm top), if_neg (Ne.symm frame)] at before
      rw [pagetable] at own
      unfold total at before
      exact List.count_pos_iff.mp (by omega) }

/-- The pages of the arguments are given back to a process that is as it was. -/
theorem Taken.undone (taken : Taken k k₁ argv) (undone : Undone k₁ k₂) :
    Gives (freeArgs argv) k₂ fun _ k' => Undone k k' := by
  have own : ∀ page ∈ argv, page ∈ k.memory.freelist := fun page member => by
    have count := taken.count page
    have some := List.count_pos_iff.mpr member
    exact List.count_pos_iff.mp (by omega)
  have uses := taken.toUses.trans (undone.toUses.mono taken.free)
  have files : k₁.fs = k.fs := by rw [taken.rest]
  refine (freeArgs_gives argv uses.free own).mono fun _ k' ⟨rest, uses', count⟩ => Kept.undone
    ⟨?_, ?_⟩ (uses.trans uses') ?_
  · rw [rest, undone.rest, taken.rest]
  · rw [rest, ← files]
    exact undone.files
  · refine List.perm_iff_count.mpr fun x => ?_
    rw [count, undone.list.count_eq, taken.count]

theorem Taken.replaced (ready : Ready k) (taken : Taken k k₁ argv) (replaced : Replaced k₁ k₂) :
    Gives (freeArgs argv) k₂ fun _ k' =>
    Replaced k k' ∧ ∀ page ∈ argv, page ∈ k'.memory.freelist := by
  have files : k₁.fs = k.fs := by rw [taken.rest]
  have pagetable : k₁.pagetable = k.pagetable := by rw [taken.rest]
  have trapframe : k₁.trapframe = k.trapframe := by rw [taken.rest]
  refine (freeArgs_gives (F := fun pa => pa ∈ k₂.memory.freelist ∨ pa ∈ argv) argv (fun _ => .inl)
    fun _ => .inr).mono
    fun _ k' ⟨rest, uses, count⟩ => ?_
  have pagetable' : k'.pagetable = k₂.pagetable := by rw [rest]
  have trapframe' : k'.trapframe = k₂.trapframe := by rw [rest]
  have files' : k'.fs = k₂.fs := by rw [rest]
  have listed {x : Nat} (some : 0 < k₂.memory.freelist.count x + argv.count x) : x ∈ k'.memory.freelist := by
    rw [← count] at some
    exact List.count_pos_iff.mp some
  have same (x : Nat) : total k'.memory k'.pagetable x = total k.memory k.pagetable x := by
    have inner := replaced.total x
    have taken' := taken.count x
    rw [pagetable] at inner
    rw [pagetable']
    unfold total at inner ⊢
    rw [count]
    omega
  refine ⟨{
    rest := ?_
    files := files' ▸ files ▸ replaced.files
    ready := {
      tree := files' ▸ replaced.ready.tree
      sound := pagetable' ▸ replaced.ready.sound
      trampoline := ?_
      trapframe := ?_
      once := fun x => ?_ }
    total := same
    old := fun {x} own top frame => ?_
    new := fun {x} own top frame => ?_ }, fun page member => ?_⟩
  · rw [rest, replaced.rest, taken.rest]
  · rw [pagetable', uses.trampoline]
    exact replaced.ready.trampoline
  · rw [pagetable', trapframe']
    exact replaced.ready.trapframe
  · exact same x ▸ ready.once x
  · rw [← pagetable] at own
    rw [← taken.trampoline] at top
    have free := List.count_pos_iff.mpr (replaced.old own top (trapframe ▸ frame))
    exact listed (by omega)
  · rw [pagetable'] at own
    rw [← taken.trampoline] at top
    exact taken.free x (replaced.new own top (trapframe ▸ frame))
  · have some := List.count_pos_iff.mpr member
    exact listed (by omega)

theorem exec_whole (ready : Ready k) {path : List UInt8} (nonzero : ∀ b ∈ path, b ≠ 0)
    (strings : List (List UInt8)) :
    Gives (exec path strings) k fun r k' => r = -1 ∧ Undone k k' ∨ r = strings.length ∧ Replaced k k' := by
  refine (exec_gives ready nonzero).mono fun r k' way => way.imp_right ?_
  rintro ⟨result, i, k₁, pt, sz, s, pt', stack, -, begun, stacked, files, committed⟩
  exact ⟨result, committed.replaced ready begun stacked files⟩

/-- If `sys_exec` gives -1, then everything is as before but the contents of free pages; if it does not, then
the program has been replaced: the pages of the old one are free, no page has been lost, and the pages of the
arguments are free again. -/
theorem sysExec_whole (ready : Ready k) (run : sysExec k = .ok (r, k')) :
    r = -1 ∧ Undone k k' ∧ (∀ reg, k'.register reg = k.register reg) ∧
        (∀ va, k'.pagetable.user k'.memory va = k.pagetable.user k.memory va) ∨
      0 ≤ r ∧ Replaced k k' ∧ ∃ argv k₁, fetchArgs (k.register a1) MAXARG [] k =
      .ok ((true, argv), k₁) ∧ r = argv.length ∧
        ∀ page ∈ argv, page ∈ k'.memory.freelist := by
  have gives : Gives sysExec k fun r k' => r = -1 ∧ Undone k k' ∨ 0 ≤ r ∧ Replaced k k' ∧ ∃ argv k₁,
      fetchArgs (k.register a1) MAXARG [] k = .ok ((true, argv), k₁) ∧ r = argv.length ∧
      ∀ page ∈ argv, page ∈ k'.memory.freelist := by
    unfold sysExec
    refine Gives.bind_run (rfl : (get : ExecM Kernel) k = .ok (k, k))
      ((fetchstr_gives _ _ _).bind fun path k₁ same => ?_)
    subst k₁
    refine Gives.ite (fun _ => Gives.pure (.inl ⟨rfl, ?_⟩)) fun _ => ?_
    · exact Kept.undone ⟨rfl, Holds.refl ready.tree.unlocked ready.tree.unique⟩ (.refl fun _ => id) (.refl _)
    refine ((fetchArgs_gives _ MAXARG [] (.refl k)).and fun r k₁ run => run).bind
      fun r k₁ ⟨taken, fetched⟩ => ?_
    obtain ⟨ok, argv⟩ := r
    refine Gives.ite (fun fine => ?_) fun _ => ?_
    · have fine : ok = true := fine
      subst fine
      refine Gives.bind_run (rfl : (get : ExecM Kernel) k₁ = .ok (k₁, k₁)) ?_
      refine (exec_whole (taken.ready ready) (fun b => Bytes.str_nonzero) _).bind fun r k₂ way => ?_
      obtain ⟨rfl, undone⟩ | ⟨rfl, replaced⟩ := way
      · exact (taken.undone undone).bind fun _ k' undone => Gives.pure (.inl ⟨rfl, undone⟩)
      · refine (taken.replaced ready replaced).bind fun _ k' ⟨replaced, free⟩ => Gives.pure
          (.inr ⟨by omega, replaced, argv, k₁, fetched, ?_, free⟩)
        rw [Kernel.strings, List.length_map]
    · have same : Undone k₁ k₁ := Kept.undone ⟨rfl, Holds.refl (taken.ready ready).tree.unlocked
        (taken.ready ready).tree.unique⟩
        (.refl fun _ => id) (.refl _)
      exact (taken.undone same).bind fun _ k' undone => Gives.pure (.inl ⟨rfl, undone⟩)
  obtain ⟨failed, undone⟩ | done := gives r k' run
  · have pagetable : k'.pagetable = k.pagetable := by rw [undone.rest]
    have trapframe : k'.trapframe = k.trapframe := by rw [undone.rest]
    refine .inl ⟨failed, undone, fun reg => ?_, fun va => ?_⟩
    · unfold Kernel.register
      rw [trapframe, undone.mem ready.spare.trapframe]
    · unfold Pagetable.user
      rw [pagetable]
      cases here : k.pagetable.leaf (va / PGSIZE) with
      | none => rfl
      | some pte => simp only [undone.mem (ready.framed here).1]
  · exact .inr done

end Whole

/-- `process` when only `n` pages are free. -/
def process.fewer (n : Nat) : Kernel :=
  { process 0 with memory := { (process 0).memory with freelist := (process 0).memory.freelist.take n } }

theorem process.fewer_ready (n : Nat) : Ready (process.fewer n) := by
  have ready := process_ready 0
  refine ⟨ready.tree, ready.sound, ready.trampoline, ready.trapframe, fun x => ?_⟩
  have few : ((process 0).memory.freelist.take n).count x ≤ (process 0).memory.freelist.count x :=
    (List.take_sublist ..).count_le x
  exact (Nat.add_le_add_right few _).trans (ready.once x)

/-- The program "a" is run by way of the system call, with the argument "a". Eight free pages are too few for
its stack, and then the call is undone. -/
theorem sysExec_whole_a : (∃ k', sysExec (process 0) = .ok (1, k') ∧ Replaced (process 0) k') ∧
    ∃ k', sysExec (process.fewer 8) = .ok (-1, k') ∧ Undone (process.fewer 8) k' := by
  have results : (sysExec (process 0)).toOption.map Prod.fst = some 1 ∧
      (sysExec (process.fewer 8)).toOption.map Prod.fst = some (-1) := by decide +kernel
  obtain ⟨k₁, run⟩ : ∃ k', sysExec (process 0) = .ok (1, k') := Gives.run_of_result results.1
  obtain ⟨k₂, fails⟩ : ∃ k', sysExec (process.fewer 8) = .ok (-1, k') := Gives.run_of_result results.2
  refine ⟨⟨k₁, run, ?_⟩, k₂, fails, ?_⟩
  · obtain ⟨failed, -⟩ | ⟨-, replaced, -⟩ := sysExec_whole (process_ready 0) run
    · omega
    · exact replaced
  · obtain ⟨-, undone, -⟩ | ⟨done, -⟩ := sysExec_whole (process.fewer_ready 8) fails
    · exact undone
    · omega

end Xv6.Exec
