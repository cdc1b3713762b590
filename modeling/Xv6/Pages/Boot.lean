import Xv6.Pages.Slots

/-! The first process is made from a kernel that has booted. -/

namespace Xv6.Pages
open Function Fork
open Vm (Pagetable Pte Perm Memory VmM Uses Shaped Owned Resized Valid total PGSIZE MAXVA TRAMPOLINE
  TRAPFRAME kalloc kalloc_safe kalloc_gives descend walk
  mappages mapLoop uvmcreate procPagetable mappages_safe mappages_gives emptyTable)

section Few

variable {s : Memory} {pt : Pagetable} {a pa va : Nat} {perm : Perm}

theorem kalloc_few : Gives kalloc s fun _ s' => s.freelist.length ≤ s'.freelist.length + 1 := by
  refine (kalloc_gives (F := fun _ => True) fun _ _ => trivial).mono fun r s' ⟨_, _, way⟩ => ?_
  obtain ⟨-, rfl, -⟩ | ⟨page, -, list⟩ := way
  · exact Nat.le_succ _
  · rw [list]
    exact le_rfl

theorem descend_few (entry : Option Nat) : Gives (descend entry true) s fun _ s' => s.freelist.length ≤
    s'.freelist.length + 1 := by
  cases entry with
  | some page => exact Gives.pure (Nat.le_succ _)
  | none =>
    refine kalloc_few.bind fun r s' few => ?_
    cases r with
    | none => exact Gives.pure few
    | some page => exact .seq (Gives.modify (Gives.pure few))

/-- `walk` takes two pages at most. -/
theorem walk_few : Gives (walk pt va true) s fun _ s' => s.freelist.length ≤ s'.freelist.length + 2 := by
  unfold Vm.walk
  refine Gives.ite (fun _ => Gives.throw _) fun _ => (descend_few _).bind fun mid s₁ few => ?_
  cases mid with
  | none => exact Gives.pure (by omega)
  | some mid =>
    refine (descend_few _).bind fun low s₂ few' => ?_
    cases low <;> exact Gives.pure (by omega)

theorem mappages_few : Gives (mappages pt a PGSIZE pa perm) s fun _ s' => s.freelist.length ≤
    s'.freelist.length + 2 := by
  unfold mappages
  refine Gives.ite (fun _ => Gives.throw _) fun _ => Gives.ite (fun _ => Gives.throw _) fun _ =>
    Gives.ite (fun _ => Gives.throw _) fun _ => ?_
  have one : PGSIZE / PGSIZE = 1 := rfl
  rw [one]
  refine walk_few.bind fun r s₁ few => Gives.ite (fun _ => Gives.pure few) fun _ => Gives.ite
    (fun _ => Gives.throw _) fun _ => Gives.pure few

theorem procPagetable_few (p : Vm.Proc) : Gives (procPagetable p) s fun r s' => r ≠ none →
    s.freelist.length ≤ s'.freelist.length + 5 := by
  have create : Gives uvmcreate s fun _ s' => s.freelist.length ≤ s'.freelist.length + 1 := by
    unfold uvmcreate
    refine kalloc_few.bind fun r s' few => ?_
    cases r with
    | none => exact Gives.pure few
    | some page => exact .seq (Gives.modify (Gives.pure few))
  unfold procPagetable
  refine create.bind fun r s₁ few => ?_
  cases r with
  | none => exact Gives.pure fun wrong => absurd rfl wrong
  | some pt =>
    refine Gives.bind_run (rfl : Vm.trampoline s₁ = .ok (s₁.trampoline, s₁))
      (mappages_few.bind fun r s₂ few₂ => ?_)
    refine Gives.ite (fun _ => Gives.any.bind fun _ _ _ => Gives.pure fun wrong =>
      absurd rfl wrong) fun _ => ?_
    refine mappages_few.bind fun r' s₃ few₃ => Gives.ite (fun _ => ?_) fun _ => Gives.pure fun _ => by omega
    exact Gives.any.bind fun _ _ _ => Gives.any.bind fun _ _ _ => Gives.pure fun wrong => absurd rfl wrong

theorem allocproc_few {k : Fork.Kernel} : Gives Fork.allocproc k fun r k' =>
    r ≠ none → k.memory.freelist.length ≤ k'.memory.freelist.length + 6 := by
  unfold Fork.allocproc
  refine Gives.bind_run (rfl : (get : ForkM Fork.Kernel) k = .ok (k, k)) ?_
  split
  · exact Gives.pure fun wrong => absurd rfl wrong
  unfold Fork.found
  refine Gives.bind_run (rfl : Fork.allocpid k = .ok (k.nextpid, { k with nextpid := k.nextpid + 1 })) ?_
  refine .seq (Gives.modify (.seq (.part (kalloc_few.mono fun r s few => ?_))))
  cases r with
  | none => exact .seq (Gives.modify (Gives.any.bind fun _ _ _ => Gives.pure fun wrong => absurd rfl wrong))
  | some page =>
    refine .seq (Gives.modify (.seq (.part ((procPagetable_few _).mono fun r' s' few' => ?_))))
    cases r' with
    | none => exact .seq (Gives.modify (Gives.any.bind fun _ _ _ => Gives.pure fun wrong => absurd rfl wrong))
    | some pt =>
      refine Gives.bind_run rfl (.seq (Gives.modify (Gives.pure fun _ => ?_)))
      have more := few' (Option.some_ne_none pt)
      dsimp only at few more ⊢
      omega

end Few

section Boot

variable {boot : Kernel} {k k' : Fork.Kernel} {np : ProcId} {pt : Pagetable} {s : Memory}
  {F : Nat → Prop} {top frame : Nat}

/-- The first page of the first process is there as long as three pages are free. -/
theorem uvmfirst_ends (own : Owned F s pt 0 top frame) (enough : 3 < s.freelist.length) :
    Ends (uvmfirst pt initcode) s (fun _ => False) fun pt' s' => Resized F s s' pt pt' PGSIZE top frame := by
  have empty : pt.leaf (0 / PGSIZE) = none := by
    by_contra some
    rcases own.above some (Nat.zero_le _) with top | frame
    · exact absurd top (by decide)
    · exact absurd frame (by decide)
  unfold uvmfirst
  rw [if_neg (by decide)]
  refine ((kalloc_safe s).ends.and ((kalloc_gives own.free).and kalloc_few)).bind fun r s₁ ⟨same,
    ⟨uses, _, way⟩, few⟩ => ?_
  obtain ⟨rfl, rfl, list⟩ | ⟨mem, rfl, list⟩ := way
  · rw [list] at enough
    cases enough
  have page : F mem := own.free mem (list ▸ List.mem_cons_self ..)
  obtain ⟨own₁, count₁⟩ := own.taken uses list same
  have own₂ := own₁.write mem 0 PGSIZE fun _ => 0
  refine .seq (Ends.modify ?_)
  let s₂ := s₁.write mem 0 PGSIZE fun _ => 0
  have safe : Vm.Safe (mappages pt 0 PGSIZE mem ⟨true, true, true, true⟩) s₂ :=
    mappages_safe pt _ (by decide) (by decide) empty s₂
  refine (safe.ends.and ((mappages_gives pt 0 mem ⟨true, true, true, true⟩ own₂.free).and mappages_few)).bind
    fun r s₃ ⟨same₃, ⟨step, _, _, way⟩, few₃⟩ => .seq (Ends.modify (Ends.pure ?_))
  obtain ⟨_, _, leaf, balance⟩ | ⟨_, _, _, list₃⟩ := way
  swap
  · rw [list₃] at few₃
    change s₁.freelist.length ≤ _ at few₃
    rw [List.length_nil] at few₃
    omega
  have spare : total s₂ pt mem = 0 := by
    have once := own.once page
    have less := count₁ mem
    rw [if_pos rfl] at less
    show total s₁ pt mem = 0
    omega
  have own₃ := own₂.extended (by decide) page spare rfl same₃ step leaf balance
  rw [Nat.zero_add] at own₃
  refine { uses.trans ((Vm.write_uses uses.free page 0 PGSIZE _).trans
    (step.toUses.trans (Vm.write_uses step.free page 0 initcode.length _))) with
    kernelEnd := same₃.trans same
    owned := own₃.write ..
    total := fun x => ?_ }
  have first := count₁ x
  rw [← first]
  exact balance x

theorem Booted.orderly (booted : Booted boot) : Orderly boot [] boot.toKernel := by
  refine ⟨rfl, rfl, fun listed => ?_, nofun, fun p => .blank (booted.unused p) (booted.blank p),
    fun {x} _ => ?_, fun f => ?_⟩
  · have lower := (booted.pages _ listed).2.1
    have below := booted.trampoline
    omega
  · rw [Finset.sum_eq_zero fun p _ => held_none (booted.blank p).pagetable x]
    rfl
  · rw [booted.closed, Finset.sum_eq_zero fun p _ => ?_]
    · rfl
    · exact Finset.sum_eq_zero fun fd _ => if_neg (by rw [(booted.blank p).ofile]; nofun)

/-- The first process has its address space. -/
theorem userinit_orderly (booted : Booted boot) (root : Nat) :
    Ends (userinit root) boot.toKernel (· = "kerneltrap") fun _ k =>
    Orderly boot [] k := by
  have orderly := booted.orderly
  unfold userinit
  refine ((allocproc_ends booted orderly).and allocproc_few).bind fun r k₁ ⟨way, few⟩ => ?_
  obtain ⟨rfl, -⟩ | ⟨np, rfl, moved, made⟩ := way
  · exact Ends.throw rfl
  have few := few (Option.some_ne_none np)
  have enough := booted.enough
  have used : (k₁.proc np).state ≠ .unused := by rw [made.used]; nofun
  obtain ⟨pt, space⟩ := moved.orderly.space used
  have own := moved.orderly.owned booted space
  rw [made.size] at own
  refine .bind_run (rfl : (get : ForkM Fork.Kernel) k₁ = .ok (k₁, k₁)) ?_
  rw [space.pagetable]
  refine .seq (.part (((uvmfirst_ends own (by omega)).weaken fun _ => False.elim).mono
    fun pt' s' resized => ?_))
  let slot : Fork.Slot := { k₁.proc np with pagetable := some pt', sz := PGSIZE }
  have turn := space.resized slot resized.owned resized.kernelEnd resized.trampoline resized.total
    (fun x out _ => resized.mem out) rfl rfl rfl used (fun _ => made.ofile) rfl
  have moved₂ := turn.moved booted moved.orderly
  let k₂ : Fork.Kernel := { k₁ with memory := s', proc := update k₁.proc np slot }
  have here : k₂.proc np = slot := update_self ..
  change Moved boot [] _ k₁ k₂ at moved₂
  obtain ⟨pt₂, space₂⟩ := moved₂.orderly.space (p := np) (by rw [here]; exact used)
  refine Ends.bind_run (rfl : (get : ForkM Fork.Kernel) { k₁ with memory := s' } =
    .ok ({ k₁ with memory := s' }, { k₁ with memory := s' })) ?_
  refine .seq (Ends.modify (.seq
    (.part (Ends.modify (.seq (.part (Ends.modify (.seq (Ends.modify (Ends.modify ?_))))))))))
  have frame : (k₂.proc np).trapframe = (k₁.proc np).trapframe := by rw [here]
  have kept (x : Nat) (way : x = boot.memory.trampoline ∨ pt₂.owned x = 0) :
      ((s'.write (k₁.proc np).trapframe Exec.epc 8 fun _ => 0).write
      (k₁.proc np).trapframe Exec.sp 8 (Bytes.ofNat PGSIZE)).mem x = s'.mem x := by
    have first := space₂.frame_written (s := s') Exec.epc 8 (fun _ => 0) x way
    have second := space₂.frame_written (s := s'.write (k₁.proc np).trapframe Exec.epc 8 fun _ => 0)
      Exec.sp 8 (Bytes.ofNat PGSIZE) x way
    rw [frame] at first second
    exact second.trans first
  have last := moved₂.orderly.written space₂ ((s'.write (k₁.proc np).trapframe Exec.epc 8 fun _ => 0).write
      (k₁.proc np).trapframe Exec.sp 8 (Bytes.ofNat PGSIZE)) { k₂.proc np with
    name := safestrcpy (k₂.proc np).name (Bytes.ofList [0x69, 0x6e, 0x69, 0x74, 0x63, 0x6f, 0x64, 0x65]) 16
    cwd := root, state := .runnable } k₁.fileRef (update k₁.inodeRef root (k₁.inodeRef root + 1)) rfl rfl rfl
    (fun x _ => kept x) rfl rfl rfl nofun nofun fun _ => rfl
  exact last.orderly moved₂.orderly

end Boot

end Xv6.Pages
