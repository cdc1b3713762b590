import Xv6.Exec.Runs
import Xv6.Pages.Turns

/-! What the calls of a process do with its own entry and its own memory. -/

namespace Xv6.Pages
open Function Fork
open Vm (Pagetable Pte Memory Uses Shaped Owned Resized Valid total PGSIZE MAXVA TRAMPOLINE TRAPFRAME
  growproc_ends copyout_safe copyout_gives)

section Calls

variable {boot : Kernel} {pipes : List Nat} {k k' : Fork.Kernel} {p : ProcId} {pt : Pagetable}
  {s' : Memory} {E : String → Prop}

/-- The process at `p` goes on after a move of its own. -/
structure Goes (boot : Kernel) (pipes : List Nat) (k k' : Fork.Kernel) (p : ProcId) :
    Prop extends Moved boot pipes (· = p) k k' where
  running : (k'.proc p).state = .running

theorem Goes.trans {k'' : Fork.Kernel} (first : Goes boot pipes k k' p)
    (second : Goes boot pipes k' k'' p) : Goes boot pipes k k'' p :=
  ⟨first.toMoved.then second.toMoved, second.running⟩

/-- A page that a program may use is one of those below its size. -/
theorem Space.user (space : Space boot.memory.trampoline (k.proc p) pt) {q : Nat} {pte : Pte}
    (here : pt.leaf q = some pte) (user : pte.perm.u = true) :
    pte.pa ≠ boot.memory.trampoline ∧ 0 < pt.owned pte.pa := by
  have framed := space.shaped.sound.framed here
  refine ⟨fun same => ?_, by unfold Pagetable.owned; omega⟩
  have other : q ≠ TRAMPOLINE / PGSIZE := by
    rintro rfl
    obtain rfl := Option.some.inj (space.shaped.top.symm.trans here)
    cases user
  have last := pages_last
  have early : q < 2 ^ 27 := by
    by_contra late
    have above := space.shaped.above (here ▸ Option.some_ne_none pte) ?_
    · omega
    · have small := (Vm.PGROUNDUP_small space.shaped.small).2
      omega
  have two := twice other early (by omega) here space.shaped.top same rfl
  have top := space.top_held
  omega

theorem vmCopyout_ends (booted : Booted boot) (orderly : Orderly boot pipes k)
    (running : (k.proc p).state = .running)
    (space : Space boot.memory.trampoline (k.proc p) pt) (va : Nat) (src : Bytes) (len : Nat) :
    Ends (Fork.vm (Vm.copyout pt va src len)) k E fun _ k' => Goes boot pipes k k' p ∧ k'.proc = k.proc := by
  have copied := copyout_gives (F := fun x => x ∈ k.memory.freelist ∨ x ≠ boot.memory.trampoline ∧
    0 < pt.owned x) pt va src len
    (s := k.memory) (fun _ => .inl) fun a pa _ found => by
      obtain ⟨-, pte, here, user, rfl⟩ := Pagetable.target_some found
      exact .inr (space.user here user)
  refine .part ((((copyout_safe pt va src len k.memory).ends.and copied).weaken fun _ => False.elim).mono
    fun r s' ⟨same, uses, list⟩ => ?_)
  have turn := orderly.written space s' (k.proc p) k.fileRef k.inodeRef same uses.trampoline list
    (fun x unlisted way => uses.mem ?_) rfl rfl rfl (by rw [running]; nofun)
    (by rw [running]; nofun) fun _ => rfl
  · rw [update_eq_self] at turn
    exact ⟨⟨turn.moved booted orderly, running⟩, rfl⟩
  · rintro (listed | ⟨other, some⟩)
    · exact unlisted listed
    · omega

theorem copyout_ends (booted : Booted boot) (orderly : Orderly boot pipes k)
    (running : (k.proc p).state = .running) (va : Nat)
    (src : Bytes) (len : Nat) : Ends (Pages.copyout p va src len) k E fun _ k' => Goes boot pipes k k' p := by
  obtain ⟨pt, space⟩ := orderly.space (p := p) (by rw [running]; nofun)
  unfold Pages.copyout
  refine .bind_run (rfl : (get : ForkM Fork.Kernel) k = .ok (k, k)) ?_
  rw [space.pagetable]
  exact (vmCopyout_ends booted orderly running space va src len).mono fun _ _ goes => goes.1

/-- A process changes its entry, and pages that it has. -/
theorem Orderly.goes (orderly : Orderly boot pipes k) (booted : Booted boot)
    (space : Space boot.memory.trampoline (k.proc p) pt)
    (s' : Memory) (slot : Fork.Slot) (kernelEnd : s'.kernelEnd = k.memory.kernelEnd)
    (trampoline : s'.trampoline = k.memory.trampoline)
    (list : s'.freelist = k.memory.freelist)
    (mem : ∀ x, x = boot.memory.trampoline ∨ pt.owned x = 0 → s'.mem x = k.memory.mem x)
    (same : slot = { k.proc p with
      state := .running, name := slot.name, killed := slot.killed }) :
    Goes boot pipes k { k with memory := s', proc := update k.proc p slot } p := by
  have running : slot.state = .running := by rw [same]
  refine ⟨(orderly.written space s' slot _ _ kernelEnd trampoline list (fun x _ => mem x) ?_ ?_ ?_
    ?_ ?_ fun f => ?_).moved booted orderly, ?_⟩
  · rw [same]
  · rw [same]
  · rw [same]
  · rw [running]
    nofun
  · rw [running]
    nofun
  · rw [same]
  · dsimp only
    rw [update_self, running]

theorem running_same {slot : Fork.Slot} (running : slot.state = .running) :
    slot = { slot with state := .running } := by rw [← running]

theorem Space.frame_written {s : Memory} (space : Space boot.memory.trampoline (k.proc p) pt)
    (a n : Nat) (src : Bytes) (x : Nat)
    (way : x = boot.memory.trampoline ∨ pt.owned x = 0) :
    (s.write (k.proc p).trapframe a n src).mem x = s.mem x := by
  refine update_of_ne ?_ _ _
  rintro rfl
  have some := space.frame_held
  have apart := space.apart
  omega

/-- Bytes are written to the trapframe. -/
theorem Orderly.frame_goes (orderly : Orderly boot pipes k) (booted : Booted boot)
    (running : (k.proc p).state = .running)
    (a n : Nat) (src : Bytes) : Goes boot pipes k { k with
      memory := k.memory.write (k.proc p).trapframe a n src } p := by
  obtain ⟨pt, space⟩ := orderly.space (p := p) (by rw [running]; nofun)
  have goes := orderly.goes booted space (k.memory.write (k.proc p).trapframe a n src) (k.proc p) rfl rfl rfl
    (space.frame_written a n src) (running_same running)
  rwa [update_eq_self] at goes

theorem setResult_ends (booted : Booted boot) (orderly : Orderly boot pipes k)
    (running : (k.proc p).state = .running) (r : Int) :
    Ends (setResult p r) k E fun _ k' => Goes boot pipes k k' p :=
  .bind_run (rfl : (get : ForkM Fork.Kernel) k = .ok (k, k))
    (.part (Ends.modify (orderly.frame_goes booted running ..)))

theorem store_ends (booted : Booted boot) (orderly : Orderly boot pipes k)
    (running : (k.proc p).state = .running) (va : Nat) (b : UInt8) :
    Ends (store p va b) k E fun _ k' => Goes boot pipes k k' p := by
  obtain ⟨pt, space⟩ := orderly.space (p := p) (by rw [running]; nofun)
  have killed : Ends (setProc p fun slot => { slot with killed := 1 }) k E fun _ k' =>
    Goes boot pipes k k' p :=
    Ends.modify (orderly.goes booted space k.memory _ rfl rfl rfl (fun _ _ => rfl) (by rw [← running]))
  unfold store
  refine .bind_run (rfl : (get : ForkM Fork.Kernel) k = .ok (k, k)) ?_
  rw [space.pagetable, Option.bind_some]
  by_cases inside : va < MAXVA
  · rw [if_pos inside]
    cases here : pt.leaf (va / PGSIZE) with
    | none => exact killed
    | some pte =>
      dsimp only
      by_cases writable : pte.perm.u = true ∧ pte.perm.w = true
      · rw [if_pos writable]
        refine .part (Ends.modify ?_)
        obtain ⟨other, some⟩ := space.user here writable.1
        have goes := orderly.goes booted space (k.memory.write pte.pa (va % PGSIZE) 1 fun _ => b)
          (k.proc p) rfl rfl rfl
          (fun x way => update_of_ne (by rintro rfl; omega) _ _) (running_same running)
        rwa [update_eq_self] at goes
      · rw [if_neg writable]
        exact killed
  · rw [if_neg inside]
    exact killed

/-- `sbrk` changes the size or nothing. -/
theorem sbrk_ends (booted : Booted boot) (orderly : Orderly boot pipes k)
    (running : (k.proc p).state = .running) (n : BitVec 32) :
    Ends (sbrk p n) k E fun _ k' => Goes boot pipes k k' p := by
  obtain ⟨pt, space⟩ := orderly.space (p := p) (by rw [running]; nofun)
  have own := orderly.owned booted space
  unfold sbrk
  refine .bind_run (rfl : (get : ForkM Fork.Kernel) k = .ok (k, k)) ?_
  dsimp only
  rw [space.pagetable]
  refine .seq (.part (((growproc_ends ⟨pt, (k.proc p).sz, (k.proc p).trapframe⟩ n.toInt own).weaken
    fun _ => False.elim).mono
    fun r s' ⟨resized, _⟩ => .seq (Ends.modify (Ends.pure ?_))))
  refine ⟨(space.resized { k.proc p with pagetable := some r.2.pagetable, sz := r.2.sz } resized.owned
    resized.kernelEnd resized.trampoline resized.total (fun x out _ => resized.mem out) rfl rfl
    rfl ?_ ?_ rfl).moved booted orderly, ?_⟩
  · dsimp only
    rw [running]
    nofun
  · dsimp only
    rw [running]
    nofun
  · dsimp only
    rw [update_self, running]

/-- `exec` puts another program into memory or changes nothing. -/
theorem exec_ends (booted : Booted boot) (orderly : Orderly boot pipes k)
    (running : (k.proc p).state = .running) {fs : Namei.Fs}
    (tree : Namei.Tree fs) : Ends (Pages.exec p fs) k Exec.Full fun _ k' => Goes boot pipes k k' p := by
  obtain ⟨pt, space⟩ := orderly.space (p := p) (by rw [running]; nofun)
  have begins : Exec.Begins (Own boot.memory.trampoline k p) (toExec k p fs pt) := by
    refine ⟨tree, ?_, fun own => own.1 orderly.trampoline, fun own => own.2.1 rfl, ?_⟩
    · show Owned _ k.memory pt (k.proc p).sz k.memory.trampoline (k.proc p).trapframe
      rw [orderly.trampoline]
      exact orderly.owned booted space
    · show k.memory.trampoline ≠ (k.proc p).trapframe
      rw [orderly.trampoline]
      exact space.apart
  have ends := (Exec.sysExec_ends begins).and fun r e' run => Exec.sysExec_whole begins.ready run
  unfold Ends at ends ⊢
  cases run : Exec.sysExec (toExec k p fs pt) with
  | error m =>
    have program : Pages.exec p fs k = .error m := by
      unfold Pages.exec
      rw [space.pagetable]
      dsimp only
      rw [run]
    rw [run] at ends
    rw [program]
    exact ends
  | ok r =>
    have program : Pages.exec p fs k = .ok (r.1, ofExec k p r.2) := by
      unfold Pages.exec
      rw [space.pagetable]
      dsimp only
      rw [run]
    rw [run] at ends
    rw [program]
    obtain ⟨⟨same, way⟩, whole⟩ := ends
    refine ⟨Turn.moved ?_ booted orderly, ?_⟩
    swap
    · show (update k.proc p _ p).state = _
      rw [update_self]
      exact running
    have used : (k.proc p).state ≠ .unused := by rw [running]; nofun
    have live : (k.proc p).state = .zombie → ∀ fd, (k.proc p).ofile fd = none := by rw [running]; nofun
    have own := orderly.owned booted space
    by_cases failed : r.1 = -1
    · obtain ⟨-, undone, -⟩ | ⟨wrong, -⟩ := whole
      · have table : r.2.pagetable = pt := by rw [undone.rest]; rfl
        have size : r.2.sz = (k.proc p).sz := by rw [undone.rest]; rfl
        have uses : Uses (Own boot.memory.trampoline k p) k.memory r.2.memory := undone.toUses.mono own.free
        have balance (x : Nat) : total r.2.memory pt x = total k.memory pt x := by
          have count : r.2.memory.freelist.count x = k.memory.freelist.count x := undone.list.count_eq x
          unfold total
          rw [count]
        have resized := own.resized (uses.same pt) balance same own.toShaped fun _ _ => own.frames
        exact space.resized _ resized.owned same undone.trampoline balance (fun x out _ => uses.mem out)
          (congrArg some table) size rfl
          used live rfl
      · omega
    · have renewed := way.resolve_left failed
      have top : (toExec k p fs pt).memory.trampoline = boot.memory.trampoline := orderly.trampoline
      have owned := renewed.owned
      rw [top] at owned
      exact space.resized _ owned same renewed.trampoline renewed.total (fun x => renewed.mem) rfl
        rfl rfl used live rfl

end Calls

end Xv6.Pages
