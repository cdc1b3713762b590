import Xv6.Ftable.Agree
import Xv6.Trace.Machine

/-! `fork`, `exit` and `wait` do with the process table what they do in the model with memory. -/

namespace Xv6.Trace
open Threads Function
open Ftable (Status)
open Pages (phase phase_unused phase_zombie Forks Child Exits cleared freeSlot fork_effect exit_effect
  wait_effect freeSlot_unused
  zombieChild_some)

/-- The fields of an entry that both models have. Which processes are asleep or wait for a processor is only
in the one with memory. -/
structure SameSlot (slot : Fork.Slot) (s : TrState) (p : ProcId) : Prop where
  status : (s.status p).phase = phase slot.state
  pid : s.pid p = slot.pid
  parent : s.parent p = slot.parent
  mask : (s.traceMask p).toBitVec.toInt = slot.traceMask

structure SameProcs (k : Fork.Kernel) (s : TrState) : Prop where
  slot (p) : SameSlot (k.proc p) s p
  nextpid : s.nextpid = k.nextpid

section Agree

variable {k k' : Fork.Kernel} {s s' : TrState} {p q np : ProcId} {slot : Fork.Slot}

/-- The entry has changed in both. -/
theorem SameProcs.put (same : SameProcs k s) (proc : k'.proc = update k.proc p slot)
    (here : SameSlot slot s' p)
    (others : ∀ q, q ≠ p → s'.status q = s.status q ∧ s'.pid q = s.pid q ∧ s'.parent q = s.parent q ∧
      s'.traceMask q = s.traceMask q) (nextpid : s'.nextpid = k'.nextpid) : SameProcs k' s' := by
  refine ⟨fun q => ?_, nextpid⟩
  by_cases eq : q = p
  · rw [eq, proc, update_self]
    exact here
  · obtain ⟨status, pid, parent, mask⟩ := others q eq
    have old := same.slot q
    rw [proc, update_of_ne eq]
    exact ⟨status ▸ old.status, pid ▸ old.pid, parent ▸ old.parent, mask ▸ old.mask⟩

theorem SameProcs.find (same : SameProcs k s) (p : ProcId) (first : freeSlot k = some np) :
    trMachine p ⟨true, np, 0⟩ .findUnused s = .ok (some np) (s.take p np) := by
  have unused := Status.phase_unused.mp ((same.slot np).status.trans
    (phase_unused.mpr (freeSlot_unused first)))
  show (if (true && decide (s.status np = .unused)) then _ else _) = _
  rw [unused]
  rfl

theorem SameProcs.freed (same : SameProcs k s) (p : ProcId) (mask : UInt32)
    (proc : k'.proc = update k.proc np (cleared slot))
    (mask' : mask.toBitVec.toInt = slot.traceMask) (nextpid : k'.nextpid = k.nextpid + 1) :
    SameProcs k' (((s.take p np).setMask np mask).freeproc np) := by
  refine same.put proc ⟨?_, update_self .., update_self .., ?_⟩ (fun q other => ⟨?_, ?_, ?_, ?_⟩) ?_
  · exact Status.phase_update ..
  · show ((update s.traceMask np mask) np).toBitVec.toInt = slot.traceMask
    rw [update_self, mask']
  · exact (update_of_ne other ..).trans (update_of_ne other ..)
  · exact (update_of_ne other ..).trans (update_of_ne other ..)
  · exact update_of_ne other ..
  · exact update_of_ne other ..
  · rw [nextpid, ← same.nextpid]
    rfl

theorem fork_agrees (same : SameProcs k s) (used : (k.proc p).state ≠ .unused) :
    Gives (Fork.fork p) k fun r k' =>
    ∃ s', Trace.fork.Finishes trMachine p s r s' ∧ SameProcs k' s' := by
  refine (fork_effect used).mono fun r k' forks => ?_
  unfold Trace.fork Trace.allocproc
  cases forks with
  | full none proc nextpid _ =>
    refine ⟨s, .bind (.seq ⟨false, p, 0⟩ rfl .pure) .pure, fun q => proc ▸ same.slot q,
      same.nextpid.trans nextpid.symm⟩
  | @failed np slot first proc _ mask nextpid _ =>
    have found := same.find p first
    obtain kept | zero := mask
    · -- There is no page for the trapframe.
      have back := same.freed p (s.traceMask np) proc ((same.slot np).mask.trans kept.symm) nextpid
      refine ⟨_, .bind (.seq ⟨true, np, 0⟩ found (.seq ⟨false, np, 0⟩ rfl (.seq ⟨true, np, 0⟩ rfl .pure))) .pure,
        ?_⟩
      have keeps : (s.take p np).setMask np (s.traceMask np) = s.take p np := by
        unfold TrState.setMask
        rw [show (s.take p np).traceMask = s.traceMask from rfl, update_eq_self]
        rfl
      rwa [keeps] at back
    · -- The memory of the parent could not be copied.
      have back := same.freed p 0 proc (zero ▸ rfl) nextpid
      refine ⟨_, .bind (.seq ⟨true, np, 0⟩ found (.seq ⟨true, np, 0⟩ rfl (.seq ⟨true, np, 0⟩ rfl
        (.seq ⟨true, np, 0⟩ rfl .pure)))) (.seq ⟨false, np, 0⟩ rfl (.seq ⟨true, np, 0⟩ rfl .pure)), back⟩
  | @made np slot first proc child nextpid _ _ =>
    have found := same.find p first
    have other : p ≠ np := fun same => used (same ▸ freeSlot_unused first)
    let s₁ : TrState := (s.take p np).setMask np 0
    let s₂ : TrState := s₁.setMask np (s₁.traceMask p)
    have pid : trMachine p ⟨true, np, 0⟩ (.getPid np) s₂ = .ok k.nextpid s₂ := by
      rw [← same.nextpid]
      exact congrArg (Outcome.ok · s₂) (update_self ..)
    refine ⟨{ s₂ with parent := update s₂.parent np (some p) }.setStatus np .runnable,
      .bind (.seq ⟨true, np, 0⟩ found (.seq ⟨true, np, 0⟩ rfl (.seq ⟨true, np, 0⟩ rfl
        (.seq ⟨true, np, 0⟩ rfl .pure)))) (.seq ⟨true, np, 0⟩ rfl (.seq ⟨true, np, 0⟩ rfl
        (.seq ⟨true, np, 0⟩ pid (.seq ⟨true, np, 0⟩ rfl (.seq ⟨true, np, 0⟩ rfl .pure))))), ?_⟩
    refine same.put proc ⟨?_, ?_, ?_, ?_⟩ (fun q apart => ⟨?_, ?_, ?_, ?_⟩) ?_
    · rw [child.state]
      exact Status.phase_update ..
    · exact (update_self ..).trans (same.nextpid.trans child.pid.symm)
    · exact (update_self ..).trans child.parent.symm
    · have mask : s₂.traceMask np = s.traceMask p := (update_self ..).trans (update_of_ne other ..)
      exact (congrArg (·.toBitVec.toInt) mask).trans ((same.slot p).mask.trans child.mask.symm)
    · exact (update_of_ne apart ..).trans (update_of_ne apart ..)
    · exact update_of_ne apart ..
    · exact update_of_ne apart ..
    · exact (update_of_ne apart ..).trans (update_of_ne apart ..)
    · rw [nextpid, ← same.nextpid]
      rfl

/-- One round of the loop of `wait` that returns. -/
theorem wait_agrees (same : SameProcs k s) (addr : Nat) : Gives (Pages.wait p addr) k fun r k' =>
    ∀ value, r = some value → ∃ s', Trace.wait.Finishes trMachine p s value s' ∧ SameProcs k' s' := by
  refine (wait_effect addr).mono fun r k' effect value returns => ?_
  obtain ⟨nextpid, -, waits⟩ := effect
  cases waits with
  | @reaped pp child proc =>
    cases returns
    obtain ⟨parent, zombie⟩ := zombieChild_some child
    have old := same.slot pp
    have reaped : trMachine p ⟨true, pp, 0⟩ .reap s = .ok (some (k.proc pp).pid) (s.freeproc pp) := by
      rw [← old.pid]
      exact if_pos ⟨old.parent.trans parent, Status.phase_zombie.mp
        (old.status.trans (phase_zombie.mpr zombie))⟩
    refine ⟨_, .seq ⟨true, pp, 0⟩ reaped .pure, ?_⟩
    refine same.put proc ⟨?_, update_self .., update_self .., old.mask⟩
      (fun q other => ⟨?_, ?_, ?_, rfl⟩) ?_
    · exact Status.phase_update ..
    · exact update_of_ne other ..
    · exact update_of_ne other ..
    · exact update_of_ne other ..
    · exact same.nextpid.trans nextpid.symm
  | refused _ _ proc | stops _ _ proc =>
    cases returns
    exact ⟨s, .seq ⟨false, p, 0⟩ rfl .pure, fun q => proc ▸ same.slot q, same.nextpid.trans nextpid.symm⟩
  | sleeps => cases returns

theorem exit_agrees (same : SameProcs k s) (status : Int) : Gives (Pages.exit p status) k fun _ k' =>
    ∃ s', (Trace.exit p).Finishes trMachine p s () s' ∧ SameProcs k' s' := by
  refine (exit_effect status).mono fun _ k' effect => ?_
  obtain ⟨other, exits, -, -⟩ := effect
  unfold Trace.exit
  rw [if_neg other]
  refine ⟨_, .seq ⟨true, p, 0⟩ rfl (.step ⟨true, p, 0⟩ rfl), fun q => ?_,
    same.nextpid.trans exits.nextpid.symm⟩
  have old := same.slot q
  have parent : (if s.parent q = some p then some initproc else s.parent q) = (k'.proc q).parent := by
    rw [exits.parent, old.parent]
  by_cases here : q = p
  · subst here
    obtain ⟨pid, -, mask⟩ := exits.own
    refine ⟨?_, old.pid.trans pid.symm, parent, old.mask.trans mask.symm⟩
    rw [exits.zombie]
    exact Status.phase_update ..
  · have slot := exits.others here
    have status : (TrState.setStatus _ p .zombie).status q = s.status q := update_of_ne here ..
    refine ⟨?_, ?_, parent, ?_⟩
    all_goals rw [slot]
    · exact (congrArg Status.phase status).trans old.status
    · exact old.pid
    · exact old.mask

end Agree

end Xv6.Trace
