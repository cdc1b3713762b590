import Xv6.Fork.Runs
import Xv6.Pages.Slots

/-! What the calls of kernel/proc.c do to the process table, whatever they find there. -/

namespace Xv6.Pages
open Function Fork
open Vm (Pagetable Memory VmM kalloc procPagetable uvmcopy emptyTable)

/-- Whether an entry of the process table is in use, and whether its process has exited. -/
inductive Phase where
  | unused
  | live
  | zombie
deriving DecidableEq

def phase : ProcState → Phase
  | .unused => .unused
  | .zombie => .zombie
  | _ => .live

theorem phase_unused {state : ProcState} : phase state = .unused ↔ state = .unused :=
  by cases state <;> decide

theorem phase_zombie {state : ProcState} : phase state = .zombie ↔ state = .zombie :=
  by cases state <;> decide

/-- The entry that `allocproc` finds. -/
def freeSlot (k : Fork.Kernel) : Option ProcId :=
  (List.finRange NPROC).find? fun p => (k.proc p).state = .unused

/-- What the entry `np` holds when `p` has made it a process. -/
structure Child (k : Fork.Kernel) (p np : ProcId) (slot : Fork.Slot) : Prop where
  state : slot.state = .runnable
  pid : slot.pid = k.nextpid
  parent : slot.parent = some p
  mask : slot.traceMask = (k.proc p).traceMask
  ofile (fd) : slot.ofile fd = ((k.proc p).ofile fd).or ((k.proc np).ofile fd)
  killed : slot.killed = (k.proc np).killed
  xstate : slot.xstate = (k.proc np).xstate

/-- What `fork` does: there is no entry, there is no memory and the entry is cleared, or there is a child. -/
inductive Forks (k k' : Fork.Kernel) (p : ProcId) : Int → Prop
  | full : freeSlot k = none → k'.proc = k.proc → k'.nextpid = k.nextpid → k'.fileRef = k.fileRef →
    Forks k k' p (-1)
  | failed {np : ProcId} {slot : Fork.Slot} : freeSlot k = some np →
      k'.proc = update k.proc np (cleared slot) →
    slot.ofile = (k.proc np).ofile → slot.traceMask = (k.proc np).traceMask ∨ slot.traceMask = 0 →
    k'.nextpid = k.nextpid + 1 → k'.fileRef = k.fileRef → Forks k k' p (-1)
  | made {np : ProcId} {slot : Fork.Slot} : freeSlot k = some np → k'.proc = update k.proc np slot →
    Child k p np slot → k'.nextpid = k.nextpid + 1 →
    (∀ f, k'.fileRef f = k.fileRef f + (List.finRange NOFILE).countP fun fd => (k.proc p).ofile fd = some f) →
    (∀ fd f, (k.proc p).ofile fd = some f → 0 < k.fileRef f) → Forks k k' p k.nextpid

/-- What a round of the loop of `wait` does: it clears the entry of a child that has exited, it cannot copy
the status of that child, it gives up, or the process is to sleep. -/
inductive Waits (k k' : Fork.Kernel) (p : ProcId) (addr : Nat) : Option Int → Prop
  | reaped {pp : ProcId} : zombieChild k p = some pp → k'.proc = update k.proc pp (cleared (k.proc pp)) →
    Waits k k' p addr (some (k.proc pp).pid)
  | refused {pp : ProcId} : zombieChild k p = some pp → addr ≠ 0 → k'.proc = k.proc →
      Waits k k' p addr (some (-1))
  | stops : zombieChild k p = none → hasChild k p = false ∨ (k.proc p).killed ≠ 0 → k'.proc = k.proc →
    Waits k k' p addr (some (-1))
  | sleeps : zombieChild k p = none → k'.proc = k.proc → Waits k k' p addr none

/-- What `exit` leaves of the process table: no process has the parent `p`, whose entry is a zombie. -/
structure Exits (k k' : Fork.Kernel) (p : ProcId) (status : Int) : Prop where
  zombie : (k'.proc p).state = .zombie
  xstate : (k'.proc p).xstate = status
  own : (k'.proc p).pid = (k.proc p).pid ∧ (k'.proc p).killed = (k.proc p).killed ∧
    (k'.proc p).traceMask = (k.proc p).traceMask
  parent (q) : (k'.proc q).parent = if (k.proc q).parent = some p then some initproc else (k.proc q).parent
  others {q} : q ≠ p → k'.proc q = { k.proc q with parent := (k'.proc q).parent }
  nextpid : k'.nextpid = k.nextpid

/-- The process has closed the descriptors of a list. -/
structure Shut (k k' : Fork.Kernel) (p : ProcId) (l : List (Fin NOFILE)) : Prop where
  others {q} : q ≠ p → k'.proc q = k.proc q
  slot : k'.proc p = { k.proc p with ofile := (k'.proc p).ofile }
  ofile (fd) : (k'.proc p).ofile fd = if fd ∈ l then none else (k.proc p).ofile fd
  fileRef (f) : k'.fileRef f + l.countP (fun fd => (k.proc p).ofile fd = some f) = k.fileRef f
  held (fd f) : fd ∈ l → (k.proc p).ofile fd = some f → 0 ≤ k'.fileRef f
  nextpid : k'.nextpid = k.nextpid

/-- What `reparent` makes of an entry. -/
def orphan (p : ProcId) (slot : Fork.Slot) : Fork.Slot :=
  if slot.parent = some p then { slot with parent := some initproc } else slot

section Effects

variable {k k' : Fork.Kernel} {p np q : ProcId}

theorem freeSlot_unused (found : freeSlot k = some np) : (k.proc np).state = .unused := by
  have unused := List.find?_some found
  exact of_decide_eq_true unused

theorem vm_effect {α : Type} (m : VmM α) : Gives (vm m) k fun _ k' => ∃ memory, k' = { k with memory } :=
  Gives.part fun _ s _ => ⟨s, rfl⟩

theorem freeproc_effect {proc : ProcId → Fork.Slot} {slot : Fork.Slot} (here : k.proc = update proc q slot) :
    Gives (Fork.freeproc q) k fun _ k' =>
      k'.proc = update proc q (cleared slot) ∧ k'.nextpid = k.nextpid ∧ k'.fileRef = k.fileRef := by
  have proc' : update k.proc q (cleared (k.proc q)) = update proc q (cleared slot) := by
    rw [here, update_self, update_idem]
  refine (freeproc_part (E := fun _ => True) ?_).gives
  unfold Ends
  split
  · exact ⟨proc', rfl, rfl⟩
  · trivial

/-- What `allocproc` makes of the entry `np`. -/
def taken (k : Fork.Kernel) (np : ProcId) (trapframe : Nat) (pagetable : Option Pagetable)
    (context : Nat → Nat) : Fork.Slot :=
  { k.proc np with pid := k.nextpid, state := .used, trapframe, pagetable, context, traceMask := 0 }

theorem found_effect : Gives (Fork.found np) k fun r k' => k'.nextpid = k.nextpid + 1 ∧
    k'.fileRef = k.fileRef ∧
    ((∃ slot, r = none ∧ k'.proc = update k.proc np (cleared slot) ∧ slot.ofile = (k.proc np).ofile ∧
        slot.traceMask = (k.proc np).traceMask) ∨
      ∃ trapframe pagetable context, r = some np ∧
      k'.proc = update k.proc np (taken k np trapframe pagetable context)) := by
  unfold Fork.found
  refine Gives.bind_run (rfl : Fork.allocpid k = .ok (k.nextpid, { k with nextpid := k.nextpid + 1 })) ?_
  refine .seq (Gives.modify ((vm_effect kalloc).bind fun page k₁ same => ?_))
  obtain ⟨memory, rfl⟩ := same
  cases page with
  | none =>
    refine .seq (Gives.modify ((freeproc_effect (update_idem ..)).bind fun _ k₂ freed => Gives.pure ?_))
    obtain ⟨proc, nextpid, fileRef⟩ := freed
    refine ⟨nextpid, fileRef, .inl ⟨_, rfl, proc, ?_, ?_⟩⟩
    · simp only [update_self]
    · simp only [update_self]
  | some page =>
    refine .seq (Gives.modify ((vm_effect _).bind fun pt k₂ same => ?_))
    obtain ⟨memory, rfl⟩ := same
    cases pt with
    | none =>
      refine .seq (Gives.modify ((freeproc_effect (update_idem ..)).bind fun _ k₂ freed => Gives.pure ?_))
      obtain ⟨proc, nextpid, fileRef⟩ := freed
      simp only [update_idem] at proc
      refine ⟨nextpid, fileRef, .inl ⟨_, rfl, proc, ?_, ?_⟩⟩
      · simp only [update_self]
      · simp only [update_self]
    | some pt =>
      let context := update (update (fun _ => 0) 0 k.forkret) 1 ((k.proc np).kstack + Vm.PGSIZE)
      refine Gives.bind_run rfl (.seq (Gives.modify (Gives.pure
        ⟨rfl, rfl, .inr ⟨page, some pt, context, rfl, ?_⟩⟩)))
      simp only [update_idem, update_self]
      rfl

/-- Each file that `fork` duplicates is open. -/
theorem dupFiles_held (other : p ≠ np) (l : List (Fin NOFILE)) :
    Gives (l.forM (Fork.dupFile p np)) k fun _ _ =>
    ∀ fd ∈ l, ∀ f, (k.proc p).ofile fd = some f → 0 < k.fileRef f := by
  induction l generalizing k with
  | nil => exact Gives.pure fun _ member => absurd member List.not_mem_nil
  | cons fd l ih =>
    show Gives (forM (fd :: l) (Fork.dupFile p np)) k _
    rw [List.forM_cons]
    unfold Fork.dupFile
    refine .seq (Gives.bind_run (rfl : (get : ForkM Fork.Kernel) k = .ok (k, k)) ?_)
    cases file : (k.proc p).ofile fd with
    | none =>
      refine Gives.pure (ih.mono fun _ k' held fd' member f there => ?_)
      obtain rfl | inside := List.mem_cons.mp member
      · rw [file] at there
        cases there
      · exact held fd' inside f there
    | some f =>
      refine .seq fun _ k₁ dup => setProc_gives (ih.mono fun _ k' held fd' member f' there => ?_)
      unfold Fork.filedup at dup
      split at dup
      · cases dup
      cases dup
      dsimp only at held
      rw [update_of_ne other] at held
      by_cases same : f' = f
      · rw [same]
        omega
      obtain rfl | inside := List.mem_cons.mp member
      · rw [file] at there
        exact absurd (Option.some.inj there).symm same
      · have later := held fd' inside f' there
        rwa [update_of_ne same] at later

theorem setChild_effect (other : p ≠ np) : Gives (Fork.setChild p np) k fun r k' => r = (k.proc np).pid ∧
    k'.nextpid = k.nextpid ∧ (∃ slot, k'.proc = update k.proc np slot ∧
      slot.state = .runnable ∧ slot.pid = (k.proc np).pid ∧ slot.parent = some p ∧
      slot.traceMask = (k.proc p).traceMask ∧ slot.killed = (k.proc np).killed ∧
      slot.xstate = (k.proc np).xstate ∧
      ∀ fd, slot.ofile fd = ((k.proc p).ofile fd).or ((k.proc np).ofile fd)) ∧
    (∀ f, k'.fileRef f = k.fileRef f + (List.finRange NOFILE).countP fun fd => (k.proc p).ofile fd = some f) ∧
    ∀ fd f, (k.proc p).ofile fd = some f → 0 < k.fileRef f := by
  unfold Fork.setChild
  refine Gives.bind_run (rfl : (get : ForkM Fork.Kernel) k = .ok (k, k))
    (Gives.bind_run (rfl : (get : ForkM Fork.Kernel) k = .ok (k, k)) ?_)
  refine .seq (setProc_gives (.seq (.part (Gives.modify (.seq (.part (Gives.modify (.seq (setProc_gives ?_)))))))))
  refine .seq (((dupFiles_gives other _).and (dupFiles_held other _)).mono fun _ k₁ both =>
    .seq (Gives.modify (.seq (setProc_gives (Gives.pure ?_)))))
  obtain ⟨⟨rest, others, slot, ofile, fileRef⟩, held⟩ := both
  dsimp only at rest others slot ofile fileRef held
  simp only [update_of_ne other, update_self, List.mem_finRange, if_true,
    true_imp_iff] at slot ofile fileRef held
  have proc (slot' : Fork.Slot) : update k₁.proc np slot' = update k.proc np slot' := by
    funext q
    by_cases here : q = np
    · rw [here, update_self, update_self]
    · rw [update_of_ne here, update_of_ne here, others here, update_of_ne here, update_of_ne here]
  refine ⟨rfl, by rw [rest], ⟨_, proc _, rfl, ?_, rfl, ?_, ?_, ?_, ofile⟩, fileRef, held⟩
  all_goals rw [slot]

theorem allocproc_effect : Gives Fork.allocproc k fun r k' =>
    (r = none ∧ freeSlot k = none ∧ k' = k) ∨ ∃ np, freeSlot k = some np ∧ k'.nextpid = k.nextpid + 1 ∧
      k'.fileRef = k.fileRef ∧ ((∃ slot, r = none ∧ k'.proc = update k.proc np (cleared slot) ∧
        slot.ofile = (k.proc np).ofile ∧ slot.traceMask = (k.proc np).traceMask) ∨
      ∃ trapframe pagetable context, r = some np ∧
        k'.proc = update k.proc np (taken k np trapframe pagetable context)) := by
  unfold Fork.allocproc freeSlot
  refine Gives.bind_run (rfl : (get : ForkM Fork.Kernel) k = .ok (k, k)) ?_
  cases (List.finRange NPROC).find? fun p => decide ((k.proc p).state = .unused) with
  | none => exact Gives.pure (.inl ⟨rfl, rfl, rfl⟩)
  | some np => exact found_effect.mono fun r k' found => .inr ⟨np, rfl, found⟩

theorem fork_effect (used : (k.proc p).state ≠ .unused) :
    Gives (Fork.fork p) k fun r k' => Forks k k' p r := by
  unfold Fork.fork
  refine allocproc_effect.bind fun r k₁ way => ?_
  obtain ⟨rfl, none, rfl⟩ | ⟨np, first, nextpid, fileRef, ⟨slot, rfl, proc, ofile, mask⟩ | ⟨_, _,
    _, rfl, proc⟩⟩ := way
  · exact Gives.pure (.full none rfl rfl rfl)
  · exact Gives.pure (.failed first proc ofile (.inl mask) nextpid fileRef)
  have other : p ≠ np := fun same => used (same ▸ freeSlot_unused first)
  have parent : k₁.proc p = k.proc p := by rw [proc, update_of_ne other]
  refine Gives.bind_run (rfl : (get : ForkM Fork.Kernel) k₁ = .ok (k₁, k₁))
    (Gives.bind_run (rfl : (get : ForkM Fork.Kernel) k₁ = .ok (k₁, k₁)) ?_)
  cases (k₁.proc p).pagetable with
  | none => exact Gives.throw _
  | some old =>
    cases (k₁.proc np).pagetable with
    | none => exact Gives.throw _
    | some new =>
      refine Gives.bind_run (rfl : (get : ForkM Fork.Kernel) k₁ = .ok (k₁, k₁)) ?_
      refine (vm_effect _).bind fun copied k₂ same => .seq (setProc_gives ?_)
      obtain ⟨memory, rfl⟩ := same
      refine Gives.ite (fun _ => ?_) fun _ => ?_
      · -- The memory of the parent could not be copied.
        refine (freeproc_effect rfl).bind fun _ k₃ freed => Gives.pure ?_
        obtain ⟨proc₃, nextpid₃, fileRef₃⟩ := freed
        dsimp only at proc₃
        rw [proc, update_idem] at proc₃
        refine .failed first proc₃ ?_ (.inr ?_) (nextpid₃.trans nextpid) (fileRef₃.trans fileRef)
        all_goals rw [update_self]
        all_goals rfl
      · refine (setChild_effect other).mono fun r k₃ child => ?_
        obtain ⟨rfl, nextpid₃, ⟨slot, proc₃, state, pid, mother, mask, killed, xstate, ofile⟩,
          fileRef₃, held⟩ := child
        dsimp only at proc₃ pid mask killed xstate ofile fileRef₃ nextpid₃ held ⊢
        rw [update_of_ne other, parent] at mask
        simp only [update_of_ne other, update_self, proc, taken] at pid killed xstate ofile fileRef₃ held ⊢
        rw [proc, update_idem, update_idem] at proc₃
        exact .made first proc₃ ⟨state, pid, mother, mask, ofile, killed, xstate⟩ (nextpid₃.trans nextpid)
          (fun f => (fileRef₃ f).trans (by rw [fileRef])) (fileRef ▸ held)

theorem zombieChild_some {pp : ProcId} (child : zombieChild k p = some pp) :
    (k.proc pp).parent = some p ∧ (k.proc pp).state = .zombie := by
  have here := List.find?_some child
  exact of_decide_eq_true here

theorem wait_effect (addr : Nat) : Gives (Pages.wait p addr) k fun r k' =>
    k'.nextpid = k.nextpid ∧ k'.fileRef = k.fileRef ∧ Waits k k' p addr r := by
  unfold Pages.wait
  refine Gives.bind_run (rfl : (get : ForkM Fork.Kernel) k = .ok (k, k)) ?_
  cases child : zombieChild k p with
  | none =>
    cases (k.proc p).pagetable
    all_goals
      dsimp only
      refine Gives.pure ⟨rfl, rfl, ?_⟩
      split
      next stop => exact .stops child (by simpa using stop) rfl
      next => exact .sleeps child rfl
  | some pp =>
    cases (k.proc p).pagetable with
    | none => exact Gives.throw _
    | some pt =>
      have copied : Gives (if addr = 0 then pure 0 else vm (Vm.copyout pt addr
          (Bytes.ofNat ((k.proc pp).xstate % 2 ^ 32).toNat) 4) :
          ForkM Int) k fun r k₁ => (addr = 0 → r = 0) ∧ ∃ memory, k₁ = { k with memory } :=
        Gives.ite (fun _ => Gives.pure ⟨fun _ => rfl, k.memory, rfl⟩) fun given =>
          (vm_effect _).mono fun _ _ same => ⟨fun zero => absurd zero given, same⟩
      refine copied.bind fun r k₁ same => ?_
      obtain ⟨whole, memory, rfl⟩ := same
      refine Gives.ite (fun short => Gives.pure ⟨rfl, rfl, .refused child (fun zero => ?_) rfl⟩) fun _ => ?_
      · rw [whole zero] at short
        exact absurd short (by decide)
      refine (freeproc_effect (k := { k with memory }) (update_eq_self pp k.proc).symm).bind
        fun _ k₂ freed => Gives.pure ?_
      exact ⟨freed.2.1, freed.2.2, .reaped child freed.1⟩

theorem closeFile_effect (fd : Fin NOFILE) : Gives (closeFile p fd) k fun _ k' => Shut k k' p [fd] := by
  unfold closeFile
  refine Gives.bind_run (rfl : (get : ForkM Fork.Kernel) k = .ok (k, k)) ?_
  cases file : (k.proc p).ofile fd with
  | none =>
    refine Gives.pure ⟨fun _ => rfl, rfl, fun fd' => ?_, fun f => ?_, fun fd' f member there => ?_, rfl⟩
    · by_cases here : fd' = fd
      · rw [here, if_pos (List.mem_singleton_self fd), file]
      · rw [if_neg fun member => here (List.mem_singleton.mp member)]
    · simp [file]
    · rw [List.mem_singleton.mp member, file] at there
      cases there
  | some f =>
    refine .seq fun _ k₁ closed => Gives.modify ?_
    unfold fileclose at closed
    split at closed
    · cases closed
    cases closed
    refine ⟨fun other => update_of_ne other .., ?_, fun fd' => ?_, fun f' => ?_,
      fun fd' f' member there => ?_, rfl⟩
    · dsimp only
      rw [update_self]
    · dsimp only
      rw [update_self]
      by_cases here : fd' = fd
      · rw [here, if_pos (List.mem_singleton_self fd)]
        exact update_self ..
      · rw [if_neg fun member => here (List.mem_singleton.mp member)]
        exact update_of_ne here ..
    · dsimp only
      by_cases here : f' = f
      · rw [here, update_self]
        simp [file]
      · rw [update_of_ne here]
        simp [file, Ne.symm here]
    · rw [List.mem_singleton.mp member, file] at there
      cases there
      dsimp only
      rw [update_self]
      omega

theorem closeFiles_effect (l : List (Fin NOFILE)) (nodup : l.Nodup) :
    Gives (l.forM (closeFile p)) k fun _ k' => Shut k k' p l := by
  induction l generalizing k with
  | nil =>
    exact Gives.pure ⟨fun _ => rfl, rfl, fun _ => rfl, fun f => Int.add_zero _,
      fun _ _ member => absurd member List.not_mem_nil, rfl⟩
  | cons fd l ih =>
    obtain ⟨apart, nodup⟩ := List.nodup_cons.mp nodup
    show Gives (forM (fd :: l) (closeFile p)) k _
    rw [List.forM_cons]
    refine (closeFile_effect fd).bind fun _ k₁ one => (ih nodup).mono fun _ k' rest => ?_
    have kept (fd' : Fin NOFILE) (member : fd' ∈ l) : (k₁.proc p).ofile fd' = (k.proc p).ofile fd' := by
      have other : fd' ≠ fd := fun same => apart (same ▸ member)
      rw [one.ofile, if_neg fun same => other (List.mem_singleton.mp same)]
    have same (f : Nat) : l.countP (fun fd => (k₁.proc p).ofile fd = some f) =
        l.countP fun fd => (k.proc p).ofile fd = some f :=
      List.countP_congr fun fd' member => by rw [kept fd' member]
    have total (f : Nat) : k'.fileRef f + (fd :: l).countP (fun fd => (k.proc p).ofile fd =
      some f) = k.fileRef f := by
      have first := one.fileRef f
      have last := rest.fileRef f
      rw [same] at last
      rw [List.countP_cons]
      simp only [List.countP_cons, List.countP_nil] at first
      push_cast at first last ⊢
      omega
    refine ⟨fun other => (rest.others other).trans (one.others other), ?_, fun fd' => ?_, total,
      fun fd' f member there => ?_, rest.nextpid.trans one.nextpid⟩
    · rw [rest.slot, one.slot]
    · rw [rest.ofile, one.ofile]
      by_cases here : fd' = fd <;> simp [here]
    · by_cases later : ∃ fd₂ ∈ l, (k.proc p).ofile fd₂ = some f
      · obtain ⟨fd₂, member₂, there₂⟩ := later
        exact rest.held fd₂ f member₂ ((kept fd₂ member₂).trans there₂)
      · obtain rfl : fd' = fd := (List.mem_cons.mp member).resolve_right fun inside =>
          later ⟨fd', inside, there⟩
        have none : l.countP (fun fd => (k.proc p).ofile fd = some f) = 0 :=
          List.countP_eq_zero.mpr fun fd₂ inside there₂ => later ⟨fd₂, inside, of_decide_eq_true there₂⟩
        have last := rest.fileRef f
        rw [same, none] at last
        have first := one.held fd' f (List.mem_singleton_self fd') there
        omega

theorem orphan_fields (p : ProcId) (slot : Fork.Slot) : orphan p slot = { slot with
    parent := if slot.parent = some p then some initproc else slot.parent } := by
  unfold orphan
  split <;> rfl

theorem orphan_orphan (other : p ≠ initproc) (slot : Fork.Slot) :
    orphan p (orphan p slot) = orphan p slot := by
  unfold orphan
  split
  · exact if_neg fun same => other (Option.some.inj same).symm
  · rfl

theorem reparent_effect (other : p ≠ initproc) (l : List ProcId) : Gives (l.forM (reparentTo p)) k fun _ k' =>
    k'.nextpid = k.nextpid ∧ k'.fileRef = k.fileRef ∧
      ∀ q, k'.proc q = if q ∈ l then orphan p (k.proc q) else k.proc q := by
  induction l generalizing k with
  | nil => exact Gives.pure ⟨rfl, rfl, fun q => (if_neg List.not_mem_nil).symm⟩
  | cons pp l ih =>
    show Gives (forM (pp :: l) (reparentTo p)) k _
    rw [List.forM_cons]
    refine .seq (Gives.modify (ih.mono fun _ k' rest => ?_))
    obtain ⟨nextpid, fileRef, rest⟩ := rest
    refine ⟨nextpid, fileRef, fun q => (rest q).trans ?_⟩
    show (if q ∈ l then orphan p (update k.proc pp (orphan p (k.proc pp)) q)
      else update k.proc pp (orphan p (k.proc pp)) q) = _
    by_cases here : q = pp
    · rw [here, update_self, orphan_orphan other, if_pos (List.mem_cons_self ..), ite_self]
    · rw [update_of_ne here]
      simp only [List.mem_cons, here, false_or]

theorem exit_effect (status : Int) : Gives (Pages.exit p status) k fun _ k' => p ≠ initproc ∧
    Exits k k' p status ∧
    (∀ fd, (k'.proc p).ofile fd = none) ∧
    (∀ f, k'.fileRef f + (List.finRange NOFILE).countP (fun fd => (k.proc p).ofile fd =
      some f) = k.fileRef f) ∧
    ∀ fd f, (k.proc p).ofile fd = some f → 0 ≤ k'.fileRef f := by
  unfold Pages.exit
  refine Gives.ite (fun _ => Gives.throw _) fun other => ?_
  refine (closeFiles_effect _ (List.nodup_finRange _)).bind fun _ k₁ shut => ?_
  refine Gives.bind_run (rfl : (get : ForkM Fork.Kernel) k₁ = .ok (k₁, k₁))
    (.seq (Gives.modify (.seq (Gives.modify ?_))))
  refine (reparent_effect other _).bind fun _ k₂ moved => Gives.modify ?_
  obtain ⟨nextpid, fileRef, proc⟩ := moved
  have mine : k₂.proc p = orphan p { k.proc p with ofile := (k₁.proc p).ofile, cwd := 0 } := by
    rw [proc, if_pos (List.mem_finRange p)]
    dsimp only
    rw [update_self, shut.slot]
  have theirs {q : ProcId} (apart : q ≠ p) : k₂.proc q = orphan p (k.proc q) := by
    rw [proc, if_pos (List.mem_finRange q)]
    dsimp only
    rw [update_of_ne apart, shut.others apart]
  refine ⟨other, ⟨?_, ?_, ?_, fun q => ?_, fun {q} apart => ?_, nextpid.trans shut.nextpid⟩,
    fun fd => ?_, fun f => ?_,
    fun fd f there => ?_⟩
  all_goals dsimp only
  · rw [update_self]
  · rw [update_self]
  · rw [update_self, mine, orphan_fields]
    exact ⟨rfl, rfl, rfl⟩
  · by_cases here : q = p
    · rw [here, update_self, mine, orphan_fields]
    · rw [update_of_ne here, theirs here, orphan_fields]
  · rw [update_of_ne apart, theirs apart, orphan_fields]
  · rw [update_self, mine, orphan_fields]
    exact (shut.ofile fd).trans (if_pos (List.mem_finRange fd))
  · rw [fileRef]
    exact shut.fileRef f
  · rw [fileRef]
    exact shut.held fd f (List.mem_finRange fd) there

/-- What `kill` does to the first entry with this pid. -/
theorem kill_effect (pid : Int) : Gives (Pages.kill pid) k fun r k' =>
    match (List.finRange NPROC).find? fun q => decide ((k.proc q).pid = pid) with
    | none => r = -1 ∧ k' = k
    | some q => r = 0 ∧ k' = { k with proc := update k.proc q { k.proc q with
      killed := 1, state := if (k.proc q).state = .sleeping then .runnable else (k.proc q).state } } := by
  unfold Pages.kill
  refine Gives.bind_run (rfl : (get : ForkM Fork.Kernel) k = .ok (k, k)) ?_
  cases (List.finRange NPROC).find? fun q => decide ((k.proc q).pid = pid) with
  | none => exact Gives.pure ⟨rfl, rfl⟩
  | some q => exact .seq (Gives.modify (Gives.pure ⟨rfl, rfl⟩))

end Effects

end Xv6.Pages
