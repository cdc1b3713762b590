import Xv6.Proc.Machine
import Xv6.Vm.Uvmcopy

/-! `fork` of kernel/proc.c, with its memory. -/

namespace Xv6.Fork
open Function
open Vm (Pagetable Memory VmM PGSIZE kalloc kfree procPagetable procFreepagetable uvmcopy emptyTable)

/-- An entry of the process table. Of the pointers, `parent`, `pagetable` and those in `ofile` are none when
null, and `trapframe` is the address of a page or 0; `context` has its registers in their order, `ra` and `sp`
first. -/
structure Slot where
  state : ProcState
  chan : Nat
  killed : Int
  xstate : Int
  pid : Int
  parent : Option ProcId
  kstack : Nat
  sz : Nat
  pagetable : Option Pagetable
  trapframe : Nat
  context : Nat → Nat
  ofile : Fin NOFILE → Option Nat
  cwd : Nat
  name : Bytes
  traceMask : Int

/-- Memory, the process table, and the reference counts of open files and of inodes; `forkret` is an address
that the linker chooses. -/
structure Kernel where
  memory : Memory
  proc : ProcId → Slot
  nextpid : Int
  fileRef : Nat → Int
  inodeRef : Nat → Int
  forkret : Nat

abbrev ForkM := StateT Kernel (Except String)

def vm {α : Type} (m : VmM α) : ForkM α := zoom Kernel.memory (fun memory k => { k with memory }) m

def setProc (p : ProcId) (f : Slot → Slot) : ForkM Unit :=
  modify fun k => { k with proc := update k.proc p (f (k.proc p)) }

def allocpid : ForkM Int := fun k => .ok (k.nextpid, { k with nextpid := k.nextpid + 1 })

/-- `sizeof(struct trapframe)`, and where its `a0` is. -/
def trapframeSize : Nat := 288
def a0 : Nat := 112

def freeproc (p : ProcId) : ForkM Unit := do
  let slot := (← get).proc p
  if slot.trapframe ≠ 0 then vm (kfree slot.trapframe)
  match slot.pagetable with
  | some pt => vm (procFreepagetable pt slot.sz)
  | none => pure ()
  setProc p fun slot =>
    { slot with
      trapframe := 0, pagetable := none, sz := 0, pid := 0, parent := none, name := update slot.name 0 0, chan := 0
      killed := 0, xstate := 0, state := .unused }

/-- `allocproc` from its label `found` on. -/
def found (p : ProcId) : ForkM (Option ProcId) := do
  let pid ← allocpid
  setProc p fun slot => { slot with pid, state := .used }
  match ← vm kalloc with
  | none => do
    setProc p fun slot => { slot with trapframe := 0 }
    freeproc p
    return none
  | some page => do
    setProc p fun slot => { slot with trapframe := page }
    match ← vm (procPagetable ⟨emptyTable 0, 0, page⟩) with
    | none => do
      setProc p fun slot => { slot with pagetable := none }
      freeproc p
      return none
    | some pt => do
      let forkret := (← get).forkret
      setProc p fun slot =>
        { slot with
          pagetable := some pt, context := update (update (fun _ => 0) 0 forkret) 1 (slot.kstack + PGSIZE)
          traceMask := 0 }
      return some p

def allocproc : ForkM (Option ProcId) := do
  let k ← get
  match (List.finRange NPROC).find? fun p => (k.proc p).state = .unused with
  | none => return none
  | some p => found p

def filedup (f : Nat) : ForkM Unit := fun k =>
  if k.fileRef f < 1 then .error "filedup" else .ok ((),
    { k with fileRef := update k.fileRef f (k.fileRef f + 1) })

def idup (ip : Nat) : ForkM Unit :=
  modify fun k => { k with inodeRef := update k.inodeRef ip (k.inodeRef ip + 1) }

/-- A round of the loop of `fork` over the open files. -/
def dupFile (p np : ProcId) (fd : Fin NOFILE) : ForkM Unit := do
  match ((← get).proc p).ofile fd with
  | none => pure ()
  | some f => do
    filedup f
    setProc np fun slot => { slot with ofile := update slot.ofile fd (some f) }

/-- `fork` after the child has its memory: the child's registers, files, directory and name. -/
def setChild (p np : ProcId) : ForkM Int := do
  let parent := (← get).proc p
  let child := (← get).proc np
  setProc np fun slot => { slot with sz := parent.sz }
  vm (modify fun s => s.write child.trapframe 0 trapframeSize (s.mem parent.trapframe))
  vm (modify fun s => s.write child.trapframe a0 8 fun _ => 0)
  setProc np fun slot => { slot with traceMask := parent.traceMask }
  (List.finRange NOFILE).forM (dupFile p np)
  idup parent.cwd
  setProc np fun slot =>
    { slot with cwd := parent.cwd, name := safestrcpy slot.name parent.name 16, parent := some p, state := .runnable }
  return child.pid

/-- `fork`, which the process at `p` calls. -/
def fork (p : ProcId) : ForkM Int := do
  match ← allocproc with
  | none => return -1
  | some np => do
    match ((← get).proc p).pagetable, ((← get).proc np).pagetable with
    | some old, some new => do
      let (r, pt) ← vm (uvmcopy old new ((← get).proc p).sz)
      setProc np fun slot => { slot with pagetable := some pt }
      if r < 0 then do
        freeproc np
        return -1
      else setChild p np
    | _, _ => throw "null page table"

end Xv6.Fork
