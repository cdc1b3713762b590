import Xv6.Exec.Machine
import Xv6.Fork.Machine
import Xv6.Lib.Shares
import Xv6.Namei.Runs

/-! The calls of all processes that take pages of memory, give them back, or write to them. -/

namespace Xv6.Pages
open Function Fork
open Vm (Pagetable Pte Memory VmM PGSIZE MAXVA kalloc kfree memset mappages)

/-- The kernel of `fork`, with the pages that hold a pipe. -/
structure Kernel extends Fork.Kernel where
  pipes : List Nat

abbrev PagesM := StateT Kernel (Except String)

def onFork {α : Type} (m : ForkM α) : PagesM α :=
  zoom Kernel.toKernel (fun fork k => { k with toKernel := fork }) m

/-! ### kernel/vm.c and kernel/proc.c, when the first process is made -/

def initcode : List UInt8 :=
  [0x17, 0x05, 0x00, 0x00, 0x13, 0x05, 0x45, 0x02, 0x97, 0x05, 0x00, 0x00, 0x93, 0x85, 0x35, 0x02,
    0x93, 0x08, 0x70, 0x00, 0x73, 0x00, 0x00, 0x00, 0x93, 0x08, 0x20, 0x00, 0x73, 0x00, 0x00, 0x00,
    0xef, 0xf0, 0x9f, 0xff, 0x2f, 0x69, 0x6e, 0x69, 0x74, 0x00, 0x00, 0x24, 0x00, 0x00, 0x00, 0x00,
    0x00, 0x00, 0x00, 0x00]

/-- `uvmfirst`. The result of `kalloc` and that of `mappages` are not looked at; a write to the null page is a
fault of the kernel. -/
def uvmfirst (pt : Pagetable) (src : List UInt8) : VmM Pagetable :=
  if PGSIZE ≤ src.length then throw "uvmfirst: more than a page"
  else do
    match ← kalloc with
    | none => throw "kerneltrap"
    | some mem => do
      memset mem
      let (_, pt) ← mappages pt 0 PGSIZE mem ⟨true, true, true, true⟩
      modify fun s => s.write mem 0 src.length (Bytes.ofList src)
      pure pt

/-- `userinit`; `root` is the inode that `namei` finds for "/". -/
def userinit (root : Nat) : ForkM Unit := do
  match ← Fork.allocproc with
  | none => throw "kerneltrap"
  | some p => do
    match ((← get).proc p).pagetable with
    | none => throw "null page table"
    | some pt => do
      let pt ← vm (uvmfirst pt initcode)
      let page := ((← get).proc p).trapframe
      setProc p fun slot => { slot with pagetable := some pt, sz := PGSIZE }
      vm (modify fun s => s.write page Exec.epc 8 fun _ => 0)
      vm (modify fun s => s.write page Exec.sp 8 (Bytes.ofNat PGSIZE))
      Fork.idup root
      -- "initcode"
      setProc p fun slot =>
        { slot with
          name := safestrcpy slot.name (Bytes.ofList [0x69, 0x6e, 0x69, 0x74, 0x63, 0x6f, 0x64, 0x65]) 16
          cwd := root, state := .runnable }

/-! ### kernel/proc.c -/

/-- `fileclose`, as far as the count goes; the pages of pipes are given back by `pipeclose`. -/
def fileclose (f : Nat) : ForkM Unit := fun k =>
  if k.fileRef f < 1 then .error "fileclose" else .ok ((),
    { k with fileRef := update k.fileRef f (k.fileRef f - 1) })

/-- A round of the loop of `exit` over the open files. -/
def closeFile (p : ProcId) (fd : Fin NOFILE) : ForkM Unit := do
  match ((← get).proc p).ofile fd with
  | none => pure ()
  | some f => do
    fileclose f
    setProc p fun slot => { slot with ofile := update slot.ofile fd none }

/-- A round of `reparent`. -/
def reparentTo (p pp : ProcId) : ForkM Unit :=
  setProc pp fun slot => if slot.parent = some p then { slot with parent := some initproc } else slot

/-- `exit`; those that it wakes up are scheduled at some time, and a process can be scheduled at any time. -/
def exit (p : ProcId) (status : Int) : ForkM Unit :=
  if p = initproc then throw "init exiting"
  else do
    (List.finRange NOFILE).forM (closeFile p)
    let cwd := ((← get).proc p).cwd
    modify fun k => { k with inodeRef := update k.inodeRef cwd (k.inodeRef cwd - 1) }
    setProc p fun slot => { slot with cwd := 0 }
    (List.finRange NPROC).forM (reparentTo p)
    setProc p fun slot => { slot with xstate := status, state := .zombie }

/-- What `wait` finds in the process table: a child, and the first one that has exited. -/
def hasChild (k : Fork.Kernel) (p : ProcId) : Bool :=
  (List.finRange NPROC).any fun pp => decide ((k.proc pp).parent = some p)
def zombieChild (k : Fork.Kernel) (p : ProcId) : Option ProcId :=
  (List.finRange NPROC).find? fun pp => decide ((k.proc pp).parent = some p ∧ (k.proc pp).state = .zombie)

/-- A round of the endless loop of `wait`; none if the process goes to sleep. -/
def wait (p : ProcId) (addr : Nat) : ForkM (Option Int) := do
  let k ← get
  match zombieChild k p, (k.proc p).pagetable with
  | some pp, some pt => do
    let r ← (if addr = 0 then pure 0 else vm (Vm.copyout pt addr
      (Bytes.ofNat ((k.proc pp).xstate % 2 ^ 32).toNat) 4) : ForkM Int)
    if r < 0 then return some (-1)
    else do
      Fork.freeproc pp
      return some (k.proc pp).pid
  | some _, none => throw "null page table"
  | none, _ => return if !hasChild k p ∨ (k.proc p).killed ≠ 0 then some (-1) else none

/-- `kill` looks at all entries of the process table, also at those that are not in use. -/
def kill (pid : Int) : ForkM Int := do
  let k ← get
  match (List.finRange NPROC).find? fun q => (k.proc q).pid = pid with
  | none => return -1
  | some q => do
    setProc q fun slot => { slot with
        killed := 1, state := if slot.state = .sleeping then .runnable else slot.state }
    return 0

/-! ### kernel/sysproc.c and kernel/sysfile.c -/

def sbrk (p : ProcId) (n : BitVec 32) : ForkM Int := do
  let slot := (← get).proc p
  match slot.pagetable with
  | none => throw "null page table"
  | some pt => do
    let (r, grown) ← vm (Vm.growproc n.toInt ⟨pt, slot.sz, slot.trapframe⟩)
    setProc p fun slot => { slot with pagetable := some grown.pagetable, sz := grown.sz }
    return if r < 0 then -1 else slot.sz

/-- The state of the process at `p` that `sys_exec` works on, and what it is afterwards. -/
def toExec (k : Fork.Kernel) (p : ProcId) (fs : Namei.Fs) (pt : Pagetable) : Exec.Kernel :=
  let slot := k.proc p
  ⟨k.memory, fs, 0, pt, slot.sz, slot.trapframe, slot.name, slot.ofile⟩
def ofExec (k : Fork.Kernel) (p : ProcId) (e : Exec.Kernel) : Fork.Kernel :=
  { k with
    memory := e.memory
    proc := update k.proc p { k.proc p with pagetable := some e.pagetable, sz := e.sz, name := e.name } }

/-- `sys_exec` of the process at `p`, with the file system as it is then. -/
def exec (p : ProcId) (fs : Namei.Fs) : ForkM Int := fun k =>
  match (k.proc p).pagetable with
  | none => .error "null page table"
  | some pt =>
    match Exec.sysExec (toExec k p fs pt) with
    | .error e => .error e
    | .ok (r, e) => .ok (r, ofExec k p e)

/-- What the calls do that copy data to a user address. -/
def copyout (p : ProcId) (dstva : Nat) (src : Bytes) (len : Nat) : ForkM Int := do
  match ((← get).proc p).pagetable with
  | none => throw "null page table"
  | some pt => vm (Vm.copyout pt dstva src len)

/-- `pipealloc` and `pipeclose`, as far as the page of the pipe goes. -/
def pipealloc : PagesM Int := do
  match ← onFork (vm kalloc) with
  | none => return -1
  | some pi => do
    modify fun k => { k with pipes := pi :: k.pipes }
    return 0

def pipeclose (pi : Nat) : PagesM Unit := do
  onFork (vm (kfree pi))
  modify fun k => { k with pipes := k.pipes.erase pi }

/-! ### The machine -/

/-- A system call writes its result to `a0` of the trapframe. -/
def setResult (p : ProcId) (r : Int) : ForkM Unit := do
  let page := ((← get).proc p).trapframe
  vm (modify fun s => s.write page a0 8 (Bytes.ofNat (r % 2 ^ 64).toNat))

/-- A program stores a byte; the processor looks the page up, and otherwise the process is killed by
`usertrap`. -/
def store (p : ProcId) (va : Nat) (b : UInt8) : ForkM Unit := do
  match (((← get).proc p).pagetable).bind fun pt => if va < MAXVA then pt.leaf (va / PGSIZE) else none with
  | some pte =>
    if pte.perm.u ∧ pte.perm.w then vm (modify fun s => s.write pte.pa (va % PGSIZE) 1 fun _ => b)
    else setProc p fun slot => { slot with killed := 1 }
  | none => setProc p fun slot => { slot with killed := 1 }

/-- What the process that runs does: it stores a byte, it enters the kernel and its registers are saved, it
makes a call, or a call of it does one of the steps that it is made of. -/
inductive Event where
  | store (va : Nat) (b : UInt8)
  | uservec (registers : Bytes)
  | fork
  | exec (fs : Namei.Fs)
  | sbrk (n : BitVec 32)
  | exit (status : Int)
  | wait (addr : Nat)
  | kill (pid : Int)
  | copyout (dstva : Nat) (src : Bytes) (len : Nat)
  | pipealloc
  | pipewrite (pi a n : Nat) (src : Bytes)
  | pipeclose (pi : Nat)
  | files (ofile : Fin NOFILE → Option Nat) (fileRef : Nat → Int)

/-- How many descriptors refer to a file. -/
def opens (ofile : Fin NOFILE → Option Nat) (f : Nat) : Nat := ∑ fd, if ofile fd = some f then 1 else 0

/-- The file system is a tree when a program is looked up, the code of pipes works on pages of pipes, and the
code of open files keeps the counts of them. -/
def Event.Allowed (p : ProcId) (k : Kernel) : Event → Prop
  | .exec fs => Namei.Tree fs
  | .files ofile fileRef => ∀ f, fileRef f + opens (k.proc p).ofile f = k.fileRef f + opens ofile f
  | .pipewrite pi a n _ => pi ∈ k.pipes ∧ a + n ≤ PGSIZE
  | .pipeclose pi => pi ∈ k.pipes
  | _ => True

def Event.run (p : ProcId) : Event → PagesM Unit
  | .store va b => onFork (Pages.store p va b)
  | .uservec registers => onFork do
    let page := ((← get).proc p).trapframe
    vm (modify fun s => s.write page 0 trapframeSize registers)
  | .fork => onFork do setResult p (← Fork.fork p)
  | .exec fs => onFork do setResult p (← Pages.exec p fs)
  | .sbrk n => onFork do setResult p (← Pages.sbrk p n)
  | .exit status => onFork (Pages.exit p status)
  | .wait addr => onFork do
    match ← Pages.wait p addr with
    | some r => setResult p r
    | none => setProc p fun slot => { slot with state := .sleeping }
  | .kill pid => onFork do setResult p (← Pages.kill pid)
  | .copyout dstva src len => onFork do discard (Pages.copyout p dstva src len)
  | .pipealloc => discard Pages.pipealloc
  | .pipewrite pi a n src => onFork (vm (modify fun s => s.write pi a n src))
  | .pipeclose pi => Pages.pipeclose pi
  | .files ofile fileRef => onFork do
    modify fun k => { k with fileRef }
    setProc p fun slot => { slot with ofile }

/-- A process that has memory and is not in `exit` is scheduled or goes to sleep. -/
def Live (s : ProcState) : Prop := s = .sleeping ∨ s = .runnable ∨ s = .running

inductive Step (k : Kernel) : Kernel → Prop where
  | event {p : ProcId} {e : Event} {k' : Kernel} : (k.proc p).state = .running → e.Allowed p k →
      e.run p k = .ok ((), k') → Step k k'
  | moves {p : ProcId} {state : ProcState} : Live (k.proc p).state → Live state →
      Step k { k with proc := update k.proc p { k.proc p with state } }

/-- An entry of the process table that is not in use. -/
structure Blank (slot : Fork.Slot) : Prop where
  sz : slot.sz = 0
  pagetable : slot.pagetable = none
  trapframe : slot.trapframe = 0
  ofile : ∀ fd, slot.ofile fd = none

/-- The kernel before the first process is made: `kinit` has put pages on the free list, of which the kernel
has taken some. -/
structure Booted (k : Kernel) : Prop where
  nodup : k.memory.freelist.Nodup
  kernelEnd : Vm.KERNBASE ≤ k.memory.kernelEnd
  pages : ∀ pa ∈ k.memory.freelist, pa % PGSIZE = 0 ∧ k.memory.kernelEnd ≤ pa ∧ pa < Vm.PHYSTOP
  trampoline : k.memory.trampoline < k.memory.kernelEnd
  unused (p) : (k.proc p).state = .unused
  blank (p) : Blank (k.proc p)
  pipes : k.pipes = []
  closed (f) : k.fileRef f = 0
  enough : 10 ≤ k.memory.freelist.length

/-- What can come about from a kernel that has booted. -/
inductive Reach (boot : Kernel) : Kernel → Prop where
  | userinit {root : Nat} {k : Fork.Kernel} : userinit root boot.toKernel = .ok ((), k) →
      Reach boot { boot with toKernel := k }
  | step {k k' : Kernel} : Reach boot k → Step k k' → Reach boot k'

end Xv6.Pages
