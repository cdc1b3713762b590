import Xv6.Namei.Machine
import Xv6.Vm.Copyinstr
import Xv6.Vm.Whole

/-! `sys_exec` of kernel/sysfile.c and `exec` of kernel/exec.c, with all that they change. -/

namespace Xv6.Exec
open Function Content Namei Vm

/-- Memory, the file system, `log.outstanding`, and the process that runs; `trapframe` is the address of a
page. The directory of the process is that of `fs`. -/
structure Kernel where
  memory : Memory
  fs : Fs
  outstanding : Nat
  pagetable : Pagetable
  sz : Nat
  trapframe : Nat
  name : Bytes
  ofile : Fin NOFILE → Option Nat

abbrev ExecM := StateT Kernel (Except String)

def vm {α : Type} (m : VmM α) : ExecM α := zoom Kernel.memory (fun memory k => { k with memory }) m

def fs {α : Type} (m : FsM α) : ExecM α := zoom Kernel.fs (fun fs k => { k with fs }) m

/-- `begin_op` and `end_op`, as far as `log.outstanding` goes. -/
def beginOp : ExecM Unit := modify fun k => { k with outstanding := k.outstanding + 1 }
def endOp : ExecM Unit := modify fun k => { k with outstanding := k.outstanding - 1 }

/-- What is read of an inode, which has a block for each of its bytes. -/
def fileOf (v : Volume) (i : Nat) : Vm.File := ⟨(v.inode i).size, v.file i⟩

/-! ### kernel/proc.h: where registers are in a trapframe -/

def epc : Nat := 24
def sp : Nat := 48
def a0 : Nat := 112
def a1 : Nat := 120

def Kernel.register (k : Kernel) (r : Nat) : Nat := (k.memory.mem k.trapframe).le r 8

def setRegister (r v : Nat) : ExecM Unit := do
  let k ← get
  vm (modify fun s => s.write k.trapframe r 8 (Bytes.ofNat v))

/-! ### kernel/exec.c -/

/-- The end of `exec` when it fails: it gives back what it has made of a page table, and the inode unless it
has let go of it. -/
def bad (pagetable : Option (Pagetable × Nat)) (ip : Option Namei.Slot) : ExecM Unit := do
  match pagetable with
  | some (pt, sz) => vm (procFreepagetable pt sz)
  | none => pure ()
  match ip with
  | some ip => do
    fs (iunlockput ip)
    endOp
  | none => pure ()

/-- `exec` of an inode that it has locked, until it lets go of the inode: the entry point, the page table and
the size. -/
def loadFile (ip : Namei.Slot) (file : Vm.File) : ExecM (Option (Nat × Pagetable × Nat)) :=
  if file.count 0 elfhdrSize ≠ elfhdrSize then do
    bad none (some ip)
    return none
  else if file.bytes.le 0 4 ≠ ELF_MAGIC then do
    bad none (some ip)
    return none
  else do
    let k ← get
    match ← vm (procPagetable ⟨k.pagetable, k.sz, k.trapframe⟩) with
    | none => do
      bad none (some ip)
      return none
    | some pt => do
      let (ok, pt, sz) ← vm (loadSegments file (file.bytes.le 56 2) (file.bytes.le 32 8 % 2 ^ 32) pt 0)
      if !ok then do
        bad (some (pt, sz)) (some ip)
        return none
      else do
        fs (iunlockput ip)
        endOp
        return some (file.bytes.le 24 8, pt, sz)

/-- `exec` as far as the program has been loaded into memory. -/
def loadProgram (path : List UInt8) : ExecM (Option (Nat × Pagetable × Nat)) := do
  beginOp
  match ← fs (namei path) with
  | none => do
    endOp
    return none
  | some ip => do
    fs (ilock ip)
    let k ← get
    loadFile ip (fileOf k.fs.volume (k.fs.inode ip).inum)

/-- The part of the path after its last slash. -/
def lastElem (last : List UInt8) : List UInt8 → List UInt8
  | [] => last
  | c :: s => lastElem (if c = slash then s else last) s

/-- `exec` when nothing can fail any more. -/
def commit (path : List UInt8) (argc entry : Nat) (pt : Pagetable) (sz stack : Nat) : ExecM Int := do
  setRegister a1 stack
  modify fun k => { k with name := safestrcpy k.name (Bytes.ofList (lastElem path path)) 16 }
  let old ← get
  modify fun k => { k with pagetable := pt, sz }
  setRegister epc entry
  setRegister sp stack
  vm (procFreepagetable old.pagetable old.sz)
  return argc

/-- How the arguments are pushed. -/
abbrev Push := Pagetable → Nat → List (List UInt8) → Nat → List Nat → VmM (Option Nat)

/-- `exec` after it has let go of the inode: the stack. -/
def pushStack (push : Push) (path : List UInt8) (argv : List (List UInt8)) (entry : Nat)
    (pt : Pagetable) (sz : Nat) :
    ExecM Int := do
  let sz := PGROUNDUP sz
  let (sz1, pt) ← vm (uvmalloc pt sz ((sz + (USERSTACK + 1) * PGSIZE) % 2 ^ 64) true false)
  if sz1 = 0 then do
    bad (some (pt, sz)) none
    return -1
  else do
    let pt ← vm (uvmclear pt (sub64 sz1 ((USERSTACK + 1) * PGSIZE)))
    match ← vm (push pt (sub64 sz1 (USERSTACK * PGSIZE)) argv sz1 []) with
    | none => do
      bad (some (pt, sz1)) none
      return -1
    | some stack => commit path argv.length entry pt sz1 stack

/-- `exec` of a path, with the strings of `argv` pushed in some way. -/
def execWith (push : Push) (path : List UInt8) (argv : List (List UInt8)) : ExecM Int := do
  match ← loadProgram path with
  | none => return -1
  | some (entry, pt, sz) => pushStack push path argv entry pt sz

def exec (path : List UInt8) (argv : List (List UInt8)) : ExecM Int := execWith pushArgs path argv

/-! ### kernel/syscall.c and kernel/sysfile.c -/

def MAXPATH : Nat := 128

def fetchaddr (addr : Nat) : ExecM (Option Nat) := do
  let k ← get
  if k.sz ≤ addr ∨ k.sz < (addr + 8) % 2 ^ 64 then return none
  else do
    let (r, ip) ← vm (Vm.copyin k.pagetable (fun _ => 0) 0 addr 8)
    return if r = 0 then some (ip.le 0 8) else none

/-- `fetchstr`: what is in the buffer afterwards, and whether it is a string. -/
def fetchstr (addr : Nat) (buf : Bytes) (max : Nat) : ExecM (Bool × Bytes) := do
  let k ← get
  let (r, buf) ← vm (copyinstr k.pagetable buf 0 addr max)
  return (decide (0 ≤ r), buf)

/-- The loop of `sys_exec` that fetches the arguments, for the rounds that are left of `NELEM(argv)`: the
pages that it has taken, and whether `argv` is complete. -/
def fetchArgs (uargv : Nat) : Nat → List Nat → ExecM (Bool × List Nat)
  | 0, argv => return (false, argv)
  | n + 1, argv => do
    match ← fetchaddr ((uargv + 8 * argv.length) % 2 ^ 64) with
    | none => return (false, argv)
    | some uarg =>
      if uarg = 0 then return (true, argv)
      else do
        match ← vm kalloc with
        | none => return (false, argv)
        | some page => do
          let k ← get
          let (ok, buf) ← fetchstr uarg (k.memory.mem page) PGSIZE
          vm (modify fun s => s.write page 0 PGSIZE buf)
          if ok then fetchArgs uargv n (argv ++ [page]) else return (false, argv ++ [page])

/-- The strings that the pages hold. -/
def Kernel.strings (k : Kernel) (argv : List Nat) : List (List UInt8) :=
  argv.map fun page => (k.memory.mem page).str PGSIZE

def freeArgs (argv : List Nat) : ExecM Unit := argv.forM fun page => vm (kfree page)

def sysExec : ExecM Int := do
  let k ← get
  let uargv := k.register a1
  let (ok, path) ← fetchstr (k.register a0) (fun _ => 0) MAXPATH
  if !ok then return -1
  else do
    let (ok, argv) ← fetchArgs uargv MAXARG []
    if ok then do
      let ret ← exec (path.str MAXPATH) ((← get).strings argv)
      freeArgs argv
      return ret
    else do
      freeArgs argv
      return -1

end Xv6.Exec
