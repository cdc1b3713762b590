import Xv6.Sysfile.Machine

/-! Processes that make the calls of kernel/sysfile.c one after the other, and that fork and exit. -/

namespace Xv6.Sysfile.Links
open Function Content Namei

/-- The kernel, and which processes have been created and have not exited. -/
structure World where
  kernel : Kernel
  live : ProcId → Bool

/-! ### kernel/file.c -/

def filedup (f : Fin NFILE) : SysM Unit := do
  let k ← get
  if (k.file f).ref < 1 then throw "filedup" else set (k.setFile f { k.file f with
      ref := (k.file f).ref + 1 })

/-- A value of type `int` as one of type `uint`. -/
def uint (n : Int) : Nat := (n % 2 ^ 32).toNat

/-- `f->off += r` -/
def advance (f : Fin NFILE) (r : Int) : SysM Unit :=
  modify fun k => k.setFile f { k.file f with off := uint ((k.file f).off + r) }

/-- `readi` to user memory, of which only the count is kept. The copy ends at a bad address after `limit`
bytes. -/
def readi (inum : Nat) (limit : Option Nat) (off n : Nat) : SysM Int := onFs (onVolume fun v => do
  let (r, _, v) ← v.readi inum (fun _ => 0) limit off n
  return (r, v))

/-- `fileread`; `other` is what `piperead` or the device gives. -/
def fileread (f : Fin NFILE) (limit : Option Nat) (n other : Int) : SysM Int := do
  let ff := (← get).file f
  if !ff.readable then return -1
  else match ff.type with
    | .pipe | .device => return other
    | .inode => do
      onFs (ilock ff.ip)
      let r ← readi ((← get).inum ff.ip) limit ff.off (uint n)
      if 0 < r then advance f r
      onFs (iunlock ff.ip)
      return r
    | .none => throw "fileread"

/-- The most bytes that `filewrite` writes in one transaction. -/
def maxChunk : Nat := (MAXOPBLOCKS - 1 - 1 - 2) / 2 * BSIZE

/-- The loop of `filewrite`, which ends with `i`. No more than `n` rounds are made. -/
def filewriteLoop (f : Fin NFILE) (src : Bytes) (limit : Option Nat) (n : Nat) : Nat → Nat → SysM Nat
  | 0, i => return i
  | fuel + 1, i =>
    if i < n then do
      let n1 := min (n - i) maxChunk
      beginOp
      let ff := (← get).file f
      onFs (ilock ff.ip)
      let inum := (← get).inum ff.ip
      let r ← onFs (onVolume fun v => v.writei inum (src.drop i) (limit.map fun l => l - i) ff.off n1)
      if 0 < r then advance f r
      onFs (iunlock ff.ip)
      endOp
      if r ≠ n1 then return i  -- error from writei
      else filewriteLoop f src limit n fuel (i + n1)
    else return i

/-- `filewrite`; `other` is what `pipewrite` or the device gives. -/
def filewrite (f : Fin NFILE) (src : Bytes) (limit : Option Nat) (n other : Int) : SysM Int := do
  let ff := (← get).file f
  if !ff.writable then return -1
  else match ff.type with
    | .pipe | .device => return other
    | .inode => do
      let i ← filewriteLoop f src limit n.toNat n.toNat 0
      return if i = n then n else -1
    | .none => throw "filewrite"

/-! ### kernel/sysfile.c -/

theorem fd_below {n : Int} (inside : 0 ≤ n ∧ n < NOFILE) : n.toNat < NOFILE := by omega

def argfd (n : Int) : SysM (Option (Fin NOFILE × Fin NFILE)) := do
  let k ← get
  if inside : 0 ≤ n ∧ n < NOFILE then
    let fd : Fin NOFILE := ⟨n.toNat, fd_below inside⟩
    return ((k.proc k.myproc).ofile fd).map fun f => (fd, f)
  else return none

def setFd (fd : Fin NOFILE) (f : Option (Fin NFILE)) : SysM Unit := modify fun k =>
  { k with proc := update k.proc k.myproc { k.proc k.myproc with ofile := update (k.proc k.myproc).ofile fd f } }

def sysDup (n : Int) : SysM Int := do
  match ← argfd n with
  | none => return -1
  | some (_, f) => do
    match ← fdalloc f with
    | none => return -1
    | some fd => do
      filedup f
      return fd.val

def sysRead (fd : Int) (limit : Option Nat) (n other : Int) : SysM Int := do
  match ← argfd fd with
  | none => return -1
  | some (_, f) => fileread f limit n other

def sysWrite (fd : Int) (src : Bytes) (limit : Option Nat) (n other : Int) : SysM Int := do
  match ← argfd fd with
  | none => return -1
  | some (_, f) => filewrite f src limit n other

def sysClose (n : Int) : SysM Int := do
  match ← argfd n with
  | none => return -1
  | some (fd, f) => do
    setFd fd none
    fileclose f
    return 0

/-! ### kernel/proc.c -/

/-- A round of the loop of `fork` over the open files. -/
def dupFile (np : ProcId) (fd : Fin NOFILE) : SysM Unit := do
  let k ← get
  match (k.proc k.myproc).ofile fd with
  | none => pure ()
  | some f => do
    filedup f
    modify fun k => { k with
      proc := update k.proc np { k.proc np with ofile := update (k.proc np).ofile fd (some f) } }

/-- What `fork` does with the files and the directory once it has a new process. -/
def forkFiles (np : ProcId) : SysM Unit := do
  (List.finRange NOFILE).forM (dupFile np)
  let k ← get
  let ip ← onFs (idup (k.proc k.myproc).cwd)
  modify fun k => { k with proc := update k.proc np { k.proc np with cwd := ip } }

/-- A round of the loop of `exit` over the open files. -/
def closeFile (fd : Fin NOFILE) : SysM Unit := do
  let k ← get
  match (k.proc k.myproc).ofile fd with
  | none => pure ()
  | some f => do
    fileclose f
    setFd fd none

/-- What `exit` does with the files and the directory. -/
def exitFiles : SysM Unit := do
  let k ← get
  if k.myproc = initproc then throw "init exiting"
  else do
    (List.finRange NOFILE).forM closeFile
    beginOp
    onFs (iput (k.proc k.myproc).cwd)
    endOp

/-! ### Steps -/

/-- A system call that a process makes, with its arguments. -/
inductive Syscall where
  | name (c : Call)
  | read (fd : Int) (limit : Option Nat) (n other : Int)
  | write (fd : Int) (src : Bytes) (limit : Option Nat) (n other : Int)
  | dup (fd : Int)
  | close (fd : Int)

def Syscall.run : Syscall → SysM Int
  | .name c => c.run
  | .read fd limit n other => sysRead fd limit n other
  | .write fd src limit n other => sysWrite fd src limit n other
  | .dup fd => sysDup fd
  | .close fd => sysClose fd

inductive Event where
  | call (p : ProcId) (c : Syscall)
  | fork (p np : ProcId)
  | exit (p : ProcId)

/-- The kernel while a process runs. -/
def scheduled (k : Kernel) (p : ProcId) : Kernel := { k with myproc := p }

def Event.run (w : World) : Event → Except String World
  | .call p c => do
    let (_, kernel) ← c.run (scheduled w.kernel p)
    return { w with kernel }
  | .fork p np => do
    let (_, kernel) ← forkFiles np (scheduled w.kernel p)
    return { kernel, live := update w.live np true }
  | .exit p => do
    let (_, kernel) ← exitFiles (scheduled w.kernel p)
    return { kernel, live := update w.live p false }

end Xv6.Sysfile.Links
