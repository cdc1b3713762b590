import Xv6.Fs.Inode
import Xv6.Lib.Threads
import Mathlib.Algebra.BigOperators.Group.Finset.Basic
import Mathlib.Algebra.Order.BigOperators.Group.Finset

namespace Xv6.Ftable
open Threads Function
open Fs (FileType)

abbrev FileId := Fin NFILE
abbrev Fd := Fin NOFILE
abbrev PageId := Nat

/-- The values of `type` in a file: `FD_NONE`, `FD_PIPE`, `FD_INODE` and `FD_DEVICE`. -/
inductive FileKind where
  | none
  | pipe
  | inode
  | device
deriving DecidableEq

/-- `struct file` -/
structure File where
  type : FileKind
  ref : Nat
  readable : Bool
  writable : Bool
  pipe : PageId
  ip : Nat
  off : Nat
  major : Int

/-- The flags of `struct pipe`. -/
structure Pipe where
  readopen : Bool
  writeopen : Bool

/-- The flag of one end, the writing one or the reading one. -/
def Pipe.isOpen (pi : Pipe) (writable : Bool) : Bool := if writable then pi.writeopen else pi.readopen

def Pipe.close (pi : Pipe) (writable : Bool) : Pipe :=
  if writable then { pi with writeopen := false } else { pi with readopen := false }

/-- What the file table has to do with of a process's `state`; a process between `fork` and its first
return to user space is `runnable`. -/
inductive Status where
  | unused
  | used (creator : ProcId)
  | runnable
  | running
  | zombie
deriving DecidableEq

/-- Who is to close an end of a pipe: nobody any more, a process that has it in its hands, or the last
holder of a file. -/
inductive End where
  | shut
  | hand (t : ProcId)
  | file (f : FileId)
deriving DecidableEq

/-- The file table, the descriptors of the processes and the pages that hold pipes. The fields after
`allocated` are a record kept for the proofs, which no step reads: the references to each file with the
processes that hold them, the process that has allocated a file and not yet filled it in, the ends of the
pipes, the page a process has to itself, the processes between
`begin_op` and `end_op`, and how often each page has been allocated and freed. -/
structure FtState where
  file : FileId → File
  ofile : ProcId → Fd → Option FileId
  status : ProcId → Status
  page : PageId → Pipe
  allocated : PageId → Bool
  users : FileId → List ProcId
  maker : FileId → Option ProcId
  ends : PageId → Bool → End
  owner : PageId → Option ProcId
  ops : List ProcId
  kallocs : PageId → Nat
  kfrees : PageId → Nat

/-- Atomic steps: a critical section under `ftable.lock`, `pi->lock` or the lock of the allocator, a
call into the log or the inode layer, or an access to what belongs to one process. `copy` copies from,
to or of user memory. -/
inductive FtAct where
  | copy
  | beginOp
  | endOp
  | namei
  | create
  | ilock (ip : Nat)
  | attr (ip : Nat)
  | itrunc (ip : Nat)
  | iunlock (ip : Nat)
  | iunlockput (ip : Nat)
  | iput (ip : Nat)
  | idupCwd
  | iputCwd
  | filealloc
  | filedup (f : FileId)
  | unref (f : FileId)
  | setPipe (f : FileId) (writable : Bool) (pi : PageId)
  | setInode (f : FileId) (type : FileKind) (major : Int) (ip : Nat) (readable writable : Bool)
  | kalloc
  | initPipe (pi : PageId)
  | closeEnd (pi : PageId) (writable : Bool)
  | kfree (pi : PageId)
  | ofile (fd : Fd)
  | clear (fd : Fd)
  | fdalloc (f : FileId)
  | allocproc
  | freeproc (np : ProcId)
  | setOfile (np : ProcId) (fd : Fd) (f : FileId)
  | setRunnable (np : ProcId)
  | forkret
  | setZombie
  | reap
  | panic (message : String)

abbrev FtAct.Resp : FtAct → Type
  | .copy => Bool
  | .namei => Option Nat
  | .create => Option Nat
  | .attr _ => FileType × Int
  | .filealloc => Option FileId
  | .unref _ => Option File
  | .kalloc => Option PageId
  | .closeEnd .. => Bool
  | .ofile _ => Option FileId
  | .fdalloc _ => Option Fd
  | .allocproc => Option ProcId
  | _ => Unit

abbrev FtProg := Prog FtAct FtAct.Resp

abbrev FtAct.run (a : FtAct) : FtProg a.Resp := .step a

/-- What a step leaves to its environment: whether it succeeds, the page `kalloc` returns, the process
`allocproc` or `wait` finds, and the inode that a path leads to. -/
structure FtChoice where
  ok : Bool
  page : PageId
  proc : ProcId
  inode : Nat
  type : FileType
  major : Int

namespace FtState

def setFile (s : FtState) (f : FileId) (new : File) (users : List ProcId) (maker : Option ProcId) : FtState :=
  { s with
    file := update s.file f new
    users := update s.users f users
    maker := update s.maker f maker }

def setEnd (s : FtState) (pi : PageId) (writable : Bool) (new : End) : FtState :=
  { s with ends := update s.ends pi (update (s.ends pi) writable new) }

def setFd (s : FtState) (p : ProcId) (fd : Fd) (new : Option FileId) : FtState :=
  { s with ofile := update s.ofile p (update (s.ofile p) fd new) }

def setStatus (s : FtState) (p : ProcId) (new : Status) : FtState :=
  { s with status := update s.status p new }

/-- The loop of `filealloc`. -/
def freeFile (s : FtState) : Option FileId := (List.finRange NFILE).find? fun f => (s.file f).ref = 0

/-- The loop of `fdalloc`. -/
def freeFd (s : FtState) (p : ProcId) : Option Fd :=
  (List.finRange NOFILE).find? fun fd => (s.ofile p fd).isNone

/-- The last reference to a file goes, and with it the end of a pipe to whoever dropped it. -/
def lastUnref (s : FtState) (t : ProcId) (f : FileId) : FtState :=
  let s' := s.setFile f { s.file f with ref := 0, type := .none } ((s.users f).erase t) none
  if (s.file f).type = .pipe then s'.setEnd (s.file f).pipe (s.file f).writable (.hand t) else s'

/-- The critical section of `fileclose`, returning the file if it has to be closed. -/
def unref (s : FtState) (t : ProcId) (f : FileId) : Outcome (Option File) FtState :=
  if (s.file f).ref < 1 then .panic "fileclose"
  else if (s.file f).ref - 1 > 0 then
    .ok none (s.setFile f { s.file f with ref := (s.file f).ref - 1 } ((s.users f).erase t) (s.maker f))
  else .ok (some { s.file f with ref := (s.file f).ref - 1 }) (s.lastUnref t f)

/-- The critical section of `pipeclose`, returning whether the page is to be freed. -/
def closeEnd (s : FtState) (t : ProcId) (pi : PageId) (writable : Bool) : Outcome Bool FtState :=
  let new := (s.page pi).close writable
  let last := !new.readopen && !new.writeopen
  .ok last { s.setEnd pi writable .shut with
    page := update s.page pi new
    owner := if last then update s.owner pi (some t) else s.owner }

end FtState

def ftMachine : Machine ProcId FtState FtChoice FtAct FtAct.Resp
  | _, c, .copy, s => .ok c.ok s
  | t, _, .beginOp, s => .ok () { s with ops := t :: s.ops }
  | t, _, .endOp, s => .ok () { s with ops := s.ops.erase t }
  | _, c, .namei, s => .ok (if c.ok then some c.inode else none) s
  | _, c, .create, s => .ok (if c.ok then some c.inode else none) s
  | _, c, .attr _, s => .ok (c.type, c.major) s
  | _, _, .ilock _, s => .ok () s
  | _, _, .itrunc _, s => .ok () s
  | _, _, .iunlock _, s => .ok () s
  | _, _, .iunlockput _, s => .ok () s
  | _, _, .iput _, s => .ok () s
  | _, _, .idupCwd, s => .ok () s
  | _, _, .iputCwd, s => .ok () s
  | t, _, .filealloc, s => match s.freeFile with
    | some f => .ok (some f) (s.setFile f { s.file f with ref := 1 } (t :: s.users f) (some t))
    | none => .ok none s
  | t, _, .filedup f, s =>
    if (s.file f).ref < 1 then .panic "filedup"
    else .ok () (s.setFile f { s.file f with ref := (s.file f).ref + 1 } (t :: s.users f) (s.maker f))
  | t, _, .unref f, s => s.unref t f
  | _, _, .setPipe f writable pi, s =>
    .ok () ((s.setFile f { s.file f with type := .pipe, readable := !writable, writable, pipe := pi }
      (s.users f) none).setEnd pi writable (.file f))
  | _, _, .setInode f type major ip readable writable, s =>
    .ok () (s.setFile f { s.file f with
      type, ip, readable, writable
      major := if type = .device then major else (s.file f).major
      off := if type = .device then (s.file f).off else 0 } (s.users f) none)
  | t, c, .kalloc, s =>
    if c.ok && !s.allocated c.page then
      .ok (some c.page) { s with
        allocated := update s.allocated c.page true
        owner := update s.owner c.page (some t)
        kallocs := update s.kallocs c.page (s.kallocs c.page + 1) }
    else .ok none s
  | t, _, .initPipe pi, s =>
    .ok () { s with
      page := update s.page pi ⟨true, true⟩
      owner := update s.owner pi none
      ends := update s.ends pi fun _ => .hand t }
  | t, _, .closeEnd pi writable, s => s.closeEnd t pi writable
  | _, _, .kfree pi, s =>
    .ok () { s with
      allocated := update s.allocated pi false
      owner := update s.owner pi none
      kfrees := update s.kfrees pi (s.kfrees pi + 1) }
  | t, _, .ofile fd, s => .ok (s.ofile t fd) s
  | t, _, .clear fd, s => .ok () (s.setFd t fd none)
  | t, _, .fdalloc f, s => match s.freeFd t with
    | some fd => .ok (some fd) (s.setFd t fd (some f))
    | none => .ok none s
  | t, c, .allocproc, s =>
    if c.ok && s.status c.proc = .unused then .ok (some c.proc) (s.setStatus c.proc (.used t)) else .ok none s
  | _, _, .freeproc np, s => .ok () (s.setStatus np .unused)
  | t, _, .setOfile np fd f, s =>
    .ok () { s.setFd np fd (some f) with users := update s.users f (np :: (s.users f).erase t) }
  | _, _, .setRunnable np, s => .ok () (s.setStatus np .runnable)
  | t, _, .forkret, s => if s.status t = .runnable then .ok () (s.setStatus t .running) else .blocked
  | t, _, .setZombie, s => .ok () (s.setStatus t .zombie)
  | _, c, .reap, s => if s.status c.proc = .zombie then .ok () (s.setStatus c.proc .unused) else .blocked
  | _, _, .panic message, _ => .panic message

/-! ## kernel/pipe.c and kernel/file.c -/

/-- `if(x) body(x)` -/
def whenSome {α : Type} (x : Option α) (body : α → FtProg Unit) : FtProg Unit :=
  match x with
  | some x => body x
  | none => pure ()

def pipeclose (pi : PageId) (writable : Bool) : FtProg Unit := do
  if ← (FtAct.closeEnd pi writable).run then
    (FtAct.kfree pi).run

def fileclose (f : FileId) : FtProg Unit := do
  match ← (FtAct.unref f).run with
  | none => pure ()
  | some ff => match ff.type with
    | .pipe => pipeclose ff.pipe ff.writable
    | .none => pure ()
    | _ => do
      FtAct.beginOp.run
      (FtAct.iput ff.ip).run
      FtAct.endOp.run

/-- The label `bad` of `pipealloc`. -/
def pipeallocBad (pi : Option PageId) (f0 f1 : Option FileId) : FtProg (Option (FileId × FileId)) := do
  whenSome pi fun pi => (FtAct.kfree pi).run
  whenSome f0 fileclose
  whenSome f1 fileclose
  return none

def pipealloc : FtProg (Option (FileId × FileId)) := do
  match ← FtAct.filealloc.run with
  | none => pipeallocBad none none none
  | some f0 => match ← FtAct.filealloc.run with
    | none => pipeallocBad none (some f0) none
    | some f1 => match ← FtAct.kalloc.run with
      | none => pipeallocBad none (some f0) (some f1)
      | some pi => do
        (FtAct.initPipe pi).run
        (FtAct.setPipe f0 false pi).run
        (FtAct.setPipe f1 true pi).run
        return some (f0, f1)

/-! ## kernel/sysfile.c -/

/-- `argfd`, returning the descriptor and the file. -/
def argfd (n : Int) : FtProg (Option (Fd × FileId)) :=
  if inside : 0 ≤ n ∧ n < NOFILE then do
    let fd : Fd := ⟨n.toNat, by omega⟩
    match ← (FtAct.ofile fd).run with
    | some f => return some (fd, f)
    | none => return none
  else pure none

def sysDup (n : Int) : FtProg Int := do
  match ← argfd n with
  | none => return -1
  | some (_, f) => match ← (FtAct.fdalloc f).run with
    | none => return -1
    | some fd => do
      (FtAct.filedup f).run
      return fd

def sysClose (n : Int) : FtProg Int := do
  match ← argfd n with
  | none => return -1
  | some (fd, f) => do
    (FtAct.clear fd).run
    fileclose f
    return 0

def O_RDONLY : UInt32 := 0x000
def O_WRONLY : UInt32 := 0x001
def O_RDWR : UInt32 := 0x002
def O_CREATE : UInt32 := 0x200
def O_TRUNC : UInt32 := 0x400

/-- `sys_open` giving up an inode it has locked. -/
def openFails (ip : Nat) : FtProg Int := do
  (FtAct.iunlockput ip).run
  FtAct.endOp.run
  return -1

/-- `sys_open` from the check of the major number on. -/
def openInode (omode : UInt32) (ip : Nat) (type : FileType) (major : Int) : FtProg Int :=
  if type = .device ∧ (major < 0 ∨ NDEV ≤ major) then openFails ip
  else do
    match ← FtAct.filealloc.run with
    | none => openFails ip
    | some f => match ← (FtAct.fdalloc f).run with
      | none => do
        fileclose f
        openFails ip
      | some fd => do
        (FtAct.setInode f (if type = .device then .device else .inode) major ip (omode &&& O_WRONLY = 0)
          (omode &&& O_WRONLY ≠ 0 || omode &&& O_RDWR ≠ 0)).run
        if omode &&& O_TRUNC ≠ 0 ∧ type = .file then (FtAct.itrunc ip).run
        (FtAct.iunlock ip).run
        FtAct.endOp.run
        return fd

def sysOpen (omode : UInt32) : FtProg Int := do
  if ← FtAct.copy.run then
    FtAct.beginOp.run
    if omode &&& O_CREATE ≠ 0 then
      match ← FtAct.create.run with
      | none => do
        FtAct.endOp.run
        return -1
      | some ip => do
        let (type, major) ← (FtAct.attr ip).run
        openInode omode ip type major
    else
      match ← FtAct.namei.run with
      | none => do
        FtAct.endOp.run
        return -1
      | some ip => do
        (FtAct.ilock ip).run
        let (type, major) ← (FtAct.attr ip).run
        if type = .dir ∧ omode ≠ O_RDONLY then openFails ip
        else openInode omode ip type major
  else return -1

/-- The end of a failing `sys_pipe`. -/
def pipeFails (rf wf : FileId) : FtProg Int := do
  fileclose rf
  fileclose wf
  return -1

def sysPipe : FtProg Int := do
  match ← pipealloc with
  | none => return -1
  | some (rf, wf) => match ← (FtAct.fdalloc rf).run with
    | none => pipeFails rf wf
    | some fd0 => match ← (FtAct.fdalloc wf).run with
      | none => do
        (FtAct.clear fd0).run
        pipeFails rf wf
      | some fd1 => do
        if ← FtAct.copy.run then
          if ← FtAct.copy.run then return 0
        (FtAct.clear fd0).run
        (FtAct.clear fd1).run
        pipeFails rf wf

/-! ## kernel/proc.c -/

/-- `fork`, returning the child. -/
def fork : FtProg (Option ProcId) := do
  match ← FtAct.allocproc.run with
  | none => return none
  | some np => do
    if ← FtAct.copy.run then
      .forEach (fun fd => do
        whenSome (← (FtAct.ofile fd).run) fun f => do
          (FtAct.filedup f).run
          (FtAct.setOfile np fd f).run) (List.finRange NOFILE)
      FtAct.idupCwd.run
      (FtAct.setRunnable np).run
      return some np
    else
      (FtAct.freeproc np).run
      return none

def exit (p : ProcId) : FtProg Unit := do
  if p = initproc then (FtAct.panic "init exiting").run
  .forEach (fun fd => do
    whenSome (← (FtAct.ofile fd).run) fun f => do
      fileclose f
      (FtAct.clear fd).run) (List.finRange NOFILE)
  FtAct.beginOp.run
  FtAct.iputCwd.run
  FtAct.endOp.run
  FtAct.setZombie.run

inductive Syscall where
  | sysOpen (omode : UInt32)
  | sysDup (n : Int)
  | sysPipe
  | sysClose (n : Int)
  | fork
  | exit
  | wait
  | forkret

def Syscall.code (p : ProcId) : Syscall → FtProg Unit
  | .sysOpen omode => do discard (Ftable.sysOpen omode)
  | .sysDup n => do discard (Ftable.sysDup n)
  | .sysPipe => do discard Ftable.sysPipe
  | .sysClose n => do discard (Ftable.sysClose n)
  | .fork => do discard Ftable.fork
  | .exit => Ftable.exit p
  | .wait => FtAct.reap.run
  | .forkret => FtAct.forkret.run

/-- Processes that run make system calls; a new one begins in `forkret`. -/
def Syscall.legal (t : ProcId) (s : FtState) : Syscall → Prop
  | .forkret => s.status t ≠ .running
  | _ => s.status t = .running

instance Syscall.decidableLegal (t : ProcId) (s : FtState) (call : Syscall) : Decidable (call.legal t s) := by
  unfold Syscall.legal
  split <;> infer_instance

/-- One call of one process; its code depends on the process only in the test of `exit`. -/
def ftCalls : Calls ProcId FtState (ProcId × Syscall) FtAct FtAct.Resp where
  code call := call.2.code call.1
  legal t s call := call.1 = t ∧ call.2.legal t s

instance ftCalls.decidableLegal (t : ProcId) (s : FtState) (call : ProcId × Syscall) :
    Decidable (ftCalls.legal t s call) := inferInstanceAs (Decidable (_ ∧ _))

/-- The first process runs, with no file open. -/
def boot : FtState where
  file _ := ⟨.none, 0, false, false, 0, 0, 0, 0⟩
  ofile _ _ := none
  status p := if p = initproc then .running else .unused
  page _ := ⟨false, false⟩
  allocated _ := false
  users _ := []
  maker _ := none
  ends _ _ := .shut
  owner _ := none
  ops := []
  kallocs _ := 0
  kfrees _ := 0

abbrev FtConfig := Config ProcId FtState FtAct FtAct.Resp

def ftStart : FtConfig := ⟨boot, fun _ => pure ()⟩

end Xv6.Ftable
