import Xv6.Ftable.Machine

namespace Xv6.Trace
open Threads Function
open Ftable (Status)

/-- `SYS_fork`, `SYS_exit`, `SYS_wait`, `SYS_exec` and `SYS_trace`. -/
def SYS_fork : Nat := 1
def SYS_exit : Nat := 2
def SYS_wait : Nat := 3
def SYS_exec : Nat := 7
def SYS_trace : Nat := 22

def syscallnames : List String := ["",
  "fork", "exit", "wait", "pipe", "read",
  "kill", "exec", "fstat", "chdir", "dup",
  "getpid", "sbrk", "sleep", "uptime", "open",
  "write", "mknod", "unlink", "link", "mkdir",
  "close", "trace", "sysinfo"]

/-- The number of entries of the table `syscalls`. -/
def NSYSCALLS : Nat := 24

/-- What is printed at the return from a traced system call. -/
structure Line where
  pid : Int
  name : String
  value : Int
deriving DecidableEq

/-- What processes ask for and what is printed: a system call when it begins, with its number and first
argument, a process made by another one's `fork`, and a return. Processes go by their number in the order of
creation, since slots and even pids may come again. -/
inductive Event where
  | called (p : Nat) (num : Int) (arg : UInt32)
  | made (parent child : Nat)
  | returned (p num : Nat) (line : Option Line)
  | unknown (p : Nat) (num : Int)
deriving DecidableEq

/-- The mask that a process has to have: the argument of its last call of `trace`, or else what its parent had
to have when it was made, and 0 for the first process. The history has its latest event first. -/
def maskOf : List Event → Nat → UInt32
  | [], _ => 0
  | .called q num arg :: earlier, p => if q = p ∧ num = SYS_trace then arg else maskOf earlier p
  | .made parent child :: earlier, p => if child = p then maskOf earlier parent else maskOf earlier p
  | .returned .. :: earlier, p => maskOf earlier p
  | .unknown .. :: earlier, p => maskOf earlier p

/-- The process table. `birth` numbers the processes in the slots in the order of creation, `births` counts
them, and the log is the history, latest event first; no step reads these three. -/
structure TrState where
  status : ProcId → Status
  pid : ProcId → Int
  parent : ProcId → Option ProcId
  traceMask : ProcId → UInt32
  nextpid : Int
  birth : ProcId → Nat
  births : Nat
  log : List Event

/-- Atomic steps: a critical section under the lock of a process, or an access to what belongs to the process
itself or to a child that it is making. `alloc` is an allocation or a copy of memory that may fail, and
`elsewhere` a system call that leaves the process table alone. `enter` changes nothing but the history. -/
inductive TrAct where
  | enter (num : Int) (arg : UInt32)
  | elsewhere
  | self
  | setMask (mask : UInt32)
  | findUnused
  | alloc
  | clearMask (np : ProcId)
  | freeproc (np : ProcId)
  | copyMask (np : ProcId)
  | getPid (np : ProcId)
  | setParent (np : ProcId)
  | setRunnable (np : ProcId)
  | forkret
  | reparent
  | setZombie
  | reap
  | returned (num : Nat) (line : Option Line)
  | unknown (num : Int)
  | panic (message : String)

abbrev TrAct.Resp : TrAct → Type
  | .elsewhere => Int
  | .self => Int × UInt32
  | .findUnused => Option ProcId
  | .alloc => Bool
  | .getPid _ => Int
  | .reap => Option Int
  | _ => Unit

abbrev TrProg := Prog TrAct TrAct.Resp

abbrev TrAct.run (a : TrAct) : TrProg a.Resp := .step a

/-- What a step leaves to its environment: whether it succeeds, the slot that a scan of the process table
stops at, and the value of a system call. -/
structure TrChoice where
  ok : Bool
  proc : ProcId
  value : Int

namespace TrState

def setStatus (s : TrState) (p : ProcId) (new : Status) : TrState :=
  { s with status := update s.status p new }

def setMask (s : TrState) (p : ProcId) (mask : UInt32) : TrState :=
  { s with traceMask := update s.traceMask p mask }

def record (s : TrState) (e : Event) : TrState := { s with log := e :: s.log }

/-- `freeproc`; the mask stays in the slot. -/
def freeproc (s : TrState) (p : ProcId) : TrState :=
  { s.setStatus p .unused with pid := update s.pid p 0, parent := update s.parent p none }

/-- A slot is taken for a new process, which the process in slot `t` makes. -/
def take (s : TrState) (t p : ProcId) : TrState :=
  { s.setStatus p (.used t) with
    pid := update s.pid p s.nextpid
    nextpid := s.nextpid + 1
    birth := update s.birth p s.births
    births := s.births + 1
    log := .made (s.birth t) s.births :: s.log }

end TrState

def trMachine : Machine ProcId TrState TrChoice TrAct TrAct.Resp
  | t, _, .enter num arg, s => .ok () (s.record (.called (s.birth t) num arg))
  | _, c, .elsewhere, s => .ok c.value s
  | t, _, .self, s => .ok (s.pid t, s.traceMask t) s
  | t, _, .setMask mask, s => .ok () (s.setMask t mask)
  | t, c, .findUnused, s =>
    if c.ok && s.status c.proc = .unused then .ok (some c.proc) (s.take t c.proc) else .ok none s
  | _, c, .alloc, s => .ok c.ok s
  | _, _, .clearMask np, s => .ok () (s.setMask np 0)
  | _, _, .freeproc np, s => .ok () (s.freeproc np)
  | t, _, .copyMask np, s => .ok () (s.setMask np (s.traceMask t))
  | _, _, .getPid np, s => .ok (s.pid np) s
  | t, _, .setParent np, s => .ok () { s with parent := update s.parent np (some t) }
  | _, _, .setRunnable np, s => .ok () (s.setStatus np .runnable)
  | t, _, .forkret, s => if s.status t = .runnable then .ok () (s.setStatus t .running) else .blocked
  | t, _, .reparent, s =>
    .ok () { s with parent := fun p => if s.parent p = some t then some initproc else s.parent p }
  | t, _, .setZombie, s => .ok () (s.setStatus t .zombie)
  | t, c, .reap, s =>
    if c.ok then
      if s.parent c.proc = some t ∧ s.status c.proc = .zombie then
        .ok (some (s.pid c.proc)) (s.freeproc c.proc)
      else .blocked
    else .ok none s
  | t, _, .returned num line, s => .ok () (s.record (.returned (s.birth t) num line))
  | t, _, .unknown num, s => .ok () (s.record (.unknown (s.birth t) num))
  | _, _, .panic message, _ => .panic message

/-! ## kernel/proc.c -/

/-- `allocproc`; it allocates a trapframe page and an empty page table. -/
def allocproc : TrProg (Option ProcId) := do
  match ← TrAct.findUnused.run with
  | none => return none
  | some p => do
    if ← TrAct.alloc.run then
      if ← TrAct.alloc.run then
        (TrAct.clearMask p).run
        return some p
      else
        (TrAct.freeproc p).run
        return none
    else
      (TrAct.freeproc p).run
      return none

def fork : TrProg Int := do
  match ← allocproc with
  | none => return -1
  | some np => do
    if ← TrAct.alloc.run then
      (TrAct.copyMask np).run
      let pid ← (TrAct.getPid np).run
      (TrAct.setParent np).run
      (TrAct.setRunnable np).run
      return pid
    else
      (TrAct.freeproc np).run
      return -1

def exit (p : ProcId) : TrProg Unit := do
  if p = initproc then (TrAct.panic "init exiting").run
  TrAct.reparent.run
  TrAct.setZombie.run

/-- `wait`; it fails when there is no child left, when the process is killed or when the status cannot be
copied out. -/
def wait : TrProg Int := do
  match ← TrAct.reap.run with
  | some pid => return pid
  | none => return -1

/-- `exec`; a new image changes the memory, the registers and the name of the process, and none of the fields
here. -/
def exec : TrProg Int := do
  if ← TrAct.alloc.run then TrAct.elsewhere.run
  else return -1

/-! ## kernel/sysproc.c and kernel/syscall.c -/

def sysTrace (mask : UInt32) : TrProg Int := do
  (TrAct.setMask mask).run
  return 0

/-- The table `syscalls`, with the first argument of the call; `exit` does not return. -/
def syscalls (p : ProcId) (num : Nat) (arg : UInt32) : TrProg (Option Int) :=
  if num = SYS_fork then do return some (← fork)
  else if num = SYS_exit then do
    exit p
    return none
  else if num = SYS_wait then do return some (← wait)
  else if num = SYS_exec then do return some (← exec)
  else if num = SYS_trace then do return some (← sysTrace arg)
  else do return some (← TrAct.elsewhere.run)

/-- `syscall`, with the number in `a7` and the first argument in `a0`. -/
def syscall (p : ProcId) (num : Int) (arg : UInt32) : TrProg Unit := do
  (TrAct.enter num arg).run
  if 0 < num ∧ num < NSYSCALLS then
    match ← syscalls p num.toNat arg with
    | none => pure ()
    | some a0 => do
      let (pid, mask) ← TrAct.self.run
      if mask &&& (1 <<< UInt32.ofNat num.toNat) ≠ 0 then
        (TrAct.returned num.toNat (some ⟨pid, syscallnames.getD num.toNat "", a0⟩)).run
      else (TrAct.returned num.toNat none).run
  else (TrAct.unknown num).run

/-- What a process does in the kernel: a system call, `exit` from a trap because it was killed or failed, and
the first return of a new process. -/
inductive Entry where
  | syscall (num : Int) (arg : UInt32)
  | killed
  | forkret

def Entry.code (p : ProcId) : Entry → TrProg Unit
  | .syscall num arg => Trace.syscall p num arg
  | .killed => Trace.exit p
  | .forkret => TrAct.forkret.run

def Entry.legal (t : ProcId) (s : TrState) : Entry → Prop
  | .forkret => s.status t ≠ .running
  | _ => s.status t = .running

instance Entry.decidableLegal (t : ProcId) (s : TrState) (entry : Entry) : Decidable (entry.legal t s) := by
  unfold Entry.legal
  split <;> infer_instance

/-- One entry of one process; its code depends on the process only in the test of `exit`. -/
def trCalls : Calls ProcId TrState (ProcId × Entry) TrAct TrAct.Resp where
  code call := call.2.code call.1
  legal t s call := call.1 = t ∧ call.2.legal t s

instance trCalls.decidableLegal (t : ProcId) (s : TrState) (call : ProcId × Entry) :
    Decidable (trCalls.legal t s call) := inferInstanceAs (Decidable (_ ∧ _))

/-- The first process runs; `allocproc` has cleared its mask. -/
def boot : TrState where
  status p := if p = initproc then .running else .unused
  pid p := if p = initproc then 1 else 0
  parent _ := none
  traceMask _ := 0
  nextpid := 2
  birth _ := 0
  births := 1
  log := []

abbrev TrConfig := Config ProcId TrState TrAct TrAct.Resp

def trStart : TrConfig := ⟨boot, fun _ => pure ()⟩

end Xv6.Trace
