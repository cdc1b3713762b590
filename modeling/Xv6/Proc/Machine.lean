import Mathlib.Algebra.Group.Nat.Defs
import Xv6.Params
import Xv6.Lib.Threads

namespace Xv6
open Threads

/-- Processors, as many as there are. -/
abbrev Cpu := Nat

/-- A flow of control: the scheduler of a processor, or what runs on a process's kernel stack. -/
inductive Tid where
  | cpu (c : Cpu)
  | proc (p : ProcId)
deriving DecidableEq

/-- `enum procstate` -/
inductive ProcState where
  | unused
  | used
  | sleeping
  | runnable
  | running
  | zombie
deriving DecidableEq

/-- Spin locks outside the process table, the data each protects, and the channels on which
processes sleep under it. -/
structure Monitors where
  Lock : Type
  Data : Lock → Type
  Chan : Lock → Type
  decLock : DecidableEq Lock
  decChan : ∀ m, DecidableEq (Chan m)

attribute [instance] Monitors.decLock Monitors.decChan

/-- A sleep channel: the address of a process, used by `wait`, or one of a monitor. -/
inductive Chan (M : Monitors) where
  | proc (p : ProcId)
  | mon (m : M.Lock) (x : M.Chan m)
deriving DecidableEq

/-- The spin locks: `p->lock`, `wait_lock` and those of the monitors. -/
inductive Lock (M : Monitors) where
  | proc (p : ProcId)
  | wait
  | mon (m : M.Lock)
deriving DecidableEq

variable {M : Monitors}

/-- The lock under which processes sleep on a channel and are woken. -/
def Chan.lock : Chan M → Lock M
  | .proc _ => .wait
  | .mon m _ => .mon m

/-- The fields of `struct proc` that `p->lock` protects. -/
structure Proc (M : Monitors) where
  state : ProcState
  chan : Option (Chan M)
  killed : Bool
  xstate : Int
  pid : Int

/-- The end of a process, or its parent's taking note of it in `wait`. -/
inductive LifeEvent where
  | exited (p : ProcId) (pid status : Int)
  | reaped (p : ProcId) (pid status : Int) (parent : ProcId)

/-- What a process asks for. -/
inductive Request where
  | kill (pid : Int)
  | setkilled
  | wait (addr : Bool)
deriving DecidableEq

def Request.waits : Request → Bool
  | .wait _ => true
  | _ => false

/-- A process comes into being, or it begins or ends a call. -/
inductive CallEvent where
  | born (p : ProcId) (pid : Int)
  | called (p : ProcId) (request : Request)
  | done (p : ProcId)

/-- What has become of a process's current call: the pid and the state of the process that `kill` has found;
the status that `wait` has stored, whether its `copyout` failed, and the pid of the child that it has reaped;
whether there were children and zombies among them when the process last gave back `wait_lock`, and whether it
found itself killed when it was to sleep in `wait`. -/
structure Notes where
  found : Option (Int × ProcState)
  stored : Option Int
  refused : Bool
  taken : Option Int
  children : Bool
  zombies : Bool
  caught : Bool

/-- The notes at the start of a call. -/
def Notes.blank : Notes := ⟨none, none, false, none, true, true, false⟩

/-- The process table, the processors and the monitors. `runs` is the processor that executes on a process's
kernel stack, `fresh` that its saved context is at the start of `forkret`. The fields after `data` are a
record that no step of the code depends on: the flows of control that have returned from `swtch`; the channel
of a process from when it gives up the lock of that channel in `sleep` to when a `wakeup` reaches it or it
takes that lock again; the lock that it is to take again; the process whose `fork` is making another one; the
process that made it, with the number of exits from its slot then; these numbers; the processes giving away
their children in `exit`; the channel on which a process sleeps next, from when it has found itself not
killed; the ends of processes; their beginnings and their calls; what has become of the current ones. -/
structure Kernel (M : Monitors) where
  proc : ProcId → Proc M
  parent : ProcId → Option ProcId
  holder : Lock M → Option Cpu
  nextpid : Int
  cpuProc : Cpu → Option ProcId
  noff : Cpu → Nat
  runs : ProcId → Option Cpu
  fresh : ProcId → Bool
  data : (m : M.Lock) → M.Data m
  inside : Tid → Bool
  dozing : ProcId → Option (Chan M)
  bed : ProcId → Option (Lock M)
  maker : ProcId → Option ProcId
  creator : ProcId → ProcId × Nat
  exits : ProcId → Nat
  leaving : ProcId → Bool
  window : ProcId → Option (Chan M)
  history : List LifeEvent
  calls : List CallEvent
  notes : ProcId → Notes

/-- Atomic steps: taking or giving back a lock, an access to fields, or a switch of stacks. The
step `stuck` is never taken. -/
inductive KAct (M : Monitors) where
  | enter (p : ProcId) (request : Request)
  | leave (p : ProcId) (request : Request) (value : Int)
  | acquire (l : Lock M)
  | release (l : Lock M)
  | sleepRelease (p : ProcId) (l : Lock M) (chan : Chan M)
  | swtch (p : ProcId)
  | resume
  | pick (p : ProcId)
  | clearProc
  | isUnused (p : ProcId)
  | initProc (p maker : ProcId)
  | freeProc (p : ProcId)
  | getPid (p : ProcId)
  | setParent (p parent : ProcId)
  | setRunnable (p : ProcId)
  | getParent (p : ProcId)
  | adopt (p old : ProcId)
  | setZombie (p : ProcId) (status : Int)
  | zombieChild (p : ProcId)
  | copyout (p : ProcId) (value : Int)
  | reap (p parent : ProcId) (addr : Bool)
  | setSleeping (p : ProcId) (chan : Chan M)
  | clearChan (p : ProcId)
  | setYield (p : ProcId)
  | wakeProc (p : ProcId) (chan : Chan M)
  | killProc (p : ProcId) (pid : Int)
  | setKilled (p : ProcId)
  | getKilled (p : ProcId) (next : Option (Chan M)) (unannounced : Bool)
  | read (m : M.Lock)
  | write (m : M.Lock) (x : M.Data m)
  | choose
  | stuck

abbrev KAct.Resp : KAct M → Type
  | .pick _ => Bool
  | .isUnused _ => Bool
  | .getPid _ => Int
  | .getParent _ => Option ProcId
  | .zombieChild _ => Option (Int × Int)
  | .copyout .. => Bool
  | .killProc .. => Bool
  | .getKilled .. => Bool
  | .read m => M.Data m
  | .choose => Nat
  | .stuck => Empty
  | _ => Unit

abbrev KProg (M : Monitors) := Prog (KAct M) KAct.Resp

abbrev KAct.run (a : KAct M) : KProg M a.Resp := .step a

open Function (update)

namespace Kernel

variable (s : Kernel M)

/-- The processor a flow of control executes on. -/
def cpu : Tid → Option Cpu
  | .cpu c => if ∀ p, s.runs p ≠ some c then some c else none
  | .proc p => s.runs p

def setProc (p : ProcId) (new : Proc M) : Kernel M := { s with proc := update s.proc p new }

/-- `acquire` once the lock is free. -/
def lock (t : Tid) (c : Cpu) (l : Lock M) : Kernel M :=
  { s with
    holder := update s.holder l (some c)
    noff := update s.noff c (s.noff c + 1)
    window := fun p => if t = .proc p ∧ l = .proc p then none else s.window p
    dozing := fun p => if t = .proc p ∧ (s.dozing p).map Chan.lock = some l then none else s.dozing p
    bed := fun p => if t = .proc p ∧ s.bed p = some l then none else s.bed p }

def unlock (c : Cpu) (l : Lock M) : Kernel M :=
  { s with holder := update s.holder l none, noff := update s.noff c (s.noff c - 1) }

/-- `allocpid` and the rest of `allocproc` for a slot it has found; `nextpid` is an `int`. -/
def initProc (p maker : ProcId) : Kernel M :=
  { s with
    proc := update s.proc p { s.proc p with pid := s.nextpid, state := .used }
    nextpid := (s.nextpid + 1).bmod (2 ^ 32)
    fresh := update s.fresh p true
    maker := update s.maker p (some maker)
    calls := .born p s.nextpid :: s.calls }

def freeProc (p : ProcId) : Kernel M :=
  { s with
    proc := update s.proc p ⟨.unused, none, false, 0, 0⟩
    parent := update s.parent p none
    maker := update s.maker p none }

def wakeProc (p : ProcId) (chan : Chan M) : Kernel M :=
  { s with
    proc := if (s.proc p).state = .sleeping ∧ (s.proc p).chan = some chan then
      update s.proc p { s.proc p with state := .runnable } else s.proc
    dozing := if s.dozing p = some chan then update s.dozing p none else s.dozing }

def killProc (t : Tid) (p : ProcId) : Kernel M :=
  { s with
    notes := match t with
      | .proc q => update s.notes q { s.notes q with found := some ((s.proc p).pid, (s.proc p).state) }
      | .cpu _ => s.notes
    proc := update s.proc p { s.proc p with
      killed := true, state := if (s.proc p).state = .sleeping then .runnable else (s.proc p).state } }

/-- What a process that gives back `wait_lock` leaves behind. -/
def look : Tid → Lock M → Kernel M
  | .proc p, .wait => { s with notes := update s.notes p { s.notes p with
      children := decide (∃ q, s.parent q = some p)
      zombies := decide (∃ q, s.parent q = some p ∧ (s.proc q).state = .zombie) } }
  | _, _ => s

/-- What an atomic step does on a processor. -/
def act (t : Tid) (c : Cpu) (choice : Nat) : (a : KAct M) → Outcome a.Resp (Kernel M)
  | .enter p request => .ok () { s with
      calls := .called p request :: s.calls, notes := update s.notes p .blank }
  | .leave p _ _ => .ok () { s with calls := .done p :: s.calls }
  | .acquire l =>
    if s.holder l = some c then .panic "acquire"
    else if s.holder l ≠ none then .blocked
    else .ok () (s.lock t c l)
  | .release l => if s.holder l ≠ some c then .panic "release" else .ok () ((s.unlock c l).look t l)
  | .sleepRelease p l chan =>
    if s.holder l ≠ some c then .panic "release"
    else .ok () { s.unlock c l with
      dozing := update s.dozing p (some chan), bed := update s.bed p (some l) }
  | .swtch p =>
    if s.holder (.proc p) ≠ some c then .panic "sched p->lock"
    else if s.noff c ≠ 1 then .panic "sched locks"
    else if (s.proc p).state = .running then .panic "sched running"
    else .ok () { s with runs := update s.runs p none, inside := update s.inside t false }
  | .resume => .ok () { s with
      inside := update s.inside t true
      fresh := match t with
        | .proc p => update s.fresh p false
        | .cpu _ => s.fresh }
  | .pick p =>
    if (s.proc p).state = .runnable then .ok true { s with
      proc := update s.proc p { s.proc p with state := .running }
      cpuProc := update s.cpuProc c (some p)
      runs := update s.runs p (some c)
      inside := update s.inside t false }
    else .ok false s
  | .clearProc => .ok () { s with cpuProc := update s.cpuProc c none }
  | .isUnused p => .ok (decide ((s.proc p).state = .unused)) s
  | .initProc p maker => .ok () (s.initProc p maker)
  | .freeProc p => .ok () (s.freeProc p)
  | .getPid p => .ok (s.proc p).pid s
  | .setParent p parent => .ok () { s with
      parent := update s.parent p (some parent), creator := update s.creator p (parent, s.exits parent) }
  | .setRunnable p => .ok () { s.setProc p { s.proc p with state := .runnable } with
      maker := update s.maker p none }
  | .getParent p => .ok (s.parent p) s
  | .adopt p old => .ok () { s with
      parent := update s.parent p (some initproc), leaving := update s.leaving old true }
  | .setZombie p status => .ok () { s.setProc p { s.proc p with xstate := status, state := .zombie } with
      exits := update s.exits p (s.exits p + 1)
      leaving := update s.leaving p false
      history := .exited p (s.proc p).pid status :: s.history }
  | .zombieChild p =>
    .ok (if (s.proc p).state = .zombie then some ((s.proc p).pid, (s.proc p).xstate) else none) s
  | .copyout p value =>
    if choice = 0 then .ok false { s with notes := update s.notes p { s.notes p with refused := true } }
    else .ok true { s with notes := update s.notes p { s.notes p with stored := some value } }
  | .reap p parent _ => .ok () { s.freeProc p with
      history := .reaped p (s.proc p).pid (s.proc p).xstate parent :: s.history
      notes := update s.notes parent { s.notes parent with taken := some (s.proc p).pid } }
  | .setSleeping p chan => .ok () (s.setProc p { s.proc p with chan := some chan, state := .sleeping })
  | .clearChan p => .ok () (s.setProc p { s.proc p with chan := none })
  | .setYield p => .ok () (s.setProc p { s.proc p with state := .runnable })
  | .wakeProc p chan => .ok () (s.wakeProc p chan)
  | .killProc p pid => if (s.proc p).pid = pid then .ok true (s.killProc t p) else .ok false s
  | .setKilled p => .ok () (s.setProc p { s.proc p with killed := true })
  | .getKilled p next _ =>
    if (s.proc p).killed then .ok true { s with
      notes := if next = some (.proc p) then update s.notes p { s.notes p with caught := true } else s.notes }
    else .ok false { s with window := update s.window p next }
  | .read m => .ok (s.data m) s
  | .write m x => .ok () { s with data := update s.data m x }
  | .choose => .ok choice s
  | .stuck => .blocked

end Kernel

/-- A flow of control takes a step only while a processor executes it. -/
def kernelMachine (M : Monitors) : Machine Tid (Kernel M) Nat (KAct M) KAct.Resp
  | t, choice, a, s => match s.cpu t with
    | some c => s.act t c choice a
    | none => .blocked

/-! ## kernel/proc.c

`myproc()` is the process `p` whose code it is. Where a process holds no spin lock, the timer may make
it yield any number of times. A loop that may sleep runs for a number of rounds that is chosen
beforehand, and goes nowhere after these. -/

def rounds {σ α : Type} (body : σ → KProg M (α ⊕ σ)) : Nat → σ → KProg M α
  | 0, _ => do nomatch (← KAct.stuck.run)
  | n + 1, x => do
    match ← body x with
    | .inl value => return value
    | .inr next => rounds body n next

def forever {σ α : Type} (body : σ → KProg M (α ⊕ σ)) (x : σ) : KProg M α := do
  rounds body (← KAct.choose.run) x

def sched (p : ProcId) : KProg M Unit := do
  (KAct.swtch p).run
  KAct.resume.run

def yield (p : ProcId) : KProg M Unit := do
  (KAct.acquire (.proc p)).run
  (KAct.setYield p).run
  sched p
  (KAct.release (.proc p)).run

def preempt (p : ProcId) : KProg M Unit := do
  Prog.forEach (fun _ => yield p) (List.range (← KAct.choose.run))

/-- `forkret` up to where it holds no lock any more. -/
def forkret (p : ProcId) : KProg M Unit := do
  KAct.resume.run
  (KAct.release (.proc p)).run

def sleep (p : ProcId) (chan : Chan M) (lk : Lock M) : KProg M Unit := do
  (KAct.acquire (.proc p)).run
  (KAct.sleepRelease p lk chan).run
  -- Go to sleep.
  (KAct.setSleeping p chan).run
  sched p
  -- Tidy up.
  (KAct.clearChan p).run
  (KAct.release (.proc p)).run
  preempt p
  (KAct.acquire lk).run

/-- `wakeup`, by a process or by an interrupt handler on a processor without one. -/
def wakeup (t : Tid) (chan : Chan M) : KProg M Unit :=
  Prog.forEach (fun q => do
    if t ≠ .proc q then
      (KAct.acquire (.proc q)).run
      (KAct.wakeProc q chan).run
      (KAct.release (.proc q)).run) (List.finRange NPROC)

/-- `killed(p)` by the process itself, which sleeps next on the channel if it is not. -/
def killed (p : ProcId) (next : Option (Chan M)) (unannounced : Bool) : KProg M Bool := do
  (KAct.acquire (.proc p)).run
  let k ← (KAct.getKilled p next unannounced).run
  (KAct.release (.proc p)).run
  return k

def setkilled (p : ProcId) : KProg M Unit := do
  (KAct.enter p .setkilled).run
  (KAct.acquire (.proc p)).run
  (KAct.setKilled p).run
  (KAct.release (.proc p)).run
  (KAct.leave p .setkilled 0).run

/-- The loop of `kill`, for the slots still to come. -/
def killFrom (p : ProcId) (pid : Int) : List ProcId → KProg M Int
  | [] => return -1
  | q :: rest => do
    preempt p
    (KAct.acquire (.proc q)).run
    if ← (KAct.killProc q pid).run then
      (KAct.release (.proc q)).run
      return 0
    else
      (KAct.release (.proc q)).run
      killFrom p pid rest

def kill (p : ProcId) (pid : Int) : KProg M Int := do
  (KAct.enter p (.kill pid)).run
  let value ← killFrom p pid (List.finRange NPROC)
  (KAct.leave p (.kill pid) value).run
  return value

/-- The loop of `allocproc`; memory may run out. -/
def allocprocFrom (p : ProcId) : List ProcId → KProg M (Option ProcId)
  | [] => return none
  | q :: rest => do
    preempt p
    (KAct.acquire (.proc q)).run
    if ← (KAct.isUnused q).run then
      (KAct.initProc q p).run
      if (← KAct.choose.run) = 0 then
        (KAct.freeProc q).run
        (KAct.release (.proc q)).run
        return none
      else return some q
    else
      (KAct.release (.proc q)).run
      allocprocFrom p rest

def allocproc (p : ProcId) : KProg M (Option ProcId) := allocprocFrom p (List.finRange NPROC)

/-- `fork` without the copying; `uvmcopy` may fail. -/
def fork (p : ProcId) : KProg M Int := do
  match ← allocproc p with
  | none => return -1
  | some np => do
    if (← KAct.choose.run) = 0 then
      (KAct.freeProc np).run
      (KAct.release (.proc np)).run
      return -1
    else
      let pid ← (KAct.getPid np).run
      (KAct.release (.proc np)).run
      preempt p
      (KAct.acquire .wait).run
      (KAct.setParent np p).run
      (KAct.release .wait).run
      preempt p
      (KAct.acquire (.proc np)).run
      (KAct.setRunnable np).run
      (KAct.release (.proc np)).run
      return pid

def reparent (p : ProcId) : KProg M Unit :=
  Prog.forEach (fun pp => do
    if (← (KAct.getParent pp).run) = some p then
      (KAct.adopt pp p).run
      wakeup (.proc p) (.proc initproc)) (List.finRange NPROC)

/-- `exit` after the files are closed. -/
def exitProc (p : ProcId) (status : Int) : KProg M Unit := do
  (KAct.acquire .wait).run
  -- Give any children to init.
  reparent p
  -- Parent might be sleeping in wait().
  match ← (KAct.getParent p).run with
  | some parent => wakeup (.proc p) (.proc parent)
  | none => pure ()
  (KAct.acquire (.proc p)).run
  (KAct.setZombie p status).run
  (KAct.release .wait).run
  (KAct.swtch p).run

/-- Scan through the table in `wait` looking for exited children, from `havekids`: the answer if
`wait` returns, or else whether there are children. -/
def waitScan (p : ProcId) (addr : Bool) : Bool → List ProcId → KProg M (Int ⊕ Bool)
  | havekids, [] => return .inr havekids
  | havekids, pp :: rest => do
    if (← (KAct.getParent pp).run) = some p then
      -- make sure the child isn't still in exit() or swtch().
      (KAct.acquire (.proc pp)).run
      match ← (KAct.zombieChild pp).run with
      | some (pid, xstate) => do
        -- Found one.
        let copied ← if addr then (KAct.copyout p xstate).run else pure true
        if copied then
          (KAct.reap pp p addr).run
          (KAct.release (.proc pp)).run
          (KAct.release .wait).run
          return .inl pid
        else
          (KAct.release (.proc pp)).run
          (KAct.release .wait).run
          return .inl (-1)
      | none => do
        (KAct.release (.proc pp)).run
        waitScan p addr true rest
    else waitScan p addr havekids rest

/-- One round of the loop of `wait`. -/
def waitRound (p : ProcId) (addr : Bool) : KProg M (Int ⊕ Unit) := do
  match ← waitScan p addr false (List.finRange NPROC) with
  | .inl answer => return .inl answer
  | .inr havekids => do
    -- No point waiting if we don't have any children.
    let stop ← if havekids then killed p (some (.proc p)) false else pure true
    if stop then
      (KAct.release .wait).run
      return .inl (-1)
    else
      -- Wait for a child to exit.
      sleep p (.proc p) .wait
      return .inr ()

def wait (p : ProcId) (addr : Bool) : KProg M Int := do
  (KAct.enter p (.wait addr)).run
  (KAct.acquire .wait).run
  let value ← forever (fun _ => waitRound p addr) ()
  (KAct.leave p (.wait addr) value).run
  return value

/-- One slot in a pass of `scheduler` over the table. -/
def schedulerSlot (p : ProcId) : KProg M Unit := do
  (KAct.acquire (.proc p)).run
  if ← (KAct.pick p).run then
    KAct.resume.run
    KAct.clearProc.run
  (KAct.release (.proc p)).run

end Xv6
