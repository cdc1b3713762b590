import Xv6.Proc.Machine

/-! Spin locks and interrupts: kernel/spinlock.c, with `sched`, `forkret` and `scheduler` of kernel/proc.c. -/

namespace Xv6.Spinlock
open Threads
open Function (update)

/-- The spin locks: that of each process and any others. -/
inductive Lock (L : Type) where
  | proc (p : ProcId)
  | other (l : L)
deriving DecidableEq

/-- What a processor has for itself: whether it takes interrupts, and the fields of its `struct cpu`. -/
@[ext] structure Core where
  intr : Bool
  noff : Nat
  intena : Bool

/-- Where a flow of control is: on a processor, in the middle of a `swtch` to it on a
processor, or nowhere. -/
inductive Place where
  | on (c : Cpu)
  | entering (c : Cpu)
  | out
deriving DecidableEq

def Place.cpu : Place → Option Cpu
  | .on c => some c
  | .entering c => some c
  | .out => none

/-- What the code reads and writes: the processors, `locked` and `cpu` of each lock, and who executes
where. The fields after `place` are a record that no step of the code depends on: the processor that took
a lock last, until it gives it back; the open `push_off`s of a flow of control; whether the interrupts
were on when it last raised `noff` from 0, which a new process has not; and for each time that `noff`
returned to 0 in a process, the process, whether they were on when it had raised it, and whether they are
on now. -/
structure State (L : Type) where
  core : Cpu → Core
  locked : Lock L → Bool
  lkCpu : Lock L → Option Cpu
  cpuProc : Cpu → Option ProcId
  place : Tid → Place
  owner : Lock L → Option Cpu
  opens : Tid → Nat
  raised : Tid → Option Bool
  returns : List (ProcId × Bool × Bool)

/-- The calls a flow of control makes, in any order, and the rounds of the scheduler. -/
inductive Call (L : Type) where
  | acquire (lk : Lock L)
  | release (lk : Lock L)
  | pushOff
  | popOff
  | sched (p : ProcId)
  | intrOff
  | intrOn
  | exit (p : ProcId)
  | forkret (p : ProcId)
  | schedulerSlot (p : ProcId)

/-- The calls of an interrupt handler. -/
def Call.inHandler : Call L → Bool
  | .acquire _ | .release _ | .pushOff | .popOff | .sched _ => true
  | _ => false

/-- What a new process starts with. -/
def Call.starts (t : Tid) : Call L → Bool
  | .forkret p => t = .proc p
  | _ => false

/-- Atomic steps. -/
inductive Act (L : Type) where
  | intrGet
  | raiseOff
  | intrOff
  | intrOn
  | getNoff
  | incNoff
  | decNoff
  | getIntena
  | setIntena (old : Bool)
  | isLocked (lk : Lock L)
  | cpuIsMine (lk : Lock L)
  | testAndSet (lk : Lock L)
  | setCpu (lk : Lock L)
  | clearCpu (lk : Lock L)
  | unlock (lk : Lock L)
  | swtch (p : ProcId) (last : Bool)
  | resume
  | pick (p : ProcId)
  | clearProc
  | opened
  | closed
  | returned
  | panic (message : String)
  | choose
  | nextCall
  | begins (k : Call L)
  | settled

abbrev Act.Resp : Act L → Type
  | .intrGet => Bool
  | .getNoff => Nat
  | .getIntena => Bool
  | .isLocked _ => Bool
  | .cpuIsMine _ => Bool
  | .pick _ => Bool
  | .choose => Nat
  | .nextCall => Call L
  | .panic _ => Empty
  | _ => Unit

abbrev SProg (L : Type) := Prog (Act L) Act.Resp

abbrev Act.run (a : Act L) : SProg L a.Resp := .step a

/-- What a step leaves to its environment: a number, or a call. -/
abbrev Choice (L : Type) := Nat × Call L

variable {L : Type} [DecidableEq L]

namespace State

variable (s : State L)

/-- The processor a flow of control executes on. -/
def seat (t : Tid) : Option Cpu := match s.place t with
  | .on c => some c
  | _ => none

/-- `holding` on a processor. -/
def holding (c : Cpu) (lk : Lock L) : Bool := s.locked lk && s.lkCpu lk = some c

def setCore (c : Cpu) (new : Core) : State L := { s with core := update s.core c new }

/-- The calls a flow of control may make on a processor: none takes a lock that it holds, or gives back
one that it does not hold, and `sched` is called with the lock of the process held and no other, and no
`push_off` open. -/
def Legal (t : Tid) (c : Cpu) : Call L → Prop
  | .acquire lk => s.holding c lk = false
  | .release lk => s.holding c lk = true
  | .pushOff => True
  | .popOff => 0 < s.opens t
  | .intrOff | .intrOn => (s.core c).noff = 0
  | .sched p | .exit p => t = .proc p ∧ (∀ lk, s.holding c lk = true ↔ lk = .proc p) ∧ s.opens t = 0
  | .forkret _ => False
  | .schedulerSlot _ => t = .cpu c ∧ (s.core c).noff = 0

/-- What an atomic step does on a processor. -/
def act (t : Tid) (c : Cpu) (choice : Choice L) : (a : Act L) → Outcome a.Resp (State L)
  | .intrGet => .ok (s.core c).intr s
  | .raiseOff => .ok () { s.setCore c { s.core c with intr := false } with
      raised := if (s.core c).noff = 0 then update s.raised t (some (s.core c).intr) else s.raised }
  | .intrOff => .ok () (s.setCore c { s.core c with intr := false })
  | .intrOn => .ok () (s.setCore c { s.core c with intr := true })
  | .getNoff => .ok (s.core c).noff s
  | .incNoff => .ok () (s.setCore c { s.core c with noff := (s.core c).noff + 1 })
  | .decNoff => .ok () (s.setCore c { s.core c with noff := (s.core c).noff - 1 })
  | .getIntena => .ok (s.core c).intena s
  | .setIntena old => .ok () (s.setCore c { s.core c with intena := old })
  | .isLocked lk => .ok (s.locked lk) s
  | .cpuIsMine lk => .ok (s.lkCpu lk = some c) s
  | .testAndSet lk =>
    if s.locked lk then .blocked
    else .ok () { s with locked := update s.locked lk true, owner := update s.owner lk (some c) }
  | .setCpu lk => .ok () { s with lkCpu := update s.lkCpu lk (some c) }
  | .clearCpu lk => .ok () { s with lkCpu := update s.lkCpu lk none }
  | .unlock lk => .ok () { s with locked := update s.locked lk false, owner := update s.owner lk none }
  | .swtch p last => .ok () { s with
      place := update (update s.place (.cpu c) (.entering c)) (.proc p) .out
      raised := if last then update s.raised (.proc p) none else s.raised }
  | .resume => .blocked
  | .pick p =>
    if choice.1 = 0 then .ok false s
    else if s.place (.proc p) ≠ .out then .blocked
    else .ok true { s with
      cpuProc := update s.cpuProc c (some p)
      place := update (update s.place (.proc p) (.entering c)) t .out }
  | .clearProc => .ok () { s with cpuProc := update s.cpuProc c none }
  | .opened => .ok () { s with opens := update s.opens t (s.opens t + 1) }
  | .closed => .ok () { s with opens := update s.opens t (s.opens t - 1) }
  | .returned => .ok () { s with
      returns := match t, s.raised t with
        | .proc p, some before => if (s.core c).noff = 0 then (p, before, (s.core c).intr) :: s.returns else s.returns
        | _, _ => s.returns }
  | .panic message => .panic message
  | .choose => .ok choice.1 s
  | .nextCall => .ok choice.2 s
  | .begins _ => .ok () s
  | .settled => .ok () s

/-- What is asked of a call, where a flow of control that is nowhere may only start. -/
def LegalAt (t : Tid) (k : Call L) : Option Cpu → Prop
  | some c => s.Legal t c k
  | none => k.starts t = true

def legal (t : Tid) (s : State L) (k : Call L) : Prop := s.LegalAt t k (s.seat t)

/-- The calls of a handler are legal, and it gives back what it takes. -/
def allowed (t : Tid) : Act L → State L → Prop
  | .begins k, s => k.inHandler = true ∧ s.legal t k
  | .settled, s => ∀ c ∈ s.seat t, (s.core c).noff = 0
  | _, _ => True

end State

/-- A flow of control takes a step only while a processor executes it, apart from coming back from `swtch`. -/
def spinMachine (L : Type) [DecidableEq L] : Machine Tid (State L) (Choice L) (Act L) Act.Resp
  | t, choice, a, s => match s.place t, a with
    | .on c, a => s.act t c choice a
    | .entering c, .resume => .ok () { s with place := update s.place t (.on c) }
    | _, _ => .blocked

/-! ## kernel/spinlock.c -/

def panic (message : String) : SProg L α := do nomatch ← (Act.panic message).run

/-- `push_off`, with what runs between its first two lines if interrupts are on. -/
def pushOff (between : SProg L Unit) : SProg L Unit := do
  let old ← Act.intrGet.run
  if old then between
  Act.raiseOff.run
  if (← Act.getNoff.run) = 0 then
    (Act.setIntena old).run
  Act.incNoff.run

def popOff : SProg L Unit := do
  if ← Act.intrGet.run then
    panic "pop_off - interruptible"
  else if (← Act.getNoff.run) < 1 then
    panic "pop_off"
  else
    Act.decNoff.run
    if (← Act.getNoff.run) = 0 then
      if ← Act.getIntena.run then
        Act.intrOn.run
    Act.returned.run

def holding (lk : Lock L) : SProg L Bool := do
  if ← (Act.isLocked lk).run then
    (Act.cpuIsMine lk).run
  else return false

def acquire (between : SProg L Unit) (lk : Lock L) : SProg L Unit := do
  pushOff between
  if ← holding lk then
    panic "acquire"
  else
    (Act.testAndSet lk).run
    (Act.setCpu lk).run

def release (lk : Lock L) : SProg L Unit := do
  if ← holding lk then
    (Act.clearCpu lk).run
    (Act.unlock lk).run
    popOff
  else
    panic "release"

/-! ## kernel/proc.c

Of `sched`, the test of the state of the process is left out, as the states are: that the scheduler
picks no process that executes is proved of the process table. -/

/-- `sched` up to where the process has left its processor, for the last time or not: the
`intena` it keeps. -/
def leave (p : ProcId) (last : Bool) : SProg L Bool := do
  if ← holding (.proc p) then
    if (← Act.getNoff.run) ≠ 1 then
      panic "sched locks"
    else if ← Act.intrGet.run then
      panic "sched interruptible"
    else
      let intena ← Act.getIntena.run
      (Act.swtch p last).run
      return intena
  else
    panic "sched p->lock"

def sched (p : ProcId) : SProg L Unit := do
  let intena ← leave p false
  Act.resume.run
  (Act.setIntena intena).run

/-- The end of `exit`. -/
def exit (p : ProcId) : SProg L Unit := do
  let _ ← leave p true

/-- `forkret` up to where it holds no lock any more. -/
def forkret (p : ProcId) : SProg L Unit := do
  Act.resume.run
  release (.proc p)

/-- One slot in a pass of `scheduler` over the table. -/
def schedulerSlot (between : SProg L Unit) (p : ProcId) : SProg L Unit := do
  acquire between (.proc p)
  if ← (Act.pick p).run then
    Act.resume.run
    Act.clearProc.run
  release (.proc p)

/-! ## Calls and handlers -/

def callCode (between : SProg L Unit) : Call L → SProg L Unit
  | .acquire lk => acquire between lk
  | .release lk => release lk
  | .pushOff => do pushOff between; Act.opened.run
  | .popOff => do Act.closed.run; popOff
  | .sched p => sched p
  | .intrOff => Act.intrOff.run
  | .intrOn => Act.intrOn.run
  | .exit p => exit p
  | .forkret p => forkret p
  | .schedulerSlot p => schedulerSlot between p

/-- A handler runs with interrupts off until it returns, and makes calls that leave nothing behind. -/
def handler (code : Call L → SProg L Unit) : SProg L Unit := do
  Act.intrOff.run
  Prog.forEach (fun _ => do
    let k ← Act.nextCall.run
    (Act.begins k).run
    code k) (List.range (← Act.choose.run))
  Act.settled.run
  Act.intrOn.run

def handlers (code : Call L → SProg L Unit) : SProg L Unit := do
  Prog.forEach (fun _ => handler code) (List.range (← Act.choose.run))

/-- The code of a call in which handlers may be interrupted in their turn, so many deep. -/
def nested : Nat → Call L → SProg L Unit
  | 0, k => callCode (pure ()) k
  | n + 1, k => callCode (handlers (nested n)) k

def spinCalls (L : Type) [DecidableEq L] : Calls Tid (State L) (Nat × Call L) (Act L) Act.Resp where
  code k := nested k.1 k.2
  legal t s k := s.legal t k.2

/-- At boot every processor is in its scheduler. -/
def State.boot : State L where
  core _ := ⟨false, 0, false⟩
  locked _ := false
  lkCpu _ := none
  cpuProc _ := none
  place t := match t with
    | .cpu c => .on c
    | .proc _ => .out
  owner _ := none
  opens _ := 0
  raised _ := none
  returns := []

end Xv6.Spinlock
