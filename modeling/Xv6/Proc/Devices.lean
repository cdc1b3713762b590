import Xv6.Proc.Programs

namespace Xv6
open Threads Function

def PIPESIZE : Nat := 512

/-- `struct pipe`, with the bytes stored by writes and delivered by reads so far, and whether a byte
taken out could not be delivered. -/
structure Pipe where
  data : Fin PIPESIZE → UInt8
  nread : UInt32
  nwrite : UInt32
  readopen : Bool
  writeopen : Bool
  stored : List UInt8
  delivered : List UInt8
  lost : Bool

/-- `n % PIPESIZE` -/
def Pipe.index (n : UInt32) : Fin PIPESIZE := ⟨n.toNat % PIPESIZE, Nat.mod_lt _ (by decide)⟩

def Pipe.empty (pi : Pipe) : Bool := pi.nread = pi.nwrite

def Pipe.full (pi : Pipe) : Bool := pi.nwrite = pi.nread + 512

/-- `pi->data[pi->nwrite++ % PIPESIZE] = ch` -/
def Pipe.put (pi : Pipe) (ch : UInt8) : Pipe :=
  { pi with
    data := update pi.data (Pipe.index pi.nwrite) ch
    nwrite := pi.nwrite + 1
    stored := pi.stored ++ [ch] }

/-- A pipe as `pipealloc` makes it. -/
def pipealloc : Pipe := ⟨fun _ => 0, 0, 0, true, true, [], [], false⟩

/-- The bytes in the ring, oldest first. -/
def Pipe.ring (pi : Pipe) : List UInt8 :=
  (List.range (pi.nwrite - pi.nread).toNat).map fun j => pi.data (Pipe.index (pi.nread + UInt32.ofNat j))

/-- The ring is not overfull, and the bytes taken out and those in it are those stored, in order, as
long as no byte was lost on its way to user space. -/
structure Pipe.Fifo (pi : Pipe) : Prop where
  bound : (pi.nwrite - pi.nread).toNat ≤ PIPESIZE
  order : pi.lost = false → pi.delivered ++ pi.ring = pi.stored

def INPUT_BUF_SIZE : Nat := 128

/-- `cons` -/
structure Cons where
  buf : Fin INPUT_BUF_SIZE → UInt8
  r : UInt32
  w : UInt32
  e : UInt32

def Cons.index (n : UInt32) : Fin INPUT_BUF_SIZE := ⟨n.toNat % INPUT_BUF_SIZE, Nat.mod_lt _ (by decide)⟩

/-- `C(x)`, Control-x -/
def ctrl (x : Char) : UInt8 := UInt8.ofNat (x.toNat - '@'.toNat)

def newline : UInt8 := 10

/-- The locks of the pipes, of the console, of `ticks`, and one more of which nothing is assumed. -/
inductive DevLock where
  | pipe (k : Nat)
  | cons
  | ticks
  | user
deriving DecidableEq

inductive PipeChan where
  | nread
  | nwrite
deriving DecidableEq

abbrev DevLock.Chan : DevLock → Type
  | .pipe _ => PipeChan
  | _ => Unit

instance (m : DevLock) : DecidableEq (DevLock.Chan m) := by cases m <;> exact inferInstance

variable (D : Type)

abbrev DevLock.Data : DevLock → Type
  | .pipe _ => Pipe
  | .cons => Cons
  | .ticks => UInt32
  | .user => D

abbrev devices : Monitors where
  Lock := DevLock
  Data := DevLock.Data D
  Chan := DevLock.Chan
  decLock := inferInstance
  decChan m := inferInstanceAs (DecidableEq (DevLock.Chan m))

variable {D}

abbrev DevProg (D : Type) := KProg (devices D)

abbrev pipeLock (k : Nat) : Lock (devices D) := .mon (.pipe k)

abbrev nreadChan (k : Nat) : Chan (devices D) := .mon (.pipe k) PipeChan.nread

abbrev nwriteChan (k : Nat) : Chan (devices D) := .mon (.pipe k) PipeChan.nwrite

def readPipe (k : Nat) : DevProg D Pipe := (KAct.read (M := devices D) (.pipe k)).run

def writePipe (k : Nat) (pi : Pipe) : DevProg D Unit := (KAct.write (M := devices D) (.pipe k) pi).run

/-- `copyin` of one byte, or its failure. -/
def copyin : DevProg D (Option UInt8) := do
  match ← (KAct.choose (M := devices D)).run with
  | 0 => return none
  | n + 1 => return some (UInt8.ofNat n)

/-- Whether a `copyout` of one byte succeeds. -/
def copyoutByte : DevProg D Bool := do
  return (← (KAct.choose (M := devices D)).run) != 0

/-- `pipewrite` after its loop. -/
def pipewriteDone (p : ProcId) (k i : Nat) : DevProg D (Int ⊕ Nat × Bool) := do
  wakeup (.proc p) (nreadChan k)
  (KAct.release (pipeLock k)).run
  return .inl i

/-- One round of the loop of `pipewrite`, from `i` and whether bytes were stored since the readers were
last woken. -/
def pipewriteRound (p : ProcId) (k : Nat) (n : Int) : Nat × Bool → DevProg D (Int ⊕ Nat × Bool)
  | (i, unannounced) =>
    if (i : Int) < n then do
      let pi ← readPipe k
      let stop ← if pi.readopen = false then pure true else
        killed p (if pi.full then some (nwriteChan k) else none) unannounced
      if stop then
        (KAct.release (pipeLock k)).run
        return .inl (-1)
      else if pi.full then  -- DOC: pipewrite-full
        wakeup (.proc p) (nreadChan k)
        sleep p (nwriteChan k) (pipeLock k)
        return .inr (i, false)
      else
        match ← copyin with
        | none => pipewriteDone p k i
        | some ch => do
          writePipe k (pi.put ch)
          return .inr (i + 1, true)
    else pipewriteDone p k i

def pipewrite (p : ProcId) (k : Nat) (n : Int) : DevProg D Int := do
  (KAct.acquire (pipeLock k)).run
  forever (pipewriteRound p k n) (0, false)

/-- One round of the loop in which `piperead` waits for bytes. -/
def pipereadRound (p : ProcId) (k : Nat) : DevProg D (Bool ⊕ Unit) := do
  let pi ← readPipe k
  if pi.empty ∧ pi.writeopen then  -- DOC: pipe-empty
    if ← killed p (some (nreadChan k)) false then
      (KAct.release (pipeLock k)).run
      return .inl false
    else
      sleep p (nreadChan k) (pipeLock k)  -- DOC: piperead-sleep
      return .inr ()
  else return .inl true

/-- The loop in which `piperead` copies bytes, for the number still to copy, from `i`. -/
def pipereadCopy (k : Nat) : Nat → Nat → DevProg D Nat
  | 0, i => return i
  | left + 1, i => do
    let pi ← readPipe k
    if pi.empty then return i
    else
      let ch := pi.data (Pipe.index pi.nread)
      let rest := { pi with nread := pi.nread + 1 }
      writePipe k rest
      if ← copyoutByte then
        writePipe k { rest with delivered := pi.delivered ++ [ch] }
        pipereadCopy k left (i + 1)
      else
        writePipe k { rest with lost := true }
        return i

def piperead (p : ProcId) (k : Nat) (n : Int) : DevProg D Int := do
  (KAct.acquire (pipeLock k)).run
  if ← forever (fun _ => pipereadRound p k) () then
    let i ← pipereadCopy k n.toNat 0  -- DOC: piperead-copy
    wakeup (.proc p) (nwriteChan k)  -- DOC: piperead-wakeup
    (KAct.release (pipeLock k)).run
    return i
  else return -1

/-- `pipeclose` without the freeing of the page. -/
def pipeclose (p : ProcId) (k : Nat) (writable : Bool) : DevProg D Unit := do
  (KAct.acquire (pipeLock k)).run
  let pi ← readPipe k
  if writable then
    writePipe k { pi with writeopen := false }
    wakeup (.proc p) (nreadChan k)
  else
    writePipe k { pi with readopen := false }
    wakeup (.proc p) (nwriteChan k)
  (KAct.release (pipeLock k)).run

/-! ## kernel/console.c -/

abbrev consLock : Lock (devices D) := .mon .cons

abbrev consChan : Chan (devices D) := .mon .cons ()

def readCons : DevProg D Cons := (KAct.read (M := devices D) .cons).run

def writeCons (cons : Cons) : DevProg D Unit := (KAct.write (M := devices D) .cons cons).run

/-- One round of the loop in which `consoleread` waits for input. -/
def consolereadRound (p : ProcId) : DevProg D (Bool ⊕ Unit) := do
  let cons ← readCons
  if cons.r = cons.w then
    if ← killed p (some consChan) false then
      (KAct.release consLock).run
      return .inl false
    else
      sleep p consChan consLock
      return .inr ()
  else return .inl true

/-- The outer loop of `consoleread`, for the number of bytes still to read. -/
def consolereadFrom (p : ProcId) (target : Nat) : Nat → DevProg D Int
  | 0 => do
    (KAct.release consLock).run
    return target
  | n + 1 => do
    if ← forever (fun _ => consolereadRound p) () then
      let cons ← readCons
      let c := cons.buf (Cons.index cons.r)
      writeCons { cons with r := cons.r + 1 }
      if c = ctrl 'D' then  -- end-of-file
        if n + 1 < target then
          -- Save ^D for next time.
          writeCons cons
        (KAct.release consLock).run
        return (target : Int) - (n + 1)
      else if ← copyoutByte then
        if c = newline then
          (KAct.release consLock).run
          return (target : Int) - n
        else consolereadFrom p target n
      else
        (KAct.release consLock).run
        return (target : Int) - (n + 1)
    else return -1

def consoleread (p : ProcId) (n : Int) : DevProg D Int := do
  (KAct.acquire consLock).run
  consolereadFrom p n.toNat n.toNat

/-- Erase the characters of the current line, at most so many. -/
def Cons.killLine : Nat → Cons → Cons
  | 0, cons => cons
  | n + 1, cons =>
    if cons.e ≠ cons.w ∧ cons.buf (Cons.index (cons.e - 1)) ≠ newline then
      Cons.killLine n { cons with e := cons.e - 1 }
    else cons

/-- What `consoleintr` does with a character, and whether it wakes up `consoleread`. -/
def Cons.input (cons : Cons) (c : UInt8) : Cons × Bool :=
  if c = ctrl 'P' then (cons, false)  -- Print process list.
  else if c = ctrl 'U' then (cons.killLine (cons.e - cons.w).toNat, false)  -- Kill line.
  else if c = ctrl 'H' ∨ c = 127 then  -- Backspace
    (if cons.e ≠ cons.w then { cons with e := cons.e - 1 } else cons, false)
  else if c ≠ 0 ∧ (cons.e - cons.r).toNat < INPUT_BUF_SIZE then
    let c := if c = 13 then newline else c
    let stored := { cons with buf := update cons.buf (Cons.index cons.e) c, e := cons.e + 1 }
    if c = newline ∨ c = ctrl 'D' ∨ (stored.e - stored.r).toNat = INPUT_BUF_SIZE then
      ({ stored with w := stored.e }, true)
    else (stored, false)
  else (cons, false)

def consoleintr (t : Tid) (c : UInt8) : DevProg D Unit := do
  (KAct.acquire consLock).run
  let cons ← readCons
  writeCons (cons.input c).1
  if (cons.input c).2 then wakeup t consChan
  (KAct.release consLock).run

/-! ## kernel/sysproc.c and kernel/trap.c -/

abbrev tickslock : Lock (devices D) := .mon .ticks

abbrev ticksChan : Chan (devices D) := .mon .ticks ()

def readTicks : DevProg D UInt32 := (KAct.read (M := devices D) .ticks).run

/-- One round of the loop of `sys_sleep`. -/
def sysSleepRound (p : ProcId) (n : Nat) (ticks0 : UInt32) : DevProg D (Int ⊕ Unit) := do
  let ticks ← readTicks
  if (ticks - ticks0).toNat < n then
    if ← killed p (some ticksChan) false then
      (KAct.release tickslock).run
      return .inl (-1)
    else
      sleep p ticksChan tickslock
      return .inr ()
  else
    (KAct.release tickslock).run
    return .inl 0

def sysSleep (p : ProcId) (n : Int) : DevProg D Int := do
  (KAct.acquire tickslock).run
  let ticks0 ← readTicks
  forever (fun _ => sysSleepRound p n.toNat ticks0) ()

/-- The part of `clockintr` that processor 0 runs. -/
def clockintr (t : Tid) : DevProg D Unit := do
  (KAct.acquire tickslock).run
  let ticks ← readTicks
  (KAct.write (M := devices D) .ticks (ticks + 1)).run
  wakeup t ticksChan
  (KAct.release tickslock).run

/-! ## Conditions

`acquire(lk); while(!cond) sleep(chan, lk); ...; release(lk)` and
`acquire(lk); set cond; wakeup(chan); release(lk)` -/

abbrev userLock : Lock (devices D) := .mon .user

abbrev userChan : Chan (devices D) := .mon .user ()

def awaitRound (cond : D → Bool) (p : ProcId) (body : D → D) : DevProg D (Unit ⊕ Unit) := do
  let x ← (KAct.read (M := devices D) .user).run
  if cond x then
    (KAct.write (M := devices D) .user (body x)).run
    (KAct.release userLock).run
    return .inl ()
  else
    sleep p userChan userLock
    return .inr ()

def await (cond : D → Bool) (p : ProcId) (body : D → D) : DevProg D Unit := do
  (KAct.acquire userLock).run
  forever (fun _ => awaitRound cond p body) ()

def signal (t : Tid) (set : D → D) : DevProg D Unit := do
  (KAct.acquire userLock).run
  let x ← (KAct.read (M := devices D) .user).run
  (KAct.write (M := devices D) .user (set x)).run
  wakeup t userChan
  (KAct.release userLock).run

/-! ## System calls -/

inductive Syscall (D : Type) where
  | fork
  | exit (status : Int)
  | wait (addr : Bool)
  | kill (pid : Int)
  | write (k : Nat) (n : Int)
  | read (k : Nat) (n : Int)
  | close (k : Nat) (writable : Bool)
  | consoleread (n : Int)
  | sleep (n : Int)
  | await (body : D → D)
  | signal (set : D → D)

/-- What a flow of control may start: a system call, the first return to user space, an exception or a
timer interrupt there, a slot of a scheduler's pass, an interrupt. -/
inductive Entry (D : Type) where
  | syscall (p : ProcId) (call : Syscall D)
  | forkret (p : ProcId)
  | exception (p : ProcId)
  | timer (p : ProcId)
  | slot (p : ProcId)
  | clock (t : Tid)
  | key (t : Tid) (c : UInt8)

def Syscall.code (cond : D → Bool) (p : ProcId) : Syscall D → DevProg D Unit
  | .fork => do discard (Xv6.fork p)
  | .exit status => exitProc p status
  | .wait addr => do discard (Xv6.wait p addr)
  | .kill pid => do discard (Xv6.kill p pid)
  | .write k n => do discard (pipewrite p k n)
  | .read k n => do discard (piperead p k n)
  | .close k writable => pipeclose p k writable
  | .consoleread n => do discard (Xv6.consoleread p n)
  | .sleep n => do discard (sysSleep p n)
  | .await body => Xv6.await cond p body
  | .signal set => Xv6.signal (.proc p) set

def Entry.code (cond : D → Bool) : Entry D → DevProg D Unit
  | .syscall p call => call.code cond p
  | .forkret p => Xv6.forkret p
  | .exception p => setkilled p
  | .timer p => yield p
  | .slot p => schedulerSlot p
  | .clock t => clockintr t
  | .key t c => consoleintr t c

def Syscall.exits : Syscall D → Bool
  | .exit _ => true
  | _ => false

def Tid.isCpu : Tid → Bool
  | .cpu _ => true
  | .proc _ => false

/-- `exit` stops the machine for `initproc`, which never calls it. -/
def Entry.legal (t : Tid) (s : Kernel (devices D)) : Entry D → Prop
  | .syscall p call => t = .proc p ∧ s.inside t = true ∧ (call.exits = true → p ≠ initproc)
  | .forkret p => t = .proc p ∧ s.inside t = false ∧ s.fresh p = true
  | .exception p => t = .proc p ∧ s.inside t = true
  | .timer p => t = .proc p ∧ s.inside t = true
  | .slot _ => t.isCpu = true
  | .clock t' => t = t' ∧ s.inside t = true
  | .key t' _ => t = t' ∧ s.inside t = true

instance Entry.decidableLegal (t : Tid) (s : Kernel (devices D)) (e : Entry D) : Decidable (e.legal t s) :=
  match e with
  | .syscall p call =>
    inferInstanceAs (Decidable (t = .proc p ∧ s.inside t = true ∧ (call.exits = true → p ≠ initproc)))
  | .forkret p => inferInstanceAs (Decidable (t = .proc p ∧ s.inside t = false ∧ s.fresh p = true))
  | .exception p => inferInstanceAs (Decidable (t = .proc p ∧ s.inside t = true))
  | .timer p => inferInstanceAs (Decidable (t = .proc p ∧ s.inside t = true))
  | .slot _ => inferInstanceAs (Decidable (t.isCpu = true))
  | .clock t' => inferInstanceAs (Decidable (t = t' ∧ s.inside t = true))
  | .key t' _ => inferInstanceAs (Decidable (t = t' ∧ s.inside t = true))

def kCalls (cond : D → Bool) : Calls Tid (Kernel (devices D)) (Entry D) (KAct (devices D)) KAct.Resp where
  code := Entry.code cond
  legal t s e := e.legal t s

instance (cond : D → Bool) (t : Tid) (s : Kernel (devices D)) (e : Entry D) :
    Decidable ((kCalls cond).legal t s e) :=
  inferInstanceAs (Decidable (e.legal t s))

/-- The kernel once `userinit` has made the first process. -/
def boot (x : D) : Kernel (devices D) where
  proc p := if p = initproc then ⟨.runnable, none, false, 0, 1⟩ else ⟨.unused, none, false, 0, 0⟩
  parent _ := none
  holder _ := none
  nextpid := 2
  cpuProc _ := none
  noff _ := 0
  runs _ := none
  fresh p := decide (p = initproc)
  data
    | .pipe _ => pipealloc
    | .cons => ⟨fun _ => 0, 0, 0, 0⟩
    | .ticks => (0 : UInt32)
    | .user => x
  inside
    | .cpu _ => true
    | .proc _ => false
  dozing _ := none
  bed _ := none
  maker _ := none
  creator p := (p, 0)
  exits _ := 0
  leaving _ := false
  window _ := none
  history := []
  calls := [.born initproc 1]
  notes _ := .blank

abbrev KConfig (D : Type) := Config Tid (Kernel (devices D)) (KAct (devices D)) KAct.Resp

def kStart (x : D) : KConfig D := ⟨boot x, fun _ => pure ()⟩

end Xv6
