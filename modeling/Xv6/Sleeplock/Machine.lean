import Xv6.Lib.Noted
import Xv6.Proc.Crew

namespace Xv6
open Threads Function

/-! ## kernel/sleeplock.c -/

/-- `struct sleeplock`, without the spin lock that protects it. -/
structure Sleeplock where
  locked : Bool
  pid : Int

namespace Sleeplock

/-- One sleep lock. -/
abbrev sleepers : Monitors where
  Lock := Unit
  Data _ := Sleeplock
  Chan _ := Unit
  decLock := inferInstance
  decChan _ := inferInstance

/-- `&lk->lk` -/
abbrev lkLock : Lock sleepers := .mon ()

/-- `lk`, as a channel -/
abbrev lkChan : Chan sleepers := .mon () ()

/-- What the processes do with the lock: `acquiresleep` returns, `releasesleep` is called, `holdingsleep`
returns. -/
inductive Event where
  | returned (p : ProcId)
  | releases (p : ProcId)
  | answered (p : ProcId) (r : Bool)

abbrev SleepProg := Prog (KAct sleepers ⊕ Event) (NotedResp KAct.Resp)

def readLk : KProg sleepers Sleeplock := (KAct.read (M := sleepers) ()).run

def writeLk (lk : Sleeplock) : KProg sleepers Unit := (KAct.write (M := sleepers) () lk).run

/-- One round of the loop of `acquiresleep`. -/
def acquiresleepRound (p : ProcId) : KProg sleepers (Unit ⊕ Unit) := do
  if (← readLk).locked then
    sleep p lkChan lkLock
    return .inr ()
  else return .inl ()

def acquiresleep (p : ProcId) : SleepProg Unit := do
  (KAct.acquire lkLock).run.lift Event
  (forever (fun _ => acquiresleepRound p) ()).lift Event
  let pid ← (KAct.getPid (M := sleepers) p).run.lift Event
  (writeLk { locked := true, pid }).lift Event
  (KAct.release lkLock).run.lift Event
  Prog.note (.returned p)

def releasesleep (p : ProcId) : SleepProg Unit := do
  Prog.note (.releases p)
  (KAct.acquire lkLock).run.lift Event
  (writeLk { locked := false, pid := 0 }).lift Event
  (wakeup (.proc p) lkChan).lift Event
  (KAct.release lkLock).run.lift Event

def holdingsleep (p : ProcId) : SleepProg Unit := do
  (KAct.acquire lkLock).run.lift Event
  let lk ← readLk.lift Event
  let pid ← (KAct.getPid (M := sleepers) p).run.lift Event
  let r := lk.locked && decide (lk.pid = pid)
  (KAct.release lkLock).run.lift Event
  Prog.note (.answered p r)

/-! ## What runs -/

/-- Who holds the lock, by the events so far, newest first. -/
def holder : List Event → Option ProcId
  | [] => none
  | .returned p :: _ => some p
  | .releases _ :: _ => none
  | .answered _ _ :: rest => holder rest

/-- `acquiresleep` returns while nobody holds the lock, the holder releases it, and `holdingsleep` answers yes
just to the holder. -/
def Exclusive : List Event → Prop
  | [] => True
  | .returned _ :: rest => holder rest = none ∧ Exclusive rest
  | .releases p :: rest => holder rest = some p ∧ Exclusive rest
  | .answered p r :: rest => (r = true ↔ holder rest = some p) ∧ Exclusive rest

/-- A call of a process of the crew, or what there is besides. -/
inductive Entry where
  | acquiresleep (p : ProcId)
  | releasesleep (p : ProcId)
  | holdingsleep (p : ProcId)
  | common (e : Common)

def Entry.code : Entry → SleepProg Unit
  | .acquiresleep p => Sleeplock.acquiresleep p
  | .releasesleep p => Sleeplock.releasesleep p
  | .holdingsleep p => Sleeplock.holdingsleep p
  | .common e => e.code.lift Event

/-- Only the holder calls `releasesleep`. -/
def Entry.legal (crew : Crew) (t : Tid) (x : Kernel sleepers × List Event) : Entry → Prop
  | .acquiresleep p | .holdingsleep p => t = .proc p ∧ crew.live p = true ∧ x.1.inside t = true
  | .releasesleep p => t = .proc p ∧ crew.live p = true ∧ x.1.inside t = true ∧ holder x.2 = some p
  | .common e => e.legal t x.1

def sleepCalls (crew : Crew) : Calls Tid (Kernel sleepers × List Event) Entry (KAct sleepers ⊕ Event)
    (NotedResp KAct.Resp) where
  code := Entry.code
  legal t x e := e.legal crew t x

instance (crew : Crew) (t : Tid) (x : Kernel sleepers × List Event) (e : Entry) :
    Decidable ((sleepCalls crew).legal t x e) :=
  match e with
  | .acquiresleep p | .holdingsleep p =>
    inferInstanceAs (Decidable (t = .proc p ∧ crew.live p = true ∧ x.1.inside t = true))
  | .releasesleep p =>
    inferInstanceAs (Decidable (t = .proc p ∧ crew.live p = true ∧ x.1.inside t = true ∧ holder x.2 = some p))
  | .common e => inferInstanceAs (Decidable (e.legal t x.1))

abbrev SleepConfig := Config Tid (Kernel sleepers × List Event) (KAct sleepers ⊕ Event) (NotedResp KAct.Resp)

def sleepMachine : Machine Tid (Kernel sleepers × List Event) Nat (KAct sleepers ⊕ Event)
    (NotedResp KAct.Resp) :=
  (kernelMachine sleepers).noted Event

/-- `initsleeplock` has been called, and nothing else. -/
def sleepStart (crew : Crew) : SleepConfig := ⟨(crew.boot fun _ => ⟨false, 0⟩, []), fun _ => pure ()⟩

/-- The sleep lock in a state of the kernel. -/
def ofKernel (s : Kernel sleepers) : Sleeplock := s.data ()

end Sleeplock

end Xv6
