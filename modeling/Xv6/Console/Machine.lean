import Xv6.Console.Editor

namespace Xv6.Console
open Threads Function

/-- What happens to the console, in the order of the critical sections. A read that returns has taken a
control-D out of the ring, or not. -/
inductive Event where
  | typed (c : UInt8)
  | began (p : ProcId) (n : Int)
  | byte (p : ProcId) (c : UInt8)
  | returned (p : ProcId) (r : Int) (eof : Bool)
  | killed (p : ProcId)
deriving DecidableEq

/-- The console, the holder of `cons.lock`, and what has happened, latest first; no step reads the log. -/
structure ConState where
  cons : Cons
  holder : Option Tid
  log : List Event

/-- Atomic steps. Everything but `choose`, `stuck` and `wakeup` happens under `cons.lock`. -/
inductive ConAct where
  | acquire
  | release
  | read
  | write (cons : Cons)
  | note (e : Event)
  | killed
  | wakeup
  | choose
  | stuck

abbrev ConAct.Resp : ConAct → Type
  | .read => Cons
  | .killed => Bool
  | .choose => Nat
  | _ => Unit

abbrev ConProg := Prog ConAct ConAct.Resp

abbrev ConAct.run (a : ConAct) : ConProg a.Resp := .step a

def conMachine : Machine Tid ConState Nat ConAct ConAct.Resp
  | t, _, .acquire, s => match s.holder with
    | none => .ok () { s with holder := some t }
    | some _ => .blocked
  | _, _, .release, s => .ok () { s with holder := none }
  | _, _, .read, s => .ok s.cons s
  | _, _, .write cons, s => .ok () { s with cons }
  | _, _, .note e, s => .ok () { s with log := e :: s.log }
  | _, c, .killed, s => .ok (c != 0) s
  | _, _, .wakeup, s => .ok () s
  | _, c, .choose, s => .ok c s
  | _, _, .stuck, _ => .blocked

/-- `sleep(&cons.r, &cons.lock)`; whatever wakes the process up, it has to get the lock again. -/
def sleep : ConProg Unit := do
  ConAct.release.run
  ConAct.acquire.run

/-- The loop in which `consoleread` waits for input, and whether there is some; the process may be killed. -/
def waitInput : ConProg Bool := do
  Prog.retry (do ConAct.stuck.run; return false) (do
    let cons ← ConAct.read.run
    if cons.r = cons.w then
      if ← ConAct.killed.run then return some false
      else
        sleep
        return none
    else return some true) (← ConAct.choose.run)

/-- `release(&cons.lock); return r` -/
def finish (p : ProcId) (r : Int) (eof : Bool) : ConProg Int := do
  (ConAct.note (.returned p r eof)).run
  ConAct.release.run
  return r

/-- The outer loop of `consoleread`, for the number of bytes still to read, with copies that succeed. -/
def consolereadFrom (p : ProcId) (target : Nat) : Nat → ConProg Int
  | 0 => finish p target false
  | n + 1 => do
    if ← waitInput then
      let cons ← ConAct.read.run
      let c := cons.buf (Cons.index cons.r)
      (ConAct.write { cons with r := cons.r + 1 }).run
      if c = ctrl 'D' then  -- end-of-file
        if n + 1 < target then
          -- Save ^D for next time.
          (ConAct.write cons).run
          finish p (target - (n + 1)) false
        else finish p (target - (n + 1)) true
      else
        (ConAct.note (.byte p c)).run
        if c = newline then finish p (target - n) false
        else consolereadFrom p target n
    else
      (ConAct.note (.killed p)).run
      ConAct.release.run
      return -1

def consoleread (p : ProcId) (n : Int) : ConProg Int := do
  ConAct.acquire.run
  (ConAct.note (.began p n)).run
  consolereadFrom p n.toNat n.toNat

def consoleintr (c : UInt8) : ConProg Unit := do
  ConAct.acquire.run
  let cons ← ConAct.read.run
  (ConAct.write (cons.input c).1).run
  (ConAct.note (.typed c)).run
  if (cons.input c).2 then ConAct.wakeup.run
  ConAct.release.run

inductive ConCall where
  | read (p : ProcId) (n : Int)
  | input (c : UInt8)

/-- Processes read, and whoever runs may be interrupted by a key. -/
def conCalls : Calls Tid ConState ConCall ConAct ConAct.Resp where
  code
    | .read p n => do discard (consoleread p n)
    | .input c => consoleintr c
  legal t _
    | .read p _ => t = .proc p
    | .input _ => True

instance conCalls.decidableLegal (t : Tid) (s : ConState) (call : ConCall) :
    Decidable (conCalls.legal t s call) := by
  cases call with
  | read p n => exact inferInstanceAs (Decidable (t = .proc p))
  | input c => exact inferInstanceAs (Decidable True)

/-- The line editor after the keys typed and the bytes read so far. -/
def editor (ignored : List UInt8) : List Event → Editor
  | [] => .fresh
  | .typed c :: earlier => (editor ignored earlier).key ignored c
  | .byte .. :: earlier => (editor ignored earlier).take
  | .returned _ _ true :: earlier => (editor ignored earlier).take
  | _ :: earlier => editor ignored earlier

/-- The bytes that reads have taken out of the ring, control-Ds included, oldest first. -/
def delivered : List Event → List UInt8
  | [] => []
  | .byte _ c :: earlier => delivered earlier ++ [c]
  | .returned _ _ true :: earlier => delivered earlier ++ [ctrl 'D']
  | _ :: earlier => delivered earlier

/-- The count of the last read of a process. -/
def count (p : ProcId) : List Event → Int
  | [] => 0
  | .began q n :: earlier => if q = p then n else count p earlier
  | _ :: earlier => count p earlier

/-- The bytes that the last read of a process has been given. -/
def got (p : ProcId) : List Event → List UInt8
  | [] => []
  | .began q _ :: earlier => if q = p then [] else got p earlier
  | .byte q c :: earlier => if q = p then got p earlier ++ [c] else got p earlier
  | _ :: earlier => got p earlier

end Xv6.Console
