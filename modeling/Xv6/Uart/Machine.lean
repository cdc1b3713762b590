import Xv6.Lib.Cyclic
import Xv6.Proc.Crew
import Xv6.Proc.Devices

namespace Xv6
open Threads Function

/-! ## kernel/uart.c -/

def UART_TX_BUF_SIZE : Nat := 32

/-- The transmit output buffer, with the characters that `uartstart` has written to THR and those that
`uartputc` has stored, so far. -/
structure Uart where
  buf : Fin UART_TX_BUF_SIZE → UInt8
  w : UInt64
  r : UInt64
  sent : List UInt8
  accepted : List UInt8

namespace Uart

/-- `n % UART_TX_BUF_SIZE` -/
def index (n : UInt64) : Fin UART_TX_BUF_SIZE := Cyclic.place (by decide) n.toNat

def empty (u : Uart) : Bool := u.w = u.r

def full (u : Uart) : Bool := u.w = u.r + 32

/-- `uart_tx_buf[uart_tx_w % UART_TX_BUF_SIZE] = c; uart_tx_w += 1;` -/
def put (u : Uart) (c : UInt8) : Uart :=
  { u with buf := update u.buf (index u.w) c, w := u.w + 1, accepted := u.accepted ++ [c] }

/-- The characters in the ring, oldest first. -/
def ring (u : Uart) : List UInt8 := Cyclic.queue (by decide) u.buf u.r.toNat (u.w - u.r).toNat

/-- The ring is not overfull, and the characters written to THR and those in it are those
accepted, in order. -/
structure Fifo (u : Uart) : Prop where
  bound : (u.w - u.r).toNat ≤ UART_TX_BUF_SIZE
  order : u.sent ++ u.ring = u.accepted

/-- `uart_tx_lock` and `cons.lock` -/
inductive TtyLock where
  | tx
  | cons
deriving DecidableEq

abbrev TtyLock.Data : TtyLock → Type
  | .tx => Uart
  | .cons => Cons

abbrev tty : Monitors where
  Lock := TtyLock
  Data := TtyLock.Data
  Chan _ := Unit
  decLock := inferInstance
  decChan _ := inferInstance

abbrev TtyProg := KProg tty

abbrev txLock : Lock tty := .mon .tx

abbrev consLock : Lock tty := .mon .cons

/-- `&uart_tx_r` -/
abbrev txChan : Chan tty := .mon .tx ()

def readTx : TtyProg Uart := (KAct.read (M := tty) .tx).run

def writeTx (u : Uart) : TtyProg Unit := (KAct.write (M := tty) .tx u).run

/-- One round of the loop of `uartstart`; the holding register may be full at any time. -/
def uartstartRound (t : Tid) : TtyProg (Unit ⊕ Unit) := do
  let u ← readTx
  if u.empty then return .inl ()
  else if (← (KAct.choose (M := tty)).run) = 0 then return .inl ()
  else
    let c := u.buf (index u.r)
    let u := { u with r := u.r + 1 }
    writeTx u
    -- maybe uartputc() is waiting for space in the buffer.
    wakeup t txChan
    writeTx { u with sent := u.sent ++ [c] }
    return .inr ()

def uartstart (t : Tid) : TtyProg Unit := forever (fun _ => uartstartRound t) ()

/-- One round of the loop in which `uartputc` waits for space. -/
def uartputcRound (p : ProcId) : TtyProg (Uart ⊕ Unit) := do
  let u ← readTx
  if u.full then
    sleep p txChan txLock
    return .inr ()
  else return .inl u

/-- `uartputc`; after a panic it goes nowhere. -/
def uartputc (p : ProcId) (c : UInt8) : TtyProg Unit := do
  (KAct.acquire txLock).run
  if (← (KAct.choose (M := tty)).run) = 0 then
    let u ← forever (fun _ => uartputcRound p) ()
    writeTx (u.put c)
    uartstart (.proc p)
    (KAct.release txLock).run
  else nomatch (← (KAct.stuck (M := tty)).run)

/-- What `uartgetc` reads, if input is waiting. -/
def uartgetc : TtyProg (Option UInt8) := do
  match ← (KAct.choose (M := tty)).run with
  | 0 => return none
  | n + 1 => return some (UInt8.ofNat n)

def consoleintr (t : Tid) (c : UInt8) : TtyProg Unit := do
  (KAct.acquire consLock).run
  let cons ← (KAct.read (M := tty) .cons).run
  (KAct.write (M := tty) .cons (Cons.input cons c).1).run
  if (Cons.input cons c).2 then wakeup t (.mon .cons ())
  (KAct.release consLock).run

/-- One round of the loop in which `uartintr` reads incoming characters. -/
def uartintrRound (t : Tid) : TtyProg (Unit ⊕ Unit) := do
  match ← uartgetc with
  | none => return .inl ()
  | some c => do
    consoleintr t c
    return .inr ()

def uartintr (t : Tid) : TtyProg Unit := do
  -- read and process incoming characters.
  forever (fun _ => uartintrRound t) ()
  -- send buffered characters.
  (KAct.acquire txLock).run
  uartstart t
  (KAct.release txLock).run

/-! ## What runs -/

/-- `uartputc` by a process, an interrupt of the UART, or what there is besides. -/
inductive Entry where
  | putc (p : ProcId) (c : UInt8)
  | intr (t : Tid)
  | common (e : Common)

def Entry.code : Entry → TtyProg Unit
  | .putc p c => uartputc p c
  | .intr t => uartintr t
  | .common e => e.code

def Entry.legal (t : Tid) (s : Kernel tty) : Entry → Prop
  | .putc p _ => t = .proc p ∧ s.inside t = true
  | .intr t' => t = t' ∧ s.inside t = true
  | .common e => e.legal t s

def ttyCalls : Calls Tid (Kernel tty) Entry (KAct tty) KAct.Resp where
  code := Entry.code
  legal t s e := e.legal t s

instance (t : Tid) (s : Kernel tty) (e : Entry) : Decidable (ttyCalls.legal t s e) :=
  match e with
  | .putc p _ => inferInstanceAs (Decidable (t = .proc p ∧ s.inside t = true))
  | .intr t' => inferInstanceAs (Decidable (t = t' ∧ s.inside t = true))
  | .common e => inferInstanceAs (Decidable (e.legal t s))

/-- The ring and the console as they are at the start. -/
def ttyData : (m : TtyLock) → TtyLock.Data m
  | .tx => ⟨fun _ => 0, 0, 0, [], []⟩
  | .cons => ⟨fun _ => 0, 0, 0, 0⟩

abbrev TtyConfig := Config Tid (Kernel tty) (KAct tty) KAct.Resp

def ttyStart (crew : Crew) : TtyConfig := ⟨crew.boot ttyData, fun _ => pure ()⟩

/-- The ring in a state of the kernel. -/
def ofKernel (s : Kernel tty) : Uart := s.data .tx

end Uart

end Xv6
