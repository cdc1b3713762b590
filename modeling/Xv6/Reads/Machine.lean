import Xv6.Vm.Copyout
import Xv6.Content.Volume
import Xv6.Console.Ring

namespace Xv6.Reads
open Function Vm Content

/-- The types of `struct file`. -/
inductive FileType where
  | none
  | pipe
  | inode
  | device
deriving DecidableEq

/-- The fields of `struct file` that a read uses; the pipe and the console are in the state. -/
structure File where
  type : FileType
  readable : Bool
  ip : Nat
  off : UInt32
  major : Int

/-- What a read works on: physical memory, the file system, the pipe that the file is for, and the console.
The bytes that a console read has copied, those that came while it slept, and whether a byte taken out could
not be copied, are a record that no step reads. -/
structure System where
  memory : Memory
  volume : Volume
  pipe : Pipe
  cons : Cons
  copied : List UInt8
  arrived : List UInt8
  lost : Bool

/-- `pi->nread++` -/
def take (pi : Pipe) : Pipe := { pi with nread := pi.nread + 1 }

/-- `pi->data[pi->nread % PIPESIZE]` -/
def first (pi : Pipe) : UInt8 := pi.data (Pipe.index pi.nread)

def System.setPipe (s : System) (pipe : Pipe) : System := { s with pipe }

/-- `cons.r++`, where a read finds the ring as `cons`. -/
def System.takeCons (s : System) (cons : Cons) : System :=
  { s with
    cons := { cons with r := cons.r + 1 }
    arrived := if s.cons.r = s.cons.w then s.arrived ++ cons.unread else s.arrived }

abbrev SysM := StateT System (Except String)

def onMemory (m : VmM α) : SysM α := fun s => do
  let (a, memory) ← m s.memory
  return (a, { s with memory })

def bmap (i bn : Nat) : SysM Nat := fun s => do
  let (addr, volume) ← s.volume.bmap i bn
  return (addr, { s with volume })

/-! ### kernel/pipe.c and kernel/console.c -/

inductive Waited (α : Type) where
  | ready (x : α) (sleeps : List (Option α))
  | killed
  | asleep

/-- `while(empty){ if(killed(pr)) return -1; sleep(chan, lk); }`. The list says how each round ends: the
process has been killed, or it sleeps and finds what others have made of the ring. -/
def await (empty : α → Bool) : List (Option α) → α → Waited α
  | [], x => if empty x then .asleep else .ready x []
  | w :: sleeps, x =>
    if empty x then match w with
      | none => .killed
      | some y => await empty sleeps y
    else .ready x (w :: sleeps)

/-- The loop in which `piperead` copies bytes, for the number still to copy, from `i`. -/
def pipereadCopy (pt : Pagetable) (addr : UInt64) : Nat → Nat → SysM Nat
  | 0, i => return i
  | left + 1, i => do
    let pi := (← get).pipe
    if pi.empty then return i
    else
      let ch := first pi
      modify fun s => s.setPipe (take pi)
      if (← onMemory (copyout pt (addr + UInt64.ofNat i).toNat (fun _ => ch) 1)) = -1 then
        modify fun s => s.setPipe { s.pipe with lost := true }
        return i
      else
        modify fun s => s.setPipe { s.pipe with delivered := s.pipe.delivered ++ [ch] }
        pipereadCopy pt addr left (i + 1)

/-- `piperead`, with no answer while it is still asleep. -/
def piperead (pt : Pagetable) (addr : UInt64) (n : Int) (sleeps : List (Option Pipe)) : SysM (Option Int) :=
  do
  match await (fun pi => pi.empty && pi.writeopen) sleeps (← get).pipe with
  | .asleep => return none
  | .killed => return some (-1)
  | .ready pi _ => do
    modify fun s => s.setPipe pi
    let i ← pipereadCopy pt addr n.toNat 0
    return some i

/-- The loop of `consoleread`, for the number of bytes still to read. -/
def consolereadLoop (pt : Pagetable) (target : Nat) : Nat → UInt64 → List (Option Cons) → SysM (Option Int)
  | 0, _, _ => return some target
  | n + 1, dst, sleeps => do
    match await (fun cons => decide (cons.r = cons.w)) sleeps (← get).cons with
    | .asleep => return none
    | .killed => return some (-1)
    | .ready cons sleeps => do
      let c := cons.buf (Cons.index cons.r)
      modify fun s => s.takeCons cons
      if c = ctrl 'D' then  -- end-of-file
        if n + 1 < target then
          -- Save ^D for next time.
          modify fun s => { s with cons := { s.cons with r := s.cons.r - 1 } }
        return some ((target : Int) - (n + 1))
      else if (← onMemory (copyout pt dst.toNat (fun _ => c) 1)) = -1 then
        modify fun s => { s with lost := true }
        return some ((target : Int) - (n + 1))
      else
        modify fun s => { s with copied := s.copied ++ [c] }
        if c = newline then return some ((target : Int) - n)
        else consolereadLoop pt target n (dst + 1) sleeps

/-- `consoleread` to user space, with no answer while it is still asleep. -/
def consoleread (pt : Pagetable) (dst : UInt64) (n : Int) (sleeps : List (Option Cons)) : SysM (Option Int) :=
  consolereadLoop pt n.toNat n.toNat dst sleeps

/-! ### kernel/fs.c and kernel/file.c -/

/-- The loop of `readi` to user space. No more than `n` rounds are made. -/
def readLoop (pt : Pagetable) (i : Nat) : Nat → Nat → Nat → Nat → UInt64 → SysM Int
  | 0, _, tot, _, _ => return tot
  | fuel + 1, off, tot, n, dst =>
    if tot < n then do
      let addr ← bmap i (off / BSIZE)
      if addr = 0 then return tot
      let m := min (n - tot) (BSIZE - off % BSIZE)
      let data := (← get).volume.block addr
      if (← onMemory (copyout pt dst.toNat (data.drop (off % BSIZE)) m)) = -1 then return -1
      else readLoop pt i fuel (off + m) (tot + m) n (dst + UInt64.ofNat m)
    else return tot

/-- `readi` to user space; `off` and `n` are of type `uint`. -/
def readi (pt : Pagetable) (i : Nat) (dst : UInt64) (off n : Nat) : SysM Int := do
  let size := ((← get).volume.inode i).size
  if size < off ∨ (off + n) % 2 ^ 32 < off then return 0
  else
    let n := if size < (off + n) % 2 ^ 32 then size - off else n
    readLoop pt i n off 0 n dst

def CONSOLE : Int := 1

/-- `devsw[major].read`, which only the console has. -/
def devswRead (major : Int) : Bool := major = CONSOLE

/-- A value of type `int` as one of type `uint`. -/
def uint (n : Int) : Nat := (n % 2 ^ 32).toNat

/-- `fileread`; how it sleeps is given in advance for a pipe and for the console. -/
def fileread (pt : Pagetable) (f : File) (addr : UInt64) (n : Int) (pipes : List (Option Pipe))
    (conss : List (Option Cons)) : SysM (Option Int × File) :=
  if f.readable = false then return (some (-1), f)
  else match f.type with
    | .pipe => do return (← piperead pt addr n pipes, f)
    | .device =>
      if f.major < 0 ∨ NDEV ≤ f.major ∨ devswRead f.major = false then return (some (-1), f)
      else do return (← consoleread pt addr n conss, f)
    | .inode => do
      let r ← readi pt f.ip addr f.off.toNat (uint n)
      return (some r, if 0 < r then { f with off := f.off + UInt32.ofNat r.toNat } else f)
    | .none => throw "fileread"

end Xv6.Reads
