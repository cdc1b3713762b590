import Xv6.Lib.Threads
import Xv6.Content.Ops

/-! Processes that write through one `struct file`. -/

namespace Xv6.Shared
open Content Threads Function

/-- What happens: calls begin and return, and a call stores a chunk of the file from a byte of
its buffer on. -/
inductive Event where
  | began (p : Nat) (src : Bytes) (n : Int)
  | chunk (p start offset count : Nat)
  | returned (p : Nat) (r : Int)

/-- The chunk that is being stored. -/
structure Writing where
  start : Nat
  offset : Nat
  count : Nat
  src : Bytes

/-- The file system, `f->off`, the holder of the lock of the inode, how many bytes have been stored since the
start, the chunk that is being stored, and what has happened, latest first; no step reads the last three. -/
structure FileState where
  vol : Volume
  off : Nat
  holder : Option Nat
  stored : Nat
  writing : Option Writing
  log : List Event

/-- Atomic steps. The steps from `offset` to `advance` are made under the lock of the inode. -/
inductive FileAct where
  | beginOp
  | endOp
  | ilock
  | iunlock
  | offset (src : Bytes) (i : Nat)
  | size
  | bmap (bn : Nat)
  | copy (addr off m : Nat) (src : Bytes)
  | setSize (off : Nat)
  | advance (p i r : Nat)
  | note (e : Event)
  | elsewhere (vol : Volume)

abbrev FileAct.Resp : FileAct → Type
  | .offset .. => Nat
  | .size => Nat
  | .bmap _ => Nat
  | .copy .. => Bool
  | _ => Unit

abbrev FileProg := Prog FileAct FileAct.Resp

abbrev FileAct.run (a : FileAct) : FileProg a.Resp := .step a

/-- More bytes of the chunk are stored. -/
def Writing.grow (m : Nat) (w : Writing) : Writing := { w with count := w.count + m }

/-- `either_copyin` into the buffer of a block, and `log_write` if it succeeds; what it has moved before a bad
address stays in the buffer. -/
def FileState.copy (s : FileState) (addr off m k : Nat) (src : Bytes) : Bool × FileState :=
  let k := min k m
  let vol := { s.vol with block := update s.vol.block addr ((s.vol.block addr).splice (off % BSIZE) k src) }
  if k < m then (false, { s with vol })
  else (true, { s with vol := vol.logWrite, stored := s.stored + m, writing := s.writing.map (·.grow m) })

/-- The choice is how many bytes a copy finds before a bad address. -/
def fileMachine (ino : Nat) : Machine Nat FileState Nat FileAct FileAct.Resp
  | _, _, .beginOp, s => .ok () s
  | _, _, .endOp, s => .ok () s
  | p, _, .ilock, s => match s.holder with
    | none => .ok () { s with holder := some p }
    | some _ => .blocked
  | _, _, .iunlock, s => .ok () { s with holder := none, writing := none }
  | _, _, .offset src i, s => .ok s.off { s with writing := some ⟨s.off, i, 0, src⟩ }
  | _, _, .size, s => .ok (s.vol.inode ino).size s
  | _, _, .bmap bn, s => match s.vol.bmap ino bn with
    | .ok (addr, vol) => .ok addr { s with vol }
    | .error message => .panic message
  | _, k, .copy addr off m src, s => .ok (s.copy addr off m k src).1 (s.copy addr off m k src).2
  | _, _, .setSize off, s => .ok () { s with vol := s.vol.setSize ino (max (s.vol.inode ino).size off) }
  | _, _, .advance p i r, s =>
    .ok () { s with off := (s.off + r) % 2 ^ 32, writing := none, log := .chunk p s.off i r :: s.log }
  | _, _, .note e, s => .ok () { s with log := e :: s.log }
  | _, _, .elsewhere vol, s => .ok () { s with vol }

/-- The loop of `writei`. -/
def writeLoop (src : Bytes) : Nat → Nat → Nat → Nat → FileProg (Nat × Nat)
  | 0, off, tot, _ => return (off, tot)
  | fuel + 1, off, tot, n =>
    if tot < n then do
      let addr ← (FileAct.bmap (off / BSIZE)).run
      if addr = 0 then return (off, tot)
      else
        let m := min (n - tot) (BSIZE - off % BSIZE)
        if ← (FileAct.copy addr off m (src.drop tot)).run then writeLoop src fuel (off + m) (tot + m) n
        else return (off, tot)
    else return (off, tot)

def writei (src : Bytes) (off n : Nat) : FileProg Int := do
  let size ← FileAct.size.run
  if size < off ∨ (off + n) % 2 ^ 32 < off then return -1
  else if MAXFILE * BSIZE < (off + n) % 2 ^ 32 then return -1
  else
    let (off, tot) ← writeLoop src n off 0 n
    (FileAct.setSize off).run
    return tot

/-- The loop of `filewrite`, which ends with `i`. No more than `n` rounds are made. -/
def filewriteLoop (p : Nat) (src : Bytes) (n : Int) : Nat → Nat → FileProg Nat
  | 0, i => return i
  | fuel + 1, i =>
    if (i : Int) < n then do
      let max := ((MAXOPBLOCKS - 1 - 1 - 2) / 2) * BSIZE
      let n1 := min (n.toNat - i) max
      FileAct.beginOp.run
      FileAct.ilock.run
      let off ← (FileAct.offset src i).run
      let r ← writei (src.drop i) off n1
      if 0 < r then (FileAct.advance p i r.toNat).run
      FileAct.iunlock.run
      FileAct.endOp.run
      if r ≠ n1 then return i  -- error from writei
      else filewriteLoop p src n fuel (i + r.toNat)
    else return i

/-- `filewrite` for a file of type `FD_INODE`. -/
def filewrite (writable : Bool) (p : Nat) (src : Bytes) (n : Int) : FileProg Int :=
  if !writable then return -1
  else do
    let i ← filewriteLoop p src n n.toNat 0
    return if i = n then n else -1

inductive FileCall where
  | write (p : Nat) (src : Bytes) (n : Int)
  | elsewhere (vol : Volume)

/-- Processes write, and anybody does something to the rest of the file system. -/
def fileCalls (writable : Bool) : Calls Nat FileState FileCall FileAct FileAct.Resp where
  code
    | .write p src n => do
      (FileAct.note (.began p src n)).run
      let r ← filewrite writable p src n
      (FileAct.note (.returned p r)).run
    | .elsewhere vol => (FileAct.elsewhere vol).run
  legal t _
    | .write p _ _ => t = p
    | .elsewhere _ => True

/-- No other writer or truncation of the inode: it keeps its size and its blocks. Behind the bytes stored,
what a copy that failed has left in a buffer may go. -/
structure Elsewhere (ino first : Nat) (s : FileState) (vol : Volume) : Prop where
  cons : vol.Consistent
  size : (vol.inode ino).size = (s.vol.inode ino).size
  slots : ∀ bn < MAXFILE, vol.slot ino (dataSlot bn) = s.vol.slot ino (dataSlot bn)
  bytes : ∀ x < first + s.stored, x / BSIZE < MAXFILE → s.vol.slot ino (dataSlot (x / BSIZE)) ≠ 0 →
    vol.file ino x = s.vol.file ino x

def fileAllowed (ino first : Nat) (_ : Nat) : FileAct → FileState → Prop
  | .elsewhere vol, s => Elsewhere ino first s vol
  | _, _ => True

abbrev FileConfig := Config Nat FileState FileAct FileAct.Resp

def fileStart (vol : Volume) (first : Nat) : FileConfig := ⟨⟨vol, first, none, 0, none, []⟩, fun _ => pure ()⟩

/-! ## What the history says -/

/-- The buffer and the count of the last call of a process. -/
def asked (p : Nat) : List Event → Bytes × Int
  | [] => (fun _ => 0, 0)
  | .began q src n :: earlier => if q = p then (src, n) else asked p earlier
  | _ :: earlier => asked p earlier

/-- How many bytes the last call of a process has stored. -/
def given (p : Nat) : List Event → Nat
  | [] => 0
  | .began q _ _ :: earlier => if q = p then 0 else given p earlier
  | .chunk q _ _ count :: earlier => if q = p then given p earlier + count else given p earlier
  | _ :: earlier => given p earlier

/-- The chunks, with where they start and their lengths, oldest first. -/
def chunks : List Event → List (Nat × Nat)
  | [] => []
  | .chunk _ start _ count :: earlier => chunks earlier ++ [(start, count)]
  | _ :: earlier => chunks earlier

def total (log : List Event) : Nat := ((chunks log).map (·.2)).sum

end Xv6.Shared
