import Xv6.Log.Header
import Xv6.Lib.Threads

namespace Xv6
open Threads

abbrev BufId := Fin NBUF

/-- `struct buf`; `locked` is the sleep lock with the pid of its holder. -/
structure Buf where
  valid : Bool
  dev : Nat
  blockno : Nat
  locked : Option Pid
  refcnt : Nat
  data : Block

/-- The disk, the buffer cache of kernel/bio.c and the log of kernel/log.c. `ring` lists
the buffers from `head.next` to `head.prev`. The fields after `log` are a record kept for
the proofs, which no step reads: the references taken by `bget` and not yet given back,
the processes between `begin_op` and `end_op`, the one inside `commit()` or
`recover_from_log()` and which of the two it is, the pins taken by `log_write` and not
yet dropped, the buffers modified since their last `log_write` or `bwrite`, and the bytes
of each block at its last `log_write`. -/
structure LogState where
  disk : Nat → Block
  buf : BufId → Buf
  ring : List BufId
  log : Log
  users : BufId → List Pid
  ops : List Pid
  owner : Option Pid
  recovering : Bool
  pinned : List Nat
  dirty : BufId → Bool
  logged : Nat → Block

/-- Atomic steps: a critical section under `bcache.lock`, `log.lock` or the lock inside a
sleep lock, or an access to a buffer under its sleep lock. `ready` is the return of
`initlog`, which changes only the record. -/
inductive BufAct where
  | bget (dev blockno : Nat)
  | acquiresleep (b : BufId)
  | fill (b : BufId)
  | data (b : BufId)
  | modify (b : BufId) (data : Block)
  | bwrite (b : BufId)
  | releasesleep (b : BufId)
  | unref (b : BufId)
  | bunpin (b : BufId)
  | beginOp
  | logWrite (b : BufId)
  | endOp
  | lh
  | setLh (lh : List Nat)
  | endCommit
  | ready

abbrev BufAct.Resp : BufAct → Type
  | .bget .. => BufId
  | .data _ => Block
  | .endOp => Bool
  | .lh => List Nat
  | _ => Unit

abbrev BufProg := Prog BufAct BufAct.Resp

abbrev BufAct.run (a : BufAct) : BufProg a.Resp := .step a

namespace LogState

/-- Store one buffer together with its record. -/
def put (s : LogState) (b : BufId) (new : Buf) (users : List Pid) (dirty : Bool) : LogState :=
  { s with
    buf := Function.update s.buf b new
    users := Function.update s.users b users
    dirty := Function.update s.dirty b dirty }

/-- The buffer for a block, if it is cached. -/
def lookup (s : LogState) (dev blockno : Nat) : Option BufId :=
  s.ring.find? fun b => (s.buf b).dev == dev && (s.buf b).blockno == blockno

/-- The least recently used buffer nobody refers to. -/
def lru (s : LogState) : Option BufId :=
  s.ring.reverse.find? fun b => (s.buf b).refcnt == 0

def hit (s : LogState) (t : Pid) (b : BufId) : LogState :=
  s.put b { s.buf b with refcnt := (s.buf b).refcnt + 1 } (t :: s.users b) (s.dirty b)

def recycle (s : LogState) (t : Pid) (b : BufId) (dev blockno : Nat) : LogState :=
  s.put b { s.buf b with dev, blockno, valid := false, refcnt := 1 } (t :: s.users b) (s.dirty b)

/-- `bget` up to the release of `bcache.lock`. -/
def bget (s : LogState) (t : Pid) (dev blockno : Nat) : Outcome BufId LogState :=
  match s.lookup dev blockno with
  | some b => .ok b (s.hit t b)
  | none => match s.lru with
    | some b => .ok b (s.recycle t b dev blockno)
    | none => .panic "bget: no buffers"

def lock (s : LogState) (b : BufId) (holder : Option Pid) : LogState :=
  s.put b { s.buf b with locked := holder } (s.users b) (s.dirty b)

/-- `if(!b->valid) { virtio_disk_rw(b, 0); b->valid = 1; }` -/
def fill (s : LogState) (b : BufId) : LogState :=
  if (s.buf b).valid then s
  else s.put b { s.buf b with data := s.disk (s.buf b).blockno, valid := true } (s.users b) (s.dirty b)

def modify (s : LogState) (b : BufId) (data : Block) : LogState :=
  s.put b { s.buf b with data } (s.users b) true

def bwrite (s : LogState) (b : BufId) : LogState :=
  { s.put b (s.buf b) (s.users b) false with
    disk := Function.update s.disk (s.buf b).blockno (s.buf b).data }

/-- `brelse` after `releasesleep`: the last reference moves the buffer to the front. -/
def unref (s : LogState) (t : Pid) (b : BufId) : LogState :=
  { s.put b { s.buf b with refcnt := (s.buf b).refcnt - 1 } ((s.users b).erase t) (s.dirty b) with
    ring := if (s.buf b).refcnt - 1 = 0 then b :: s.ring.erase b else s.ring }

def bunpin (s : LogState) (b : BufId) : LogState :=
  { s.put b { s.buf b with refcnt := (s.buf b).refcnt - 1 } (s.users b) (s.dirty b) with
    pinned := s.pinned.erase (s.buf b).blockno }

/-- `log_write` once `log.c` has accepted the block. -/
def logWrite (s : LogState) (b : BufId) (log : Log) (pin : Bool) : LogState :=
  { s.put b { s.buf b with refcnt := (s.buf b).refcnt + if pin then 1 else 0 } (s.users b) false with
    log
    pinned := if pin then s.pinned ++ [(s.buf b).blockno] else s.pinned
    logged := Function.update s.logged (s.buf b).blockno (s.buf b).data }

end LogState

def bufMachine : Machine Pid LogState Unit BufAct BufAct.Resp
  | t, _, .bget dev blockno, s => s.bget t dev blockno
  | t, _, .acquiresleep b, s =>
    if (s.buf b).locked.isSome then .blocked
    else .ok () (s.lock b (some t))
  | _, _, .fill b, s => .ok () (s.fill b)
  | _, _, .data b, s => .ok (s.buf b).data s
  | _, _, .modify b data, s => .ok () (s.modify b data)
  | t, _, .bwrite b, s =>
    if (s.buf b).locked ≠ some t then .panic "bwrite" else .ok () (s.bwrite b)
  | t, _, .releasesleep b, s =>
    if (s.buf b).locked ≠ some t then .panic "brelse"
    else .ok () (s.lock b none)
  | t, _, .unref b, s => .ok () (s.unref t b)
  | _, _, .bunpin b, s => .ok () (s.bunpin b)
  | t, _, .beginOp, s => match s.log.beginOp with
    | some log => .ok () { s with log, ops := t :: s.ops }
    | none => .blocked
  | _, _, .logWrite b, s => match s.log.logWrite (s.buf b).blockno with
    | .ok (log, pin) => .ok () (s.logWrite b log pin)
    | .error message => .panic message
  | t, _, .endOp, s => match s.log.endOp with
    | .ok (log, last) => .ok last
        { s with log, ops := s.ops.erase t, owner := if last then some t else s.owner }
    | .error message => .panic message
  | _, _, .lh, s => .ok s.log.lh s
  | _, _, .setLh lh, s => .ok () { s with log := { s.log with lh } }
  | _, _, .endCommit, s => .ok () { s with log := s.log.endCommit, owner := none }
  | _, _, .ready, s => .ok () { s with recovering := false, owner := none }

/-! ## kernel/bio.c -/

def bread (blockno : Nat) : BufProg BufId := do
  let b ← (BufAct.bget ROOTDEV blockno).run
  (BufAct.acquiresleep b).run
  (BufAct.fill b).run
  return b

def brelse (b : BufId) : BufProg Unit := do
  (BufAct.releasesleep b).run
  (BufAct.unref b).run

/-! ## kernel/log.c, for a log whose `log.start` is `start`

The loops read `log.lh.n` once: nothing changes the header while they run. -/

def writeLog (start : Nat) : BufProg Unit := do
  let n := (← BufAct.lh.run).length
  Prog.forEach (fun tail => do
    let dst ← bread (start + tail + 1)  -- log block
    let src ← bread ((← BufAct.lh.run).getD tail 0)  -- cache block
    (BufAct.modify dst (← (BufAct.data src).run)).run
    (BufAct.bwrite dst).run
    brelse src
    brelse dst) (List.range n)

def writeHead (start : Nat) : BufProg Unit := do
  let buf ← bread start
  let head ← (BufAct.data buf).run
  (BufAct.modify buf (putHead head (← BufAct.lh.run))).run
  (BufAct.bwrite buf).run
  brelse buf

def installTrans (start : Nat) (recovering : Bool) : BufProg Unit := do
  let n := (← BufAct.lh.run).length
  Prog.forEach (fun tail => do
    let lbuf ← bread (start + tail + 1)  -- log block
    let dbuf ← bread ((← BufAct.lh.run).getD tail 0)  -- dst
    (BufAct.modify dbuf (← (BufAct.data lbuf).run)).run
    (BufAct.bwrite dbuf).run
    if !recovering then (BufAct.bunpin dbuf).run
    brelse lbuf
    brelse dbuf) (List.range n)

def readHead (start : Nat) : BufProg Unit := do
  let buf ← bread start
  let head ← (BufAct.data buf).run
  (BufAct.setLh (getHead head)).run
  brelse buf

def recoverFromLog (start : Nat) : BufProg Unit := do
  readHead start
  installTrans start true
  (BufAct.setLh []).run
  writeHead start

def initlog (start : Nat) : BufProg Unit := do
  recoverFromLog start
  BufAct.ready.run

def commit (start : Nat) : BufProg Unit := do
  if (← BufAct.lh.run).length > 0 then
    writeLog start
    writeHead start
    installTrans start false
    (BufAct.setLh []).run
    writeHead start

def endOp (start : Nat) : BufProg Unit := do
  if ← BufAct.endOp.run then
    commit start
    BufAct.endCommit.run

end Xv6
