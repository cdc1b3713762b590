import Xv6.Params
import Xv6.Lib.Threads
import Mathlib.Data.UInt

namespace Xv6.Virtio
open Threads Function

/-- The number of descriptors, and of entries in each ring. -/
def NUM : Nat := 8

/-- A `struct buf`. -/
abbrev BufNo := Nat

/-- Who executes: a process, the interrupt handler on some processor, or the device. -/
inductive Actor where
  | proc (p : Pid)
  | intr (cpu : Nat)
  | device
deriving DecidableEq

/-- What a descriptor points to: `ops[i]`, `b->data` or `info[i].status`. -/
inductive Addr where
  | null
  | op (i : Nat)
  | data (b : BufNo)
  | status (i : Nat)
deriving DecidableEq

/-- `struct virtq_desc`, the flags being `VRING_DESC_F_NEXT` and `VRING_DESC_F_WRITE`. -/
structure Desc where
  addr : Addr
  len : Nat
  hasNext : Bool
  write : Bool
  next : Nat
deriving DecidableEq

/-- `struct virtio_blk_req`; a request to write has type `VIRTIO_BLK_T_OUT`. -/
structure BlkReq where
  out : Bool
  sector : Nat

/-- An entry of `disk.info`. -/
structure Info where
  b : Option BufNo
  status : UInt8

/-- The descriptors with the array `disk.free`. -/
structure Table where
  desc : Nat → Desc
  free : Nat → Bool

/-- How far a request has come. -/
inductive Stage where
  | allocated
  | ready
  | ringed
  | submitted
  | taken
  | finished
  | served
  | noticed
  | cleared
deriving DecidableEq

/-- The descriptors of a chain after the first, which names it, and the request they are for. -/
structure Shape where
  owner : Actor
  buf : BufNo
  d1 : Nat
  d2 : Nat
deriving DecidableEq

/-- A chain of three descriptors. -/
structure Chain extends Shape where
  stage : Stage
  completed : Bool
deriving DecidableEq

/-- `struct disk` of kernel/virtio_disk.c, the flags `disk` and the sleep locks of the buffers, and
the device: its index into the avail ring and the heads it has taken and not completed. The fields after
`taken` are a record kept for the proofs, which no step reads: the chains in use, the heads published and
not taken yet, and the heads completed and not yet seen by the handler. -/
structure DiskState where
  table : Table
  availIdx : UInt16
  availRing : Nat → Nat
  deviceUsedIdx : UInt16
  usedRing : Nat → Nat
  usedIdx : UInt16
  info : Nat → Info
  ops : Nat → BlkReq
  lock : Option Actor
  disk : BufNo → Bool
  bufLock : BufNo → Option Actor
  takeIdx : UInt16
  taken : List Nat
  chain : Nat → Option Chain
  submitted : List Nat
  finished : List Nat

/-- Atomic steps. All but those of the device, of the sleep locks and of taking the lock itself are made
under `disk.vdisk_lock`. -/
inductive VAct where
  | acquiresleep (b : BufNo)
  | releasesleep (b : BufNo)
  | acquire
  | release
  | alloc3Desc (b : BufNo)
  | format (h d1 d2 : Nat) (b : BufNo) (blockno : Nat) (write : Bool)
  | ring (h : Nat)
  | bump (h : Nat)
  | disk (h : Nat) (b : BufNo)
  | clear (h : Nat)
  | freeChain (h : Nat)
  | service
  | take
  | complete
  | choose
  | stuck

abbrev VAct.Resp : VAct → Type
  | .alloc3Desc _ => Option (Nat × Nat × Nat)
  | .disk .. => Bool
  | .service => Bool
  | .choose => Nat
  | .stuck => Empty
  | _ => Unit

abbrev VProg := Prog VAct VAct.Resp

abbrev VAct.run (a : VAct) : VProg a.Resp := .step a

namespace Table

/-- The loop of `alloc_desc`. -/
def allocDesc (T : Table) : Option (Nat × Table) :=
  ((List.range NUM).find? fun i => T.free i).map fun i => (i, { T with free := update T.free i false })

def freeDesc (T : Table) (i : Nat) : Except String Table :=
  if NUM ≤ i then .error "free_desc 1"
  else if T.free i then .error "free_desc 2"
  else .ok ⟨update T.desc i ⟨.null, 0, false, false, 0⟩, update T.free i true⟩

def freeDescs : List Nat → Table → Except String Table
  | [], T => .ok T
  | i :: rest, T => do freeDescs rest (← T.freeDesc i)

/-- The loop of `alloc3_desc` with the descriptors it has found so far. -/
def allocFrom : Nat → List Nat → Table → Except String (Option (List Nat) × Table)
  | 0, idx, T => .ok (some idx, T)
  | n + 1, idx, T => match T.allocDesc with
    | some (i, T') => allocFrom n (idx ++ [i]) T'
    | none => do return (none, ← freeDescs idx T)

def alloc3Desc (T : Table) : Except String (Option (List Nat) × Table) := allocFrom 3 [] T

/-- The loop of `free_chain`. No more than `NUM` rounds free a descriptor that is not free. -/
def freeChainFrom : Nat → Nat → Table → Except String Table
  | 0, _, _ => .error "free_desc 2"
  | n + 1, i, T => do
    let T' ← T.freeDesc i
    if (T.desc i).hasNext then freeChainFrom n (T.desc i).next T' else .ok T'

def freeChain (T : Table) (i : Nat) : Except String Table := freeChainFrom (NUM + 1) i T

/-- The three assignments to descriptors of `virtio_disk_rw`. -/
def format (T : Table) (h d1 d2 : Nat) (b : BufNo) (write : Bool) : Table :=
  let desc0 := update T.desc h ⟨.op h, 16, true, false, d1⟩
  let desc1 := update desc0 d1 ⟨.data b, BSIZE, true, !write, d2⟩
  { T with desc := update desc1 d2 ⟨.status h, 1, false, true, 0⟩ }

end Table

namespace DiskState

def slot (idx : UInt16) : Nat := idx.toNat % NUM

def setStage (s : DiskState) (h : Nat) (stage : Stage) : DiskState :=
  { s with chain := update s.chain h ((s.chain h).map fun c => { c with stage }) }

def alloc3Desc (s : DiskState) (t : Actor) (b : BufNo) : Outcome (Option (Nat × Nat × Nat)) DiskState :=
  match s.table.alloc3Desc with
  | .error message => .panic message
  | .ok (some [h, d1, d2], table) =>
    .ok (some (h, d1, d2)) { s with
        table, chain := update s.chain h (some ⟨⟨t, b, d1, d2⟩, .allocated, false⟩) }
  | .ok (_, table) => .ok none { s with table }

/-- From `buf0->type` to `disk.info[idx[0]].b = b`. -/
def format (s : DiskState) (h d1 d2 : Nat) (b : BufNo) (blockno : Nat) (write : Bool) : DiskState :=
  { s.setStage h .ready with
    ops := update s.ops h ⟨write, blockno * (BSIZE / 512)⟩
    table := s.table.format h d1 d2 b write
    info := update s.info h ⟨some b, 0xff⟩
    disk := update s.disk b true }

/-- One round of `virtio_disk_intr`, returning whether there was anything to do. A null pointer is
a page fault in the kernel. -/
def service (s : DiskState) : Outcome Bool DiskState :=
  if s.usedIdx = s.deviceUsedIdx then .ok false s
  else
    let id := s.usedRing (slot s.usedIdx)
    if (s.info id).status ≠ 0 then .panic "virtio_disk_intr status"
    else match (s.info id).b with
      | none => .panic "kerneltrap"
      | some b => .ok true { s.setStage id .served with
          disk := update s.disk b false
          usedIdx := s.usedIdx + 1
          finished := s.finished.tail }

/-- The device stores the status of a request where the third descriptor of its chain says, and
adds the head to the used ring. -/
def complete (s : DiskState) (h : Nat) : DiskState :=
  let last := s.table.desc (s.table.desc (s.table.desc h).next).next
  { s with
    info := match last.addr with
      | .status i => update s.info i { s.info i with status := 0 }
      | _ => s.info
    usedRing := update s.usedRing (slot s.deviceUsedIdx) h
    deviceUsedIdx := s.deviceUsedIdx + 1
    taken := s.taken.erase h
    finished := s.finished ++ [h]
    chain := update s.chain h ((s.chain h).map fun c => { c with stage := .finished, completed := true }) }

end DiskState

/-- The choice is the number of rounds of a loop, or the request that the device completes. -/
def virtioMachine : Machine Actor DiskState Nat VAct VAct.Resp
  | t, _, .acquiresleep b, s =>
    if (s.bufLock b).isSome then .blocked else .ok () { s with bufLock := update s.bufLock b (some t) }
  | _, _, .releasesleep b, s => .ok () { s with bufLock := update s.bufLock b none }
  | t, _, .acquire, s => if s.lock.isSome then .blocked else .ok () { s with lock := some t }
  | t, _, .release, s => if s.lock = some t then .ok () { s with lock := none } else .panic "release"
  | t, _, .alloc3Desc b, s => s.alloc3Desc t b
  | _, _, .format h d1 d2 b blockno write, s => .ok () (s.format h d1 d2 b blockno write)
  | _, _, .ring h, s =>
    .ok () { s.setStage h .ringed with availRing := update s.availRing (DiskState.slot s.availIdx) h }
  | _, _, .bump h, s =>
    .ok () { s.setStage h .submitted with availIdx := s.availIdx + 1, submitted := s.submitted ++ [h] }
  | _, _, .disk h b, s => .ok (s.disk b) (if s.disk b then s else s.setStage h .noticed)
  | _, _, .clear h, s =>
    .ok () { s.setStage h .cleared with info := update s.info h { s.info h with b := none } }
  | _, _, .freeChain h, s => match s.table.freeChain h with
    | .ok table => .ok () { s with table, chain := update s.chain h none }
    | .error message => .panic message
  | _, _, .service, s => s.service
  | _, _, .take, s =>
    if s.takeIdx = s.availIdx then .blocked
    else
      let h := s.availRing (DiskState.slot s.takeIdx)
      .ok () { s.setStage h .taken with
        takeIdx := s.takeIdx + 1, taken := h :: s.taken, submitted := s.submitted.tail }
  | _, c, .complete, s => if c ∈ s.taken then .ok () (s.complete c) else .blocked
  | _, c, .choose, s => .ok c s
  | _, _, .stuck, _ => .blocked

/-- A loop that may sleep runs for a number of rounds that is chosen beforehand. -/
def forever {α : Type} (body : VProg (Option α)) : VProg α := do
  Prog.retry (do nomatch (← VAct.stuck.run)) body (← VAct.choose.run)

/-- `sleep`, for a process that may be woken at any time. -/
def sleep : VProg Unit := do
  VAct.release.run
  VAct.acquire.run

def virtioDiskRw (b : BufNo) (blockno : Nat) (write : Bool) : VProg Unit := do
  VAct.acquire.run
  let (h, d1, d2) ← forever (do
    match ← (VAct.alloc3Desc b).run with
    | some idx => return some idx
    | none => do
      sleep
      return none)
  (VAct.format h d1 d2 b blockno write).run
  (VAct.ring h).run
  (VAct.bump h).run
  -- Wait for virtio_disk_intr() to say request has finished.
  forever (do
    if ← (VAct.disk h b).run then
      sleep
      return none
    else return some ())
  (VAct.clear h).run
  (VAct.freeChain h).run
  VAct.release.run

def virtioDiskIntr : VProg Unit := do
  VAct.acquire.run
  forever (do
    if ← VAct.service.run then return none else return some ())
  VAct.release.run

/-- `bread` and `bwrite` of kernel/bio.c call `virtio_disk_rw` with the buffer locked. -/
inductive DiskCall where
  | virtioDiskRw (b : BufNo) (blockno : Nat) (write : Bool)
  | virtioDiskIntr
  | take
  | complete

def DiskCall.code : DiskCall → VProg Unit
  | .virtioDiskRw b blockno write => do
    (VAct.acquiresleep b).run
    Virtio.virtioDiskRw b blockno write
    (VAct.releasesleep b).run
  | .virtioDiskIntr => Virtio.virtioDiskIntr
  | .take => VAct.take.run
  | .complete => VAct.complete.run

/-- Processes make requests, processors take interrupts, and the device works at any time. -/
def DiskCall.Legal : Actor → DiskCall → Prop
  | .proc _, .virtioDiskRw .. => True
  | .intr _, .virtioDiskIntr => True
  | .device, .take => True
  | .device, .complete => True
  | _, _ => False

instance DiskCall.decidableLegal (t : Actor) (k : DiskCall) : Decidable (k.Legal t) := by
  unfold DiskCall.Legal
  split <;> infer_instance

def diskCalls : Calls Actor DiskState DiskCall VAct VAct.Resp where
  code := DiskCall.code
  legal t _ k := k.Legal t

instance : ∀ t s k, Decidable (diskCalls.legal t s k) := fun t _ k => k.decidableLegal t

/-- The queue as `virtio_disk_init` leaves it, with the indices anywhere in their range. -/
def DiskState.init (idx : UInt16) : DiskState where
  table := ⟨fun _ => ⟨.null, 0, false, false, 0⟩, fun i => i < NUM⟩
  availIdx := idx
  availRing _ := 0
  deviceUsedIdx := idx
  usedRing _ := 0
  usedIdx := idx
  info _ := ⟨none, 0⟩
  ops _ := ⟨false, 0⟩
  lock := none
  disk _ := false
  bufLock _ := none
  takeIdx := idx
  taken := []
  chain _ := none
  submitted := []
  finished := []

end Xv6.Virtio
