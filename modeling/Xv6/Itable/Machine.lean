import Xv6.Params
import Xv6.Lib.Handles
import Xv6.Lib.Threads

namespace Xv6.Itable
open Threads Function

abbrev Slot := Fin NINODE

/-- A device and an inode number on it. -/
abbrev Key := Nat × Nat

/-- `struct dinode`, and the fields that `struct inode` shares with it. -/
structure Dinode where
  type : Nat
  major : Int
  minor : Int
  nlink : Int
  size : Nat
  addrs : List Nat
deriving DecidableEq

/-- The value of `addrs` that `memset` or `itrunc` leaves. -/
def noAddrs : List Nat := List.replicate (NDIRECT + 1) 0

/-- What `ialloc` writes to the disk. -/
def fresh (type : Nat) : Dinode := ⟨type, 0, 0, 0, 0, noAddrs⟩

/-- `struct inode`; `locked` is the sleep lock with the pid of its holder. -/
structure Inode where
  key : Key
  ref : Nat
  locked : Option Pid
  valid : Bool
  attr : Dinode

/-- How far an `iput` has come with freeing an inode: it has seen the last reference to an inode without
links, it has freed the inode on disk, or it has made the entry invalid and is to drop its reference. -/
inductive Stage where
  | normal
  | doomed (t : Pid)
  | gone (t : Pid)
  | dead (t : Pid)
deriving DecidableEq

def Stage.owner : Stage → Option Pid
  | .normal => none
  | .doomed t => some t
  | .gone t => some t
  | .dead t => some t

/-- The entry can be read and written by those who lock it. -/
def Stage.quiet : Stage → Bool
  | .normal => true
  | .dead _ => true
  | _ => false

/-- The inode table, the inodes on disk, `itable.lock` with its holder, and which inodes an entry of a
directory names. The fields after `named` are a record kept for the proofs, which no step reads: the
pointers to each entry, how far an `iput` has come with it, whether it has been changed since the last
`iupdate`, and the inodes that a process has allocated and not yet read, with their types. -/
structure ItState where
  ninodes : Nat
  disk : Key → Dinode
  inode : Slot → Inode
  lock : Option Pid
  named : Key → Bool
  users : Slot → List Pid
  stage : Slot → Stage
  dirty : Slot → Bool
  claimed : Key → Option (Pid × Nat)

/-- Atomic steps. `acquire` and `release` are those of `itable.lock`; `setFields`, `enter` and `remove`
are what the callers of these functions do: store fields of an inode other than its type, write an entry
of a directory that names an inode, and clear all such entries. -/
inductive ItAct where
  | acquire
  | release
  | find (k : Key)
  | incRef (ip : Slot)
  | isLast (ip : Slot)
  | decRef (ip : Slot)
  | checkRef (ip : Slot)
  | acquiresleep (ip : Slot)
  | load (ip : Slot)
  | checkHeld (ip : Slot)
  | releasesleep (ip : Slot)
  | truncate (ip : Slot)
  | clearType (ip : Slot)
  | iupdate (ip : Slot)
  | invalidate (ip : Slot)
  | ninodes
  | claim (k : Key) (type : Nat)
  | setFields (ip : Slot) (new : Dinode)
  | enter (ip : Slot)
  | remove (k : Key)

abbrev ItAct.Resp : ItAct → Type
  | .find _ => Slot
  | .isLast _ => Bool
  | .ninodes => Nat
  | .claim .. => Bool
  | _ => Unit

abbrev ItProg := Prog ItAct ItAct.Resp

abbrev ItAct.run (a : ItAct) : ItProg a.Resp := .step a

namespace ItState

/-- Store one entry together with its record. -/
def put (s : ItState) (ip : Slot) (new : Inode) (users : List Pid) (stage : Stage) (dirty : Bool) : ItState :=
  { s with
    inode := update s.inode ip new
    users := update s.users ip users
    stage := update s.stage ip stage
    dirty := update s.dirty ip dirty }

/-- Store one entry, its record unchanged. -/
def setInode (s : ItState) (ip : Slot) (new : Inode) : ItState :=
  s.put ip new (s.users ip) (s.stage ip) (s.dirty ip)

/-- The entry in use that stands for an inode, if there is one. -/
def lookup (s : ItState) (k : Key) : Option Slot :=
  (List.finRange NINODE).find? fun ip => 0 < (s.inode ip).ref && (s.inode ip).key == k

def empty (s : ItState) : Option Slot := (List.finRange NINODE).find? fun ip => (s.inode ip).ref == 0

def hit (s : ItState) (t : Pid) (ip : Slot) : ItState :=
  s.put ip { s.inode ip with ref := (s.inode ip).ref + 1 } (t :: s.users ip) (s.stage ip) (s.dirty ip)

/-- The critical section of `iget`. -/
def find (s : ItState) (t : Pid) (k : Key) : Outcome Slot ItState :=
  match s.lookup k with
  | some ip => .ok ip (s.hit t ip)
  | none => match s.empty with
    | some ip => .ok ip (s.put ip { s.inode ip with key := k, ref := 1, valid := false } (t :: s.users ip)
        (s.stage ip) (s.dirty ip))
    | none => .panic "iget: no inodes"

def drop (s : ItState) (t : Pid) (ip : Slot) : ItState :=
  s.put ip { s.inode ip with ref := (s.inode ip).ref - 1 } ((s.users ip).erase t)
    (if s.stage ip = .dead t then .normal else s.stage ip) (s.dirty ip)

/-- The dinode of an entry. -/
def dinode (s : ItState) (ip : Slot) : Dinode := s.disk (s.inode ip).key

/-- The rest of `ilock` for an inode that is not yet valid. -/
def load (s : ItState) (t : Pid) (ip : Slot) : ItState :=
  { s.setInode ip { s.inode ip with attr := s.dinode ip, valid := true } with
    claimed := if (s.claimed (s.inode ip).key).map Prod.fst = some t then update s.claimed (s.inode ip).key none
      else s.claimed }

def iupdate (s : ItState) (t : Pid) (ip : Slot) : ItState :=
  { s.put ip (s.inode ip) (s.users ip)
      (if s.stage ip = .doomed t ∧ (s.inode ip).attr.type = 0 then .gone t else s.stage ip) false with
    disk := update s.disk (s.inode ip).key (s.inode ip).attr }

end ItState

def itMachine : Machine Pid ItState Unit ItAct ItAct.Resp
  | t, _, .acquire, s => if s.lock.isSome then .blocked else .ok () { s with lock := some t }
  | _, _, .release, s => .ok () { s with lock := none }
  | t, _, .find k, s => s.find t k
  | t, _, .incRef ip, s => .ok () (s.hit t ip)
  | t, _, .isLast ip, s =>
    if (s.inode ip).ref = 1 ∧ (s.inode ip).valid = true ∧ (s.inode ip).attr.nlink = 0 then
      .ok true (s.put ip (s.inode ip) (s.users ip) (.doomed t) (s.dirty ip))
    else .ok false s
  | t, _, .decRef ip, s => .ok () (s.drop t ip)
  | _, _, .checkRef ip, s => if (s.inode ip).ref < 1 then .panic "ilock" else .ok () s
  | t, _, .acquiresleep ip, s =>
    if (s.inode ip).locked.isSome then .blocked else .ok () (s.setInode ip { s.inode ip with
        locked := some t })
  | t, _, .load ip, s =>
    if (s.inode ip).valid then .ok () s
    else if (s.dinode ip).type = 0 then .panic "ilock: no type"
    else .ok () (s.load t ip)
  | t, _, .checkHeld ip, s =>
    if (s.inode ip).locked ≠ some t ∨ (s.inode ip).ref < 1 then .panic "iunlock" else .ok () s
  | _, _, .releasesleep ip, s => .ok () (s.setInode ip { s.inode ip with locked := none })
  | _, _, .truncate ip, s =>
    .ok () (s.setInode ip { s.inode ip with attr := { (s.inode ip).attr with size := 0, addrs := noAddrs } })
  | _, _, .clearType ip, s =>
    .ok () (s.setInode ip { s.inode ip with attr := { (s.inode ip).attr with type := 0 } })
  | t, _, .iupdate ip, s => .ok () (s.iupdate t ip)
  | t, _, .invalidate ip, s =>
    .ok () (s.put ip { s.inode ip with valid := false } (s.users ip)
      (if s.stage ip = .gone t then .dead t else s.stage ip) (s.dirty ip))
  | _, _, .ninodes, s => .ok s.ninodes s
  | t, _, .claim k type, s =>
    if (s.disk k).type = 0 then
      .ok true { s with disk := update s.disk k (fresh type), claimed := update s.claimed k (some (t, type)) }
    else .ok false s
  | _, _, .setFields ip new, s =>
    .ok () (s.put ip { s.inode ip with attr := { new with type := (s.inode ip).attr.type } } (s.users ip)
      (s.stage ip) true)
  | _, _, .enter ip, s => .ok () { s with named := update s.named (s.inode ip).key true }
  | _, _, .remove k, s => .ok () { s with named := update s.named k false }

/-! ## kernel/fs.c -/

def iget (k : Key) : ItProg Slot := do
  ItAct.acquire.run
  let ip ← (ItAct.find k).run
  ItAct.release.run
  return ip

def idup (ip : Slot) : ItProg Unit := do
  ItAct.acquire.run
  (ItAct.incRef ip).run
  ItAct.release.run

def ilock (ip : Slot) : ItProg Unit := do
  (ItAct.checkRef ip).run
  (ItAct.acquiresleep ip).run
  (ItAct.load ip).run

def iunlock (ip : Slot) : ItProg Unit := do
  (ItAct.checkHeld ip).run
  (ItAct.releasesleep ip).run

def itrunc (ip : Slot) : ItProg Unit := do
  (ItAct.truncate ip).run
  (ItAct.iupdate ip).run

/-- The end of `iput`. -/
def putRef (ip : Slot) : ItProg Unit := do
  (ItAct.decRef ip).run
  ItAct.release.run

def iput (ip : Slot) : ItProg Unit := do
  ItAct.acquire.run
  if ← (ItAct.isLast ip).run then
    (ItAct.acquiresleep ip).run
    ItAct.release.run
    itrunc ip
    (ItAct.clearType ip).run
    (ItAct.iupdate ip).run
    (ItAct.invalidate ip).run
    (ItAct.releasesleep ip).run
    ItAct.acquire.run
    putRef ip
  else putRef ip

def iunlockput (ip : Slot) : ItProg Unit := do
  iunlock ip
  iput ip

/-- The rest of the loop of `ialloc`, for a number of inodes from `inum` on. -/
def iallocFrom (dev type : Nat) : Nat → Nat → ItProg (Option Slot)
  | 0, _ => pure none
  | n + 1, inum => do
    if ← (ItAct.claim (dev, inum) type).run then
      return some (← iget (dev, inum))
    else iallocFrom dev type n (inum + 1)

def ialloc (dev type : Nat) : ItProg (Option Slot) := do
  iallocFrom dev type ((← ItAct.ninodes.run) - 1) 1

/-- A caller changes fields of an inode it has locked. -/
def modify (ip : Slot) (new : Dinode) : ItProg Unit := do
  (ItAct.setFields ip new).run
  (ItAct.iupdate ip).run

inductive ItCall where
  | iget (k : Key)
  | idup (ip : Slot)
  | ilock (ip : Slot)
  | iunlock (ip : Slot)
  | iput (ip : Slot)
  | iunlockput (ip : Slot)
  | ialloc (dev type : Nat)
  | modify (ip : Slot) (new : Dinode)
  | enter (ip : Slot)
  | remove (k : Key)

def ItCall.code : ItCall → ItProg Unit
  | .iget k => do discard (Itable.iget k)
  | .idup ip => Itable.idup ip
  | .ilock ip => Itable.ilock ip
  | .iunlock ip => Itable.iunlock ip
  | .iput ip => Itable.iput ip
  | .iunlockput ip => Itable.iunlockput ip
  | .ialloc dev type => do discard (Itable.ialloc dev type)
  | .modify ip new => Itable.modify ip new
  | .enter ip => (ItAct.enter ip).run
  | .remove k => (ItAct.remove k).run

/-- A process uses entries it has a pointer to, unlocks and changes what it has locked, and keeps a
pointer to what it has locked. -/
def ItCall.legal (t : Pid) (s : ItState) : ItCall → Prop
  | .idup ip => t ∈ s.users ip
  | .ilock ip => t ∈ s.users ip
  | .iunlock ip => (s.inode ip).locked = some t
  | .iput ip => t ∈ s.users ip ∧ ((s.inode ip).locked = some t → 2 ≤ (s.users ip).count t)
  | .iunlockput ip => (s.inode ip).locked = some t
  | .ialloc _ type => type ≠ 0
  | .modify ip _ => (s.inode ip).locked = some t
  | .enter ip => t ∈ s.users ip
  | _ => True

instance ItCall.decidableLegal (t : Pid) (s : ItState) (call : ItCall) : Decidable (call.legal t s) := by
  unfold ItCall.legal
  split <;> infer_instance

/-- `iget` is called for an inode that an entry of a directory names or that the process has just
allocated, and an inode that an entry names has links. -/
def ItState.Allowed (t : Pid) (a : ItAct) (s : ItState) : Prop :=
  match a with
  | .find k => s.named k = true ∨ (s.claimed k).map Prod.fst = some t
  | .setFields ip new => s.named (s.inode ip).key = true → new.nlink ≠ 0
  | .enter ip => (s.inode ip).valid = true ∧ (s.inode ip).attr.nlink ≠ 0
  | _ => True

instance ItState.decidableAllowed (t : Pid) (a : ItAct) (s : ItState) : Decidable (s.Allowed t a) := by
  unfold ItState.Allowed
  split <;> infer_instance

def itCalls : Calls Pid ItState ItCall ItAct ItAct.Resp where
  code := ItCall.code
  legal t s call := call.legal t s

instance itCalls.decidableLegal (t : Pid) (s : ItState) (call : ItCall) :
    Decidable (itCalls.legal t s call) :=
  inferInstanceAs (Decidable (call.legal t s))

/-- The table after `iinit`, on a disk whose inodes with an entry have links. -/
def init (ninodes : Nat) (disk : Key → Dinode) (named : Key → Bool) : ItState where
  ninodes := ninodes
  disk := disk
  inode _ := ⟨(0, 0), 0, none, false, fresh 0⟩
  lock := none
  named := named
  users _ := []
  stage _ := .normal
  dirty _ := false
  claimed _ := none

abbrev ItConfig := Config Pid ItState ItAct ItAct.Resp

def itStart (ninodes : Nat) (disk : Key → Dinode) (named : Key → Bool) : ItConfig :=
  ⟨init ninodes disk named, fun _ => pure ()⟩

end Xv6.Itable
