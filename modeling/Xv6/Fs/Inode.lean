import Xv6.Params
import Xv6.Lib.Threads
import Mathlib.Algebra.BigOperators.Group.Finset.Basic
import Mathlib.Algebra.Order.BigOperators.Group.Finset

namespace Xv6.Fs
open Threads

/-- A file name of at most `DIRSIZ` characters, without the padding. -/
abbrev Name := List Char

def dot : Name := ['.']
def dotdot : Name := ['.', '.']

/-- The values of `type` in an inode: 0, `T_DIR`, `T_FILE` and `T_DEVICE`. -/
inductive FileType where
  | free
  | dir
  | file
  | device
deriving DecidableEq

/-- `struct dirent` -/
structure Dirent where
  inum : Nat
  name : Name
deriving DecidableEq

abbrev Slot := Fin NINODE

/-- The first entry of the table. -/
def firstSlot : Slot := ⟨0, by decide⟩

/-- The value an `int` has after a store to a `short`. -/
def toShort (x : Int) : Int := (x + 2 ^ 15) % 2 ^ 16 - 2 ^ 15

/-- The fields that `struct dinode` and `struct inode` share, other than the size and the
block addresses. -/
structure Attr where
  type : FileType
  major : Int
  minor : Int
  nlink : Int
deriving DecidableEq

/-- `struct dinode`, with the entries of a directory in place of its blocks. -/
structure Dinode where
  attr : Attr
  dents : List Dirent
deriving DecidableEq

/-- `struct inode`; `locked` is the sleep lock with the pid of its holder. There is a single
device, and the entries of a directory are those of its dinode. -/
structure MemInode where
  inum : Nat
  ref : Nat
  locked : Option Pid
  valid : Bool
  attr : Attr

/-- The inodes on disk, the inode table of kernel/fs.c and the inodes that processes refer to by
their `cwd` and `ofile`. `users` is a record kept for the proofs, which no step reads: each process
once for each reference to an entry of the table that it has taken and not dropped. -/
structure FsState where
  ninodes : Nat
  disk : Nat → Dinode
  inode : Slot → MemInode
  cwd : Pid → Option Slot
  ofile : Pid → Nat → Option Slot
  users : Slot → List Pid

/-- Atomic steps: a critical section under `itable.lock` or the lock inside a sleep lock, an
access to an inode under its sleep lock, or to one block of inodes under its buffer's. -/
inductive FsAct where
  | beginOp
  | endOp
  | ninodes
  | claim (inum : Nat) (type : FileType)
  | iget (inum : Nat)
  | idup (ip : Slot)
  | acquiresleep (ip : Slot)
  | load (ip : Slot)
  | releasesleep (ip : Slot)
  | iput (ip : Slot)
  | free (ip : Slot)
  | unref (ip : Slot)
  | inum (ip : Slot)
  | attr (ip : Slot)
  | checkLinked (ip : Slot)
  | dirlookup (dp : Slot) (name : Name)
  | isdirempty (dp : Slot)
  | writeDirent (dp : Slot) (name : Name) (inum : Nat)
  | clearDirent (dp : Slot) (off : Nat)
  | initInode (ip : Slot) (major minor : Int)
  | incNlink (ip : Slot)
  | decNlink (ip : Slot)
  | clearNlink (ip : Slot)
  | itrunc (ip : Slot)
  | iupdate (ip : Slot)
  | cwd
  | setCwd (ip : Option Slot)
  | ofile (fd : Nat)
  | setOfile (fd : Nat) (ip : Option Slot)
  | fdalloc (ip : Slot)

abbrev FsAct.Resp : FsAct → Type
  | .ninodes => Nat
  | .claim .. => Bool
  | .iget _ => Slot
  | .iput _ => Bool
  | .inum _ => Nat
  | .attr _ => Attr
  | .dirlookup .. => Option (Nat × Slot)
  | .isdirempty _ => Bool
  | .writeDirent .. => Bool
  | .cwd => Slot
  | .ofile _ => Option Slot
  | .fdalloc _ => Option Nat
  | _ => Unit

abbrev FsProg := Prog FsAct FsAct.Resp

abbrev FsAct.run (a : FsAct) : FsProg a.Resp := .step a

/-! ## The entries of a directory -/

/-- The loop of `dirlookup`: the offset, counted in entries, and inode number of a name. -/
def scan (name : Name) : Nat → List Dirent → Option (Nat × Nat)
  | _, [] => none
  | off, e :: rest => if e.inum ≠ 0 ∧ e.name = name then some (off, e.inum) else scan name (off + 1) rest

/-- The loop of `dirlink`: the offset of the first empty entry, or the end. -/
def emptyDirent (dents : List Dirent) : Nat := dents.findIdx fun e => e.inum = 0

/-- Write an entry inside or at the end of a directory. -/
def putDirent (dents : List Dirent) (off : Nat) (e : Dirent) : List Dirent :=
  if off = dents.length then dents ++ [e] else dents.set off e

/-- The loop of `isdirempty`. -/
def noDirent (dents : List Dirent) : Bool := (dents.drop 2).all fun e => e.inum = 0

namespace FsState

/-- The dinode of an entry of the inode table. -/
def dinode (s : FsState) (ip : Slot) : Dinode := s.disk (s.inode ip).inum

/-- Store one entry of the inode table together with its record. -/
def put (s : FsState) (ip : Slot) (new : MemInode) (users : List Pid) : FsState :=
  { s with inode := Function.update s.inode ip new, users := Function.update s.users ip users }

def setDisk (s : FsState) (inum : Nat) (new : Dinode) : FsState :=
  { s with disk := Function.update s.disk inum new }

def setAttr (s : FsState) (ip : Slot) (attr : Attr) : FsState :=
  s.put ip { s.inode ip with attr } (s.users ip)

/-- The entry that stands for an inode number, if there is one. -/
def lookup (s : FsState) (inum : Nat) : Option Slot :=
  (List.finRange NINODE).find? fun ip => 0 < (s.inode ip).ref && (s.inode ip).inum == inum

def empty (s : FsState) : Option Slot := (List.finRange NINODE).find? fun ip => (s.inode ip).ref == 0

def hit (s : FsState) (t : Pid) (ip : Slot) : FsState :=
  s.put ip { s.inode ip with ref := (s.inode ip).ref + 1 } (t :: s.users ip)

def recycle (s : FsState) (t : Pid) (ip : Slot) (inum : Nat) : FsState :=
  s.put ip { s.inode ip with inum, ref := 1, valid := false } (t :: s.users ip)

def iget (s : FsState) (t : Pid) (inum : Nat) : Outcome Slot FsState :=
  match s.lookup inum with
  | some ip => .ok ip (s.hit t ip)
  | none => match s.empty with
    | some ip => .ok ip (s.recycle t ip inum)
    | none => .panic "iget: no inodes"

def lock (s : FsState) (ip : Slot) (holder : Option Pid) : FsState :=
  s.put ip { s.inode ip with locked := holder } (s.users ip)

/-- The rest of `ilock` for an inode that is not yet valid. -/
def load (s : FsState) (ip : Slot) : FsState :=
  s.put ip { s.inode ip with attr := (s.dinode ip).attr, valid := true } (s.users ip)

/-- `ip->ref--` at the end of `iput`. -/
def drop (s : FsState) (t : Pid) (ip : Slot) : FsState :=
  s.put ip { s.inode ip with ref := (s.inode ip).ref - 1 } ((s.users ip).erase t)

/-- `iput` up to the first release of `itable.lock`, returning whether the inode is to be freed. -/
def iput (s : FsState) (t : Pid) (ip : Slot) : Outcome Bool FsState :=
  if (s.inode ip).ref = 1 ∧ (s.inode ip).valid ∧ (s.inode ip).attr.nlink = 0 then
    if (s.inode ip).locked.isSome then .blocked
    else .ok true (s.lock ip (some t))
  else .ok false (s.drop t ip)

/-- From `itrunc` to `releasesleep` in `iput`. -/
def free (s : FsState) (ip : Slot) : FsState :=
  (s.put ip { s.inode ip with attr := { (s.inode ip).attr with type := .free }, valid := false, locked := none }
    (s.users ip)).setDisk (s.inode ip).inum ⟨{ (s.inode ip).attr with type := .free }, []⟩

/-- `iupdate`, or the end of a `writei` that left these entries. -/
def iupdate (s : FsState) (ip : Slot) (dents : List Dirent) : FsState :=
  s.setDisk (s.inode ip).inum ⟨(s.inode ip).attr, dents⟩

end FsState

/-- The choice says whether a table or the disk has room for a step that needs it. -/
def fsMachine : Machine Pid FsState Bool FsAct FsAct.Resp
  | _, _, .beginOp, s => .ok () s
  | _, _, .endOp, s => .ok () s
  | _, _, .ninodes, s => .ok s.ninodes s
  | _, _, .claim inum type, s =>
    if (s.disk inum).attr.type = .free then .ok true (s.setDisk inum ⟨⟨type, 0, 0, 0⟩, []⟩) else .ok false s
  | t, _, .iget inum, s => s.iget t inum
  | t, _, .idup ip, s => .ok () (s.hit t ip)
  | t, _, .acquiresleep ip, s =>
    if (s.inode ip).ref < 1 then .panic "ilock"
    else if (s.inode ip).locked.isSome then .blocked
    else .ok () (s.lock ip (some t))
  | _, _, .load ip, s =>
    if (s.inode ip).valid then .ok () s
    else if (s.dinode ip).attr.type = .free then .panic "ilock: no type"
    else .ok () (s.load ip)
  | t, _, .releasesleep ip, s =>
    if (s.inode ip).locked ≠ some t ∨ (s.inode ip).ref < 1 then .panic "iunlock"
    else .ok () (s.lock ip none)
  | t, _, .iput ip, s => s.iput t ip
  | _, _, .free ip, s => .ok () (s.free ip)
  | t, _, .unref ip, s => .ok () (s.drop t ip)
  | _, _, .inum ip, s => .ok (s.inode ip).inum s
  | _, _, .attr ip, s => .ok (s.inode ip).attr s
  | _, _, .checkLinked ip, s =>
    if (s.inode ip).attr.nlink < 1 then .panic "unlink: nlink < 1" else .ok () s
  | t, _, .dirlookup dp name, s =>
    if (s.inode dp).attr.type ≠ .dir then .panic "dirlookup not DIR"
    else match scan name 0 (s.dinode dp).dents with
      | none => .ok none s
      | some (off, inum) => match s.iget t inum with
        | .ok ip s' => .ok (some (off, ip)) s'
        | .blocked => .blocked
        | .panic message => .panic message
  | _, _, .isdirempty dp, s => .ok (noDirent (s.dinode dp).dents) s
  | _, room, .writeDirent dp name inum, s =>
    let off := emptyDirent (s.dinode dp).dents
    if (off + 1) * direntSize > MAXFILE * BSIZE then .ok false s
    else if off = (s.dinode dp).dents.length ∧ !room then .ok false (s.iupdate dp (s.dinode dp).dents)
    else .ok true (s.iupdate dp (putDirent (s.dinode dp).dents off ⟨inum % 2 ^ 16, name⟩))
  | _, _, .clearDirent dp off, s => .ok () (s.iupdate dp ((s.dinode dp).dents.set off ⟨0, []⟩))
  | _, _, .initInode ip major minor, s =>
    .ok () (s.setAttr ip { (s.inode ip).attr with major, minor, nlink := 1 })
  | _, _, .incNlink ip, s =>
    .ok () (s.setAttr ip { (s.inode ip).attr with nlink := toShort ((s.inode ip).attr.nlink + 1) })
  | _, _, .decNlink ip, s =>
    .ok () (s.setAttr ip { (s.inode ip).attr with nlink := toShort ((s.inode ip).attr.nlink - 1) })
  | _, _, .clearNlink ip, s => .ok () (s.setAttr ip { (s.inode ip).attr with nlink := 0 })
  | _, _, .itrunc ip, s => .ok () (s.iupdate ip [])
  | _, _, .iupdate ip, s => .ok () (s.iupdate ip (s.dinode ip).dents)
  | t, _, .cwd, s => match s.cwd t with
    | some ip => .ok ip s
    | none => .blocked
  | t, _, .setCwd ip, s => .ok () { s with cwd := Function.update s.cwd t ip }
  | t, _, .ofile fd, s => .ok (s.ofile t fd) s
  | t, _, .setOfile fd ip, s =>
    .ok () { s with ofile := Function.update s.ofile t (Function.update (s.ofile t) fd ip) }
  | t, room, .fdalloc ip, s =>
    if !room then .ok none s
    else match (List.range NOFILE).find? fun fd => (s.ofile t fd).isNone with
      | some fd => .ok (some fd)
          { s with ofile := Function.update s.ofile t (Function.update (s.ofile t) fd (some ip)) }
      | none => .ok none s

end Xv6.Fs
