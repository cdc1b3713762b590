import Xv6.Params
import Xv6.Lib.CString
import Mathlib.Logic.Function.Basic

namespace Xv6.Content
open Function

/-- The types of kernel/stat.h. -/
def T_DIR : Nat := 1
def T_FILE : Nat := 2
def T_DEVICE : Nat := 3

/-- The fields of `struct inode` that stand for a file's contents and links; `addrs` has `NDIRECT + 1`
entries. -/
structure Inode where
  type : Nat
  nlink : Int
  size : Nat
  addrs : Nat → Nat

/-- A file system as the kernel sees it through the buffer cache and the inode table: `sb.size`, the bits
of the free bitmap, the blocks and the inodes. The two counts are a record of how often `balloc` and
`log_write` have been called, which no step reads. -/
structure Volume where
  size : Nat
  used : Nat → Bool
  block : Nat → Bytes
  inode : Nat → Inode
  ballocs : Nat
  logWrites : Nat

/-- How many of `m` bytes after the first `tot` a copy moves before the first bad address. -/
def copied (limit : Option Nat) (tot m : Nat) : Nat :=
  match limit with
  | none => m
  | some bad => min m (bad - tot)

namespace Volume

def logWrite (s : Volume) : Volume := { s with logWrites := s.logWrites + 1 }

def bzero (s : Volume) (b : Nat) : Volume := { s with block := update s.block b fun _ => 0 }.logWrite

def balloc (s : Volume) : Nat × Volume :=
  let s := { s with ballocs := s.ballocs + 1 }
  match (List.range s.size).find? fun b => !s.used b with
  | some b => (b, { s with used := update s.used b true }.logWrite.bzero b)
  | none => (0, s)

def bfree (s : Volume) (b : Nat) : Except String Volume :=
  if s.used b then .ok { s with used := update s.used b false }.logWrite
  else .error "freeing free block"

def setInode (s : Volume) (i : Nat) (ip : Inode) : Volume := { s with inode := update s.inode i ip }

def setAddr (s : Volume) (i k addr : Nat) : Volume :=
  s.setInode i { s.inode i with addrs := update (s.inode i).addrs k addr }

/-- `ip->addrs[k]`, allocating a block if there is none. -/
def loadAddr (s : Volume) (i k : Nat) : Nat × Volume :=
  if (s.inode i).addrs k = 0 then
    let r := s.balloc
    if r.1 = 0 then (0, r.2) else (r.1, r.2.setAddr i k r.1)
  else ((s.inode i).addrs k, s)

/-- Entry `bn` of an indirect block. -/
def entry (s : Volume) (b bn : Nat) : Nat := (s.block b).le (4 * bn) 4

/-- `a[bn]` in the indirect block, allocating a block if there is none. -/
def loadEntry (s : Volume) (b bn : Nat) : Nat × Volume :=
  if s.entry b bn = 0 then
    let r := s.balloc
    if r.1 = 0 then (0, r.2)
    else (r.1, { r.2 with block := update r.2.block b ((r.2.block b).store (4 * bn) 4 r.1) }.logWrite)
  else (s.entry b bn, s)

def bmap (s : Volume) (i bn : Nat) : Except String (Nat × Volume) :=
  if bn < NDIRECT then .ok (s.loadAddr i bn)
  else if bn - NDIRECT < NINDIRECT then
    let r := s.loadAddr i NDIRECT
    .ok (if r.1 = 0 then (0, r.2) else r.2.loadEntry r.1 (bn - NDIRECT))
  else .error "bmap: out of range"

/-- The round of `itrunc` for one of the addresses in the inode. -/
def freeAddr (i : Nat) (s : Volume) (k : Nat) : Except String Volume :=
  if (s.inode i).addrs k = 0 then .ok s
  else do return (← s.bfree ((s.inode i).addrs k)).setAddr i k 0

/-- The round of `itrunc` for an entry of the indirect block. -/
def freeEntry (b : Nat) (s : Volume) (j : Nat) : Except String Volume :=
  if s.entry b j = 0 then .ok s else s.bfree (s.entry b j)

/-- `iupdate` after a change of the size. -/
def setSize (s : Volume) (i size : Nat) : Volume :=
  (s.setInode i { s.inode i with size }).logWrite

def itrunc (s : Volume) (i : Nat) : Except String Volume := do
  let s ← (List.range NDIRECT).foldlM (freeAddr i) s
  let addr := (s.inode i).addrs NDIRECT
  if addr = 0 then return s.setSize i 0
  let s ← (List.range NINDIRECT).foldlM (freeEntry addr) s
  return (← freeAddr i s NDIRECT).setSize i 0

/-- The loop of `readi`, which ends with -1 at a bad address. No more than `n` rounds are made. -/
def readLoop (i : Nat) (limit : Option Nat) :
    Nat → Nat → Nat → Nat → Bytes → Volume → Except String (Int × Bytes × Volume)
  | 0, _, tot, _, dst, s => .ok (tot, dst, s)
  | fuel + 1, off, tot, n, dst, s =>
    if tot < n then do
      let (addr, s) ← s.bmap i (off / BSIZE)
      if addr = 0 then return (tot, dst, s)
      let m := min (n - tot) (BSIZE - off % BSIZE)
      let k := copied limit tot m
      let dst := dst.splice tot k ((s.block addr).drop (off % BSIZE))
      if k < m then return (-1, dst, s)
      readLoop i limit fuel (off + m) (tot + m) n dst s
    else .ok (tot, dst, s)

def readi (s : Volume) (i : Nat) (dst : Bytes) (limit : Option Nat) (off n : Nat) :
    Except String (Int × Bytes × Volume) :=
  let size := (s.inode i).size
  if size < off ∨ (off + n) % 2 ^ 32 < off then .ok (0, dst, s)
  else
    let n := if size < (off + n) % 2 ^ 32 then size - off else n
    readLoop i limit n off 0 n dst s

/-- The loop of `writei`. What a copy moves before a bad address stays in the buffer. -/
def writeLoop (i : Nat) (src : Bytes) (limit : Option Nat) :
    Nat → Nat → Nat → Nat → Volume → Except String (Nat × Nat × Volume)
  | 0, off, tot, _, s => .ok (off, tot, s)
  | fuel + 1, off, tot, n, s =>
    if tot < n then do
      let (addr, s) ← s.bmap i (off / BSIZE)
      if addr = 0 then return (off, tot, s)
      let m := min (n - tot) (BSIZE - off % BSIZE)
      let k := copied limit tot m
      let s := { s with block := update s.block addr ((s.block addr).splice (off % BSIZE) k (src.drop tot)) }
      if k < m then return (off, tot, s)
      writeLoop i src limit fuel (off + m) (tot + m) n s.logWrite
    else .ok (off, tot, s)

def writei (s : Volume) (i : Nat) (src : Bytes) (limit : Option Nat) (off n : Nat) :
    Except String (Int × Volume) :=
  if (s.inode i).size < off ∨ (off + n) % 2 ^ 32 < off then .ok (-1, s)
  else if MAXFILE * BSIZE < (off + n) % 2 ^ 32 then .ok (-1, s)
  else do
    let (off, tot, s) ← writeLoop i src limit n off 0 n s
    return (tot, s.setSize i (max (s.inode i).size off))

end Volume

/-- `de.inum` -/
def inumOf (de : Bytes) : Nat := de.le 0 2

/-- `de.name` -/
def nameOf (de : Bytes) : Bytes := de.drop 2

def namecmp (s t : Bytes) : Int := strncmp s t DIRSIZ

/-- A `struct dirent`. -/
def dirent (inum : Nat) (name : Bytes) : Bytes :=
  Bytes.splice (Bytes.store (fun _ => 0) 0 2 inum) 2 DIRSIZ (strncpy name DIRSIZ)

namespace Volume

/-- The next entry of a directory; `message` is for the panic. -/
def readDirent (s : Volume) (i off : Nat) (message : String) : Except String (Bytes × Volume) := do
  let (r, de, s) ← s.readi i (fun _ => 0) none off direntSize
  if r ≠ direntSize then .error message else return (de, s)

/-- The loop of `dirlookup`. -/
def lookupLoop (i : Nat) (name : Bytes) : Nat → Nat → Volume → Except String (Option (Nat × Nat) × Volume)
  | 0, _, s => .ok (none, s)
  | fuel + 1, off, s =>
    if off < (s.inode i).size then do
      let (de, s) ← s.readDirent i off "dirlookup read"
      if inumOf de ≠ 0 ∧ namecmp name (nameOf de) = 0 then return (some (inumOf de, off), s)
      lookupLoop i name fuel (off + direntSize) s
    else .ok (none, s)

/-- The inode number and the offset of an entry, if there is one with the name. -/
def dirlookup (s : Volume) (i : Nat) (name : Bytes) : Except String (Option (Nat × Nat) × Volume) :=
  if (s.inode i).type ≠ T_DIR then .error "dirlookup not DIR"
  else lookupLoop i name (s.inode i).size 0 s

/-- The loop of `dirlink` that looks for an empty entry. -/
def emptyLoop (i : Nat) : Nat → Nat → Volume → Except String (Nat × Volume)
  | 0, off, s => .ok (off, s)
  | fuel + 1, off, s =>
    if off < (s.inode i).size then do
      let (de, s) ← s.readDirent i off "dirlink read"
      if inumOf de = 0 then return (off, s)
      emptyLoop i fuel (off + direntSize) s
    else .ok (off, s)

def dirlink (s : Volume) (i : Nat) (name : Bytes) (inum : Nat) : Except String (Int × Volume) := do
  let (found, s) ← s.dirlookup i name
  if found.isSome then return (-1, s)
  let (off, s) ← emptyLoop i (s.inode i).size 0 s
  let (r, s) ← s.writei i (dirent inum name) none off direntSize
  return (if r = direntSize then 0 else -1, s)

/-- The loop of `isdirempty`. -/
def isdiremptyLoop (i : Nat) : Nat → Nat → Volume → Except String (Bool × Volume)
  | 0, _, s => .ok (true, s)
  | fuel + 1, off, s =>
    if off < (s.inode i).size then do
      let (de, s) ← s.readDirent i off "isdirempty: readi"
      if inumOf de ≠ 0 then return (false, s)
      isdiremptyLoop i fuel (off + direntSize) s
    else .ok (true, s)

def isdirempty (s : Volume) (i : Nat) : Except String (Bool × Volume) :=
  isdiremptyLoop i (s.inode i).size (2 * direntSize) s

/-- `iupdate` after a change of the number of links. -/
def setNlink (s : Volume) (i : Nat) (nlink : Int) : Volume := (s.setInode i { s.inode i with nlink }).logWrite

end Volume

/-- The names "." and "..". -/
def dot : Bytes := fun x => if x = 0 then 46 else 0
def dotdot : Bytes := fun x => if x < 2 then 46 else 0

namespace Volume

/-- `sys_unlink` from the lock of the parent directory on. -/
def sysUnlink (s : Volume) (dp : Nat) (name : Bytes) : Except String (Int × Volume) :=
  if namecmp name dot = 0 ∨ namecmp name dotdot = 0 then .ok (-1, s)
  else do
    let (found, s) ← s.dirlookup dp name
    match found with
    | none => return (-1, s)
    | some (ip, off) =>
      if (s.inode ip).nlink < 1 then .error "unlink: nlink < 1"
      else
        let (empty, s) ← (if (s.inode ip).type = T_DIR then s.isdirempty ip else .ok (true, s))
        if !empty then return (-1, s)
        let (r, s) ← s.writei dp (fun _ => 0) none off direntSize
        if r ≠ direntSize then .error "unlink: writei"
        else
          let s := if (s.inode ip).type = T_DIR then s.setNlink dp ((s.inode dp).nlink - 1) else s
          return (0, s.setNlink ip ((s.inode ip).nlink - 1))

/-- `ialloc` of an inode that is free, with what `create` sets. -/
def ialloc (s : Volume) (ip type : Nat) : Volume := (s.setInode ip ⟨type, 1, 0, fun _ => 0⟩).logWrite

/-- What `iput` does when the last reference to an inode without links goes away. -/
def iputFree (s : Volume) (ip : Nat) : Except String Volume := do
  let s ← s.itrunc ip
  return (s.setInode ip { s.inode ip with type := 0 }).logWrite

/-- The part of `create` that makes a directory in a free inode, up to the entries "." and "..". -/
def createDir (s : Volume) (ip dp : Nat) : Except String (Int × Volume) := do
  let (r, s) ← (s.ialloc ip T_DIR).dirlink ip dot ip
  let (r, s) ← if r < 0 then .ok (r, s) else s.dirlink ip dotdot dp
  if r < 0 then return (-1, ← (s.setNlink ip 0).iputFree ip) else return (0, s)

end Volume

end Xv6.Content
