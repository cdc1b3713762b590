import Xv6.Content.Volume
import Xv6.Mkfs.Machine
import Xv6.Vm.Copyin

namespace Xv6.Buffers
open Function Content
open Vm (Pagetable Memory)
open Mkfs (BPB IPB bit)

/-- The fields of `struct superblock` by which blocks are found. -/
structure Superblock where
  size : Nat
  inodestart : Nat
  bmapstart : Nat

/-- The buffers with `valid` set, the disk below them, the blocks in the header of the log in memory, whose
buffers are pinned, and the inodes as `ilock` gives them. The list `written` is a record of the blocks passed
to `log_write`, latest first, which no step reads. -/
structure FsState where
  sb : Superblock
  disk : Nat → Bytes
  cache : Nat → Option Bytes
  log : List Nat
  inode : Nat → Inode
  written : List Nat

def BBLOCK (sb : Superblock) (b : Nat) : Nat := b / BPB + sb.bmapstart

def IBLOCK (sb : Superblock) (i : Nat) : Nat := i / IPB + sb.inodestart

/-- `data[bi/8] |= 1 << (bi % 8)` -/
def setBit (m : Bytes) (bi : Nat) : Bytes := update m (bi / 8) (m (bi / 8) ||| UInt8.ofNat (2 ^ (bi % 8)))

namespace FsState

/-- What `bread` finds in a block. -/
def view (s : FsState) (b : Nat) : Bytes := (s.cache b).getD (s.disk b)

/-- `bread`, with the data of the buffer. -/
def bread (s : FsState) (b : Nat) : Bytes × FsState :=
  (s.view b, { s with cache := update s.cache b (some (s.view b)) })

/-- `bp->data` changes. -/
def setData (s : FsState) (b : Nat) (data : Bytes) : FsState :=
  { s with cache := update s.cache b (some data) }

/-- `log_write`; a block that is in the log already is absorbed. -/
def logWrite (s : FsState) (b : Nat) : FsState :=
  { s with
    log := if b ∈ s.log then s.log else s.log ++ [b]
    written := b :: s.written }

def bzero (s : FsState) (b : Nat) : FsState := ((s.bread b).2.setData b fun _ => 0).logWrite b

/-- The inner loop of `balloc`, over the bits of a bitmap block. -/
def freeBit (s : FsState) (b : Nat) (data : Bytes) : Option Nat :=
  (List.range (min BPB (s.sb.size - b))).find? fun bi => !bit data bi

/-- The outer loop of `balloc`, over the bitmap blocks. -/
def ballocFrom : List Nat → FsState → Nat × FsState
  | [], s => (0, s)
  | k :: rest, s =>
    let b := k * BPB
    let (data, s) := s.bread (BBLOCK s.sb b)
    match s.freeBit b data with
    | some bi => (b + bi, ((s.setData (BBLOCK s.sb b) (setBit data bi)).logWrite
        (BBLOCK s.sb b)).bzero (b + bi))
    | none => ballocFrom rest s

def balloc (s : FsState) : Nat × FsState := ballocFrom (List.range ((s.sb.size + BPB - 1) / BPB)) s

def setInode (s : FsState) (i : Nat) (ip : Inode) : FsState := { s with inode := update s.inode i ip }

def setAddr (s : FsState) (i k addr : Nat) : FsState :=
  s.setInode i { s.inode i with addrs := update (s.inode i).addrs k addr }

/-- `ip->addrs[k]`, allocating a block if there is none. -/
def loadAddr (s : FsState) (i k : Nat) : Nat × FsState :=
  if (s.inode i).addrs k = 0 then
    let (addr, s) := s.balloc
    if addr = 0 then (0, s) else (addr, s.setAddr i k addr)
  else ((s.inode i).addrs k, s)

/-- `a[bn]` in the indirect block, allocating a block if there is none; the buffer of the indirect block is
held meanwhile. -/
def loadEntry (s : FsState) (b bn : Nat) : Nat × FsState :=
  let (data, s) := s.bread b
  if data.le (4 * bn) 4 = 0 then
    let (addr, s) := s.balloc
    if addr = 0 then (0, s) else (addr, (s.setData b ((s.view b).store (4 * bn) 4 addr)).logWrite b)
  else (data.le (4 * bn) 4, s)

def bmap (s : FsState) (i bn : Nat) : Except String (Nat × FsState) :=
  if bn < NDIRECT then .ok (s.loadAddr i bn)
  else if bn - NDIRECT < NINDIRECT then
    let (addr, s) := s.loadAddr i NDIRECT
    .ok (if addr = 0 then (0, s) else s.loadEntry addr (bn - NDIRECT))
  else .error "bmap: out of range"

/-- The loop of `readi` into a buffer of the kernel. No more than `n` rounds are made. -/
def readLoop (i : Nat) : Nat → Nat → Nat → Nat → Bytes → FsState → Except String (Int × Bytes × FsState)
  | 0, _, tot, _, dst, s => .ok (tot, dst, s)
  | fuel + 1, off, tot, n, dst, s =>
    if tot < n then do
      let (addr, s) ← s.bmap i (off / BSIZE)
      if addr = 0 then return (tot, dst, s)
      let (data, s) := s.bread addr
      let m := min (n - tot) (BSIZE - off % BSIZE)
      readLoop i fuel (off + m) (tot + m) n (dst.splice tot m (data.drop (off % BSIZE))) s
    else .ok (tot, dst, s)

def readi (s : FsState) (i : Nat) (dst : Bytes) (off n : Nat) : Except String (Int × Bytes × FsState) :=
  let size := (s.inode i).size
  if size < off ∨ (off + n) % 2 ^ 32 < off then .ok (0, dst, s)
  else
    let n := if size < (off + n) % 2 ^ 32 then size - off else n
    readLoop i n off 0 n dst s

/-- `either_copyin` from user memory. -/
def eitherCopyin (pt : Pagetable) (mem : Memory) (dst : Bytes) (a src len : Nat) :
    Except String (Int × Bytes) := do
  let (result, _) ← Vm.copyin pt dst a src len mem
  return result

/-- The loop of `writei` from user memory. What a copy moves before a bad address stays in the buffer. -/
def writeLoop (pt : Pagetable) (mem : Memory) (i src : Nat) :
    Nat → Nat → Nat → Nat → FsState → Except String (Nat × Nat × FsState)
  | 0, off, tot, _, s => .ok (off, tot, s)
  | fuel + 1, off, tot, n, s =>
    if tot < n then do
      let (addr, s) ← s.bmap i (off / BSIZE)
      if addr = 0 then return (off, tot, s)
      let (data, s) := s.bread addr
      let m := min (n - tot) (BSIZE - off % BSIZE)
      let (r, data) ← eitherCopyin pt mem data (off % BSIZE) (src + tot) m
      let s := s.setData addr data
      if r = -1 then return (off, tot, s)
      writeLoop pt mem i src fuel (off + m) (tot + m) n (s.logWrite addr)
    else .ok (off, tot, s)

/-- `iupdate`; the fields of the inode are those that go to its block. -/
def iupdate (s : FsState) (i : Nat) : FsState := (s.bread (IBLOCK s.sb i)).2.logWrite (IBLOCK s.sb i)

def writei (pt : Pagetable) (mem : Memory) (s : FsState) (i src off n : Nat) :
    Except String (Int × FsState) :=
  if (s.inode i).size < off ∨ (off + n) % 2 ^ 32 < off then .ok (-1, s)
  else if MAXFILE * BSIZE < (off + n) % 2 ^ 32 then .ok (-1, s)
  else do
    let (off, tot, s) ← writeLoop pt mem i src n off 0 n s
    return (tot, (s.setInode i { s.inode i with size := max (s.inode i).size off }).iupdate i)

end FsState

/-- The most bytes that `filewrite` writes in one transaction. -/
def maxChunk : Nat := (MAXOPBLOCKS - 1 - 1 - 2) / 2 * BSIZE

/-- The loop of `filewrite` for an inode, which gives what it returns and, for each of its transactions, the
blocks passed to `log_write`. What others do between the transactions is left open: `env` gives the file
system and the offset of the file as the locks of each transaction find them. No more than `n` rounds are
made. -/
def filewriteLoop (pt : Pagetable) (mem : Memory) (i addr : Nat) (env : Nat → FsState × Nat) (n : Nat) :
    Nat → Nat → Nat → Except String (Int × List (List Nat))
  | 0, _, done => .ok (if done = n then n else -1, [])
  | fuel + 1, k, done =>
    if done < n then do
      let n1 := min (n - done) maxChunk
      let (s, off) := env k
      let (r, s) ← FsState.writei pt mem { s with written := [] } i (addr + done) off n1
      if r ≠ n1 then return (-1, [s.written])
      let (ret, transactions) ← filewriteLoop pt mem i addr env n fuel (k + 1) (done + n1)
      return (ret, s.written :: transactions)
    else .ok (if done = n then n else -1, [])

/-- `filewrite` of an inode, with a count that may be negative. -/
def filewrite (pt : Pagetable) (mem : Memory) (writable : Bool) (i addr : Nat)
    (env : Nat → FsState × Nat) (n : Int) :
    Except String (Int × List (List Nat)) :=
  if writable = false then .ok (-1, [])
  else if n < 0 then .ok (-1, [])
  else filewriteLoop pt mem i addr env n.toNat n.toNat 0 0

end Xv6.Buffers
