import Xv6.Content.Entries

namespace Xv6.Mkfs
open Function Content

def FSSIZE : Nat := 2000
def NINODES : Nat := 200
/-- `sizeof(struct dinode)` -/
def dinodeSize : Nat := 64
def IPB : Nat := BSIZE / dinodeSize
def BPB : Nat := BSIZE * 8
def nbitmap : Nat := FSSIZE / BPB + 1
def ninodeblocks : Nat := NINODES / IPB + 1
def nmeta : Nat := 2 + nlog + ninodeblocks + nbitmap
def nblocks : Nat := FSSIZE - nmeta
def inodestart : Nat := 2 + nlog
def bmapstart : Nat := 2 + nlog + ninodeblocks

def IBLOCK (i : Nat) : Nat := i / IPB + inodestart

/-- The fields of a `struct dinode` in memory, as stored by a little-endian host. -/
def dinType (din : Bytes) : Nat := din.le 0 2
def dinNlink (din : Bytes) : Nat := din.le 6 2
def dinSize (din : Bytes) : Nat := din.le 8 4
def dinAddr (din : Bytes) (k : Nat) : Nat := din.le (12 + 4 * k) 4

/-- A `struct superblock`. -/
def superblock : Bytes :=
  let put (m : Bytes) (k v : Nat) : Bytes := m.store (4 * k) 4 v
  put (put (put (put (put (put (put (put (fun _ => 0) 0 0x10203040) 1 FSSIZE) 2 nblocks) 3 NINODES) 4 nlog) 5 2)
    6 inodestart) 7 bmapstart

/-- The image being written and the counters `freeinode` and `freeblock`. -/
structure MkfsState where
  image : Nat → Bytes
  freeinode : Nat
  freeblock : Nat

/-- An input file: its name on the command line, whether it can be opened, and what each `read` of up to
`BSIZE` bytes returns until the end. -/
structure InputFile where
  argv : List UInt8
  opens : Bool
  reads : List (List UInt8)
  split : ∀ buf ∈ reads, buf.length ≤ BSIZE
  named : 0 ∉ argv

def InputFile.bytes (f : InputFile) : List UInt8 := f.reads.flatten

/-- Characters followed by NULs. -/
def ofList (l : List UInt8) : Bytes := fun x => l.getD x 0

namespace MkfsState

/-- A sector past the end of the image cannot be read. -/
def rsect (s : MkfsState) (sec : Nat) : Except String Bytes :=
  if sec < FSSIZE then .ok (s.image sec) else .error "read"

def wsect (s : MkfsState) (sec : Nat) (buf : Bytes) : MkfsState := { s with image := update s.image sec buf }

def rinode (s : MkfsState) (inum : Nat) : Except String Bytes := do
  return (← s.rsect (IBLOCK inum)).drop (inum % IPB * dinodeSize)

def winode (s : MkfsState) (inum : Nat) (din : Bytes) : Except String MkfsState := do
  let buf ← s.rsect (IBLOCK inum)
  return s.wsect (IBLOCK inum) (buf.splice (inum % IPB * dinodeSize) dinodeSize din)

def ialloc (s : MkfsState) (type : Nat) : Except String (Nat × MkfsState) := do
  let inum := s.freeinode
  let din := Bytes.store (Bytes.store (Bytes.store (fun _ => 0) 0 2 type) 6 2 1) 8 4 0
  return (inum, ← { s with freeinode := inum + 1 }.winode inum din)

/-- `din.addrs[k]`, which is given the next block if it is zero. -/
def allocAddr (s : MkfsState) (din : Bytes) (k : Nat) : Bytes × MkfsState :=
  if dinAddr din k = 0 then (din.store (12 + 4 * k) 4 s.freeblock, { s with freeblock := s.freeblock + 1 })
  else (din, s)

/-- The block of `iappend` for index `fbn`. -/
def blockFor (s : MkfsState) (din : Bytes) (fbn : Nat) : Except String (Nat × Bytes × MkfsState) :=
  if fbn < NDIRECT then
    let r := s.allocAddr din fbn
    .ok (dinAddr r.1 fbn, r.1, r.2)
  else do
    let r := s.allocAddr din NDIRECT
    let b := dinAddr r.1 NDIRECT
    let indirect ← r.2.rsect b
    if indirect.le (4 * (fbn - NDIRECT)) 4 = 0 then
      let indirect := indirect.store (4 * (fbn - NDIRECT)) 4 r.2.freeblock
      return (indirect.le (4 * (fbn - NDIRECT)) 4, r.1,
        { r.2 with freeblock := r.2.freeblock + 1 }.wsect b indirect)
    else return (indirect.le (4 * (fbn - NDIRECT)) 4, r.1, r.2)

/-- The loop of `iappend`, which makes no more than `n` rounds. -/
def appendLoop : Nat → Bytes → Nat → Bytes → Nat → MkfsState → Except String (Bytes × Nat × MkfsState)
  | 0, din, off, _, _, s => .ok (din, off, s)
  | fuel + 1, din, off, p, n, s =>
    if 0 < n then do
      let fbn := off / BSIZE
      if MAXFILE ≤ fbn then .error "assert: fbn < MAXFILE"
      else do
        let (x, din, s) ← s.blockFor din fbn
        let n1 := min n ((fbn + 1) * BSIZE - off)
        let buf ← s.rsect x
        appendLoop fuel din (off + n1) (p.drop n1) (n - n1) (s.wsect x (buf.splice (off - fbn * BSIZE) n1 p))
    else .ok (din, off, s)

def iappend (s : MkfsState) (inum : Nat) (p : Bytes) (n : Nat) : Except String MkfsState := do
  let din ← s.rinode inum
  let (din, off, s) ← appendLoop n din (dinSize din) p n s
  s.winode inum (din.store 8 4 off)

/-- The bits that `balloc` sets. -/
def setBits (used : Nat) : Bytes :=
  (List.range used).foldl (fun buf i => update buf (i / 8) (buf (i / 8) ||| UInt8.ofNat (2 ^ (i % 8))))
    fun _ => 0

def balloc (s : MkfsState) (used : Nat) : Except String MkfsState :=
  if BPB ≤ used then .error "assert: used < BPB" else .ok (s.wsect bmapstart (setBits used))

/-- The name without "user/". -/
def shortname (argv : List UInt8) : List UInt8 :=
  if argv.take 5 = [117, 115, 101, 114, 47] then argv.drop 5 else argv

/-- The name in the image: a leading "_" is skipped. -/
def imageName (argv : List UInt8) : List UInt8 :=
  if (shortname argv).head? = some 95 then (shortname argv).tail else shortname argv

/-- The round of `main` for one input file. -/
def addFile (s : MkfsState) (f : InputFile) : Except String MkfsState :=
  if 47 ∈ shortname f.argv then .error "assert: index(shortname, '/') == 0"
  else if !f.opens then .error "open"
  else if DIRSIZ < (imageName f.argv).length then .error "assert: strlen(shortname) <= DIRSIZ"
  else do
    let (inum, s) ← s.ialloc T_FILE
    let s ← s.iappend ROOTINO (dirent inum (ofList (imageName f.argv))) direntSize
    f.reads.foldlM (fun s buf => s.iappend inum (ofList buf) buf.length) s

/-- All sectors are zeroed and the superblock is written. -/
def start : MkfsState := ⟨update (fun _ _ => 0) 1 superblock, 1, nmeta⟩

/-- The root directory with its first two entries. -/
def makeRoot : Except String MkfsState := do
  let (rootino, s) ← start.ialloc T_DIR
  if rootino ≠ ROOTINO then .error "assert: rootino == ROOTINO"
  else do
    let s ← s.iappend rootino (dirent rootino dot) direntSize
    s.iappend rootino (dirent rootino dotdot) direntSize

/-- The end of `main`: the size of the root directory is rounded up and the bitmap is written. -/
def finish (s : MkfsState) : Except String MkfsState := do
  let din ← s.rinode ROOTINO
  let s ← s.winode ROOTINO (din.store 8 4 ((dinSize din / BSIZE + 1) * BSIZE))
  s.balloc s.freeblock

end MkfsState

/-- `main` of mkfs/mkfs.c, which stops at a failed assertion or read. -/
def main (files : List InputFile) : Except String MkfsState := do
  let s ← MkfsState.makeRoot
  (← files.foldlM MkfsState.addFile s).finish

/-- A `struct dinode` as the kernel reads it. -/
def inodeOf (din : Bytes) : Inode where
  type := dinType din
  nlink := dinNlink din
  size := dinSize din
  addrs k := if k ≤ NDIRECT then dinAddr din k else 0

/-- Bit `b` of a bitmap. -/
def bit (m : Bytes) (b : Nat) : Bool := (m (b / 8)).toNat.testBit (b % 8)

/-- An image as the kernel sees it, which finds the inodes and the bitmap by the superblock. -/
def ofImage (image : Nat → Bytes) : Volume where
  size := (image 1).le 4 4
  used b := bit (image (b / BPB + (image 1).le 28 4)) (b % BPB)
  block := image
  inode i :=
    if i < (image 1).le 12 4 then inodeOf ((image (i / IPB + (image 1).le 24 4)).drop (i % IPB * dinodeSize))
    else ⟨0, 0, 0, fun _ => 0⟩
  ballocs := 0
  logWrites := 0

end Xv6.Mkfs
