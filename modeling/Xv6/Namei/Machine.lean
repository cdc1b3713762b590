import Xv6.Content.Entries
import Xv6.Lib.Gives

/-! Path names in kernel/fs.c, with the references that a look-up takes. -/

namespace Xv6.Namei
open Function Content

abbrev Slot := Fin NINODE

/-- An entry of the inode table. The other fields of `struct inode` are those of the volume. -/
structure Entry where
  inum : Nat
  ref : Nat
  valid : Bool
  locked : Bool

/-- The device `ROOTDEV`, the inode table, and the directory of the process that runs. -/
structure Fs where
  volume : Volume
  inode : Slot → Entry
  cwd : Slot

abbrev FsM := StateT Fs (Except String)

def onVolume {α : Type} (m : Volume → Except String (α × Volume)) : FsM α :=
  zoom Fs.volume (fun volume s => { s with volume }) m

def setEntry (ip : Slot) (f : Entry → Entry) : FsM Unit :=
  modify fun s => { s with inode := update s.inode ip (f (s.inode ip)) }

namespace Fs

/-- The entry in use that stands for an inode, if there is one. -/
def lookup (s : Fs) (inum : Nat) : Option Slot :=
  (List.finRange NINODE).find? fun ip => decide (0 < (s.inode ip).ref ∧ (s.inode ip).inum = inum)

def empty (s : Fs) : Option Slot := (List.finRange NINODE).find? fun ip => decide ((s.inode ip).ref = 0)

end Fs

def iget (inum : Nat) : FsM Slot := do
  let s ← get
  match s.lookup inum with
  | some ip => do
    setEntry ip fun e => { e with ref := e.ref + 1 }
    return ip
  | none =>
    match s.empty with
    | some ip => do
      setEntry ip fun e => { e with inum, ref := 1, valid := false }
      return ip
    | none => throw "iget: no inodes"

def idup (ip : Slot) : FsM Slot := do
  setEntry ip fun e => { e with ref := e.ref + 1 }
  return ip

/-- `ilock` while no other process runs, so that the lock is never released if it is held. -/
def ilock (ip : Slot) : FsM Unit := do
  let s ← get
  let e := s.inode ip
  if e.ref < 1 then throw "ilock"
  else if e.locked then throw "acquiresleep"
  else if !e.valid ∧ (s.volume.inode e.inum).type = 0 then throw "ilock: no type"
  else setEntry ip fun e => { e with locked := true, valid := true }

def iunlock (ip : Slot) : FsM Unit := do
  let e := (← get).inode ip
  if !e.locked ∨ e.ref < 1 then throw "iunlock" else setEntry ip fun e => { e with locked := false }

/-- `iput` of the last reference to an inode without links. -/
def free (ip : Slot) : FsM Unit := do
  let e := (← get).inode ip
  if e.locked then throw "acquiresleep"
  else do
    onVolume fun v => do
      let v ← v.itrunc e.inum
      return ((), (v.setInode e.inum { v.inode e.inum with type := 0 }).logWrite)
    setEntry ip fun e => { e with valid := false }

def iput (ip : Slot) : FsM Unit := do
  let s ← get
  let e := s.inode ip
  if e.ref = 1 ∧ e.valid ∧ (s.volume.inode e.inum).nlink = 0 then free ip
  setEntry ip fun e => { e with ref := e.ref - 1 }

def iunlockput (ip : Slot) : FsM Unit := do
  iunlock ip
  iput ip

def dirlookup (dp : Slot) (name : Bytes) : FsM (Option Slot) := do
  let inum := ((← get).inode dp).inum
  match ← onVolume fun v => v.dirlookup inum name with
  | none => return none
  | some (inum, _) => do
    let ip ← iget inum
    return some ip

/-! ### Paths, as the characters before the NUL -/

def slash : UInt8 := 47

/-- The rest of the path and what is in `name`, or none if there is no name in the path. -/
def skipelem (path : List UInt8) (name : Bytes) : Option (List UInt8 × Bytes) :=
  let path := path.dropWhile (· = slash)
  if path = [] then none
  else
    let elem := path.takeWhile (· ≠ slash)
    let path := path.dropWhile (· ≠ slash)
    let name :=
      if DIRSIZ ≤ elem.length then name.splice 0 DIRSIZ (Bytes.ofList elem)
      else update (name.splice 0 elem.length (Bytes.ofList elem)) elem.length 0
    some (path.dropWhile (· = slash), name)

/-- The loop of `namex`, for no more than `fuel` rounds, with what is in `name`. -/
def namexLoop (nameiparent : Bool) : Nat → List UInt8 → Bytes → Slot → FsM (Option Slot × Bytes)
  | 0, _, _, _ => throw "no fuel"
  | fuel + 1, path, name, ip =>
    match skipelem path name with
    | none =>
      if nameiparent then do
        iput ip
        return (none, name)
      else return (some ip, name)
    | some (path, name) => do
      ilock ip
      let s ← get
      if (s.volume.inode (s.inode ip).inum).type ≠ T_DIR then do
        iunlockput ip
        return (none, name)
      else if nameiparent ∧ path = [] then do
        iunlock ip
        return (some ip, name)
      else
        match ← dirlookup ip name with
        | none => do
          iunlockput ip
          return (none, name)
        | some next => do
          iunlockput ip
          namexLoop nameiparent fuel path name next

def namex (path : List UInt8) (nameiparent : Bool) (name : Bytes) : FsM (Option Slot × Bytes) := do
  let ip ← if path.head? = some slash then iget ROOTINO else idup (← get).cwd
  namexLoop nameiparent (path.length + 1) path name ip

/-- `namei`; nothing has been stored in its `name` before. -/
def namei (path : List UInt8) : FsM (Option Slot) := do
  let (ip, _) ← namex path false fun _ => 0
  return ip

/-- `nameiparent`, with what is in `name` afterwards. -/
def nameiparent (path : List UInt8) (name : Bytes) : FsM (Option Slot × Bytes) := namex path true name

end Xv6.Namei
