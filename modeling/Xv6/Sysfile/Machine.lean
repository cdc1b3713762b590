import Xv6.Namei.Machine

/-! The calls of kernel/sysfile.c that work on names, while no other process runs. -/

namespace Xv6.Sysfile
open Function Content Namei

/-- `FD_NONE`, `FD_PIPE`, `FD_INODE` and `FD_DEVICE` -/
inductive FileType where
  | none
  | pipe
  | inode
  | device
deriving DecidableEq

/-- `struct file` of kernel/file.h; pipes are known by numbers. -/
structure File where
  type : FileType
  ref : Nat
  readable : Bool
  writable : Bool
  pipe : Nat
  ip : Namei.Slot
  off : Nat
  major : Int

/-- What belongs to a process. -/
structure Proc where
  ofile : Fin NOFILE → Option (Fin NFILE)
  cwd : Namei.Slot

/-- The device `ROOTDEV` with the device numbers of its inodes, the inode table, `ftable`, the processes, the
one that runs, and `log.outstanding`; the calls of `pipeclose` are written down. -/
structure Kernel where
  volume : Volume
  major : Nat → Int
  minor : Nat → Int
  ninodes : Nat
  inode : Namei.Slot → Namei.Entry
  file : Fin NFILE → File
  proc : ProcId → Proc
  myproc : ProcId
  outstanding : Nat
  pipecloses : List (Nat × Bool)

namespace Kernel

/-- What path names are looked up in. -/
def fs (k : Kernel) : Fs := ⟨k.volume, k.inode, (k.proc k.myproc).cwd⟩

def setFs (fs : Fs) (k : Kernel) : Kernel :=
  { k with
    volume := fs.volume
    inode := fs.inode
    proc := update k.proc k.myproc { k.proc k.myproc with cwd := fs.cwd } }

def setFile (k : Kernel) (f : Fin NFILE) (file : File) : Kernel := { k with file := update k.file f file }

/-- The number of the inode that an entry stands for, and what is in it. -/
def inum (k : Kernel) (ip : Namei.Slot) : Nat := (k.inode ip).inum
def ip (k : Kernel) (ip : Namei.Slot) : Inode := k.volume.inode (k.inum ip)

end Kernel

abbrev SysM := StateT Kernel (Except String)

def onFs {α : Type} (m : FsM α) : SysM α := zoom Kernel.fs Kernel.setFs m

/-- `begin_op` and `end_op`, as far as `log.outstanding` goes. -/
def beginOp : SysM Unit := modify fun k => { k with outstanding := k.outstanding + 1 }
def endOp : SysM Unit := modify fun k => { k with outstanding := k.outstanding - 1 }

/-- An assignment to a `short`. -/
def short (n : Int) : Int := n.bmod 65536

/-- A change of the number of links, and `iupdate`. -/
def setNlink (ip : Namei.Slot) (nlink : Int) : SysM Unit :=
  modify fun k => { k with volume := k.volume.setNlink (k.inum ip) nlink }

/-! ### kernel/fs.c -/

/-- `dirlookup` with the offset of the entry. -/
def dirlookupOff (dp : Namei.Slot) (name : Bytes) : FsM (Option (Namei.Slot × Nat)) := do
  let inum := ((← get).inode dp).inum
  match ← onVolume fun v => v.dirlookup inum name with
  | none => return none
  | some (inum, off) => do
    let ip ← iget inum
    return some (ip, off)

/-- `dirlink` when the name is not there yet. -/
def addEntry (v : Volume) (d : Nat) (name : Bytes) (inum : Nat) : Except String (Int × Volume) := do
  let (off, v) ← Volume.emptyLoop d (v.inode d).size 0 v
  let (r, v) ← v.writei d (dirent inum name) none off direntSize
  return (if r = direntSize then 0 else -1, v)

def dirlink (dp : Namei.Slot) (name : Bytes) (inum : Nat) : FsM Int := do
  match ← dirlookup dp name with
  | some ip => do
    iput ip
    return -1
  | none => do
    let d := ((← get).inode dp).inum
    onVolume fun v => addEntry v d name inum

/-- The first inode that is free. -/
def Kernel.freeInode (k : Kernel) : Option Nat :=
  (List.range k.ninodes).find? fun inum => decide (0 < inum ∧ (k.volume.inode inum).type = 0)

def ialloc (type : Nat) : SysM (Option Namei.Slot) := do
  let k ← get
  match k.freeInode with
  | some inum => do
    set { k with
      volume := (k.volume.setInode inum ⟨type, 0, 0, fun _ => 0⟩).logWrite
      major := update k.major inum 0
      minor := update k.minor inum 0 }
    let ip ← onFs (iget inum)
    return some ip
  | none => return none

/-! ### kernel/file.c -/

def filealloc : SysM (Option (Fin NFILE)) := do
  let k ← get
  match (List.finRange NFILE).find? fun f => decide ((k.file f).ref = 0) with
  | some f => do
    set (k.setFile f { k.file f with ref := 1 })
    return some f
  | none => return none

def fileclose (f : Fin NFILE) : SysM Unit := do
  let k ← get
  let ff := k.file f
  if ff.ref < 1 then throw "fileclose"
  else if 0 < ff.ref - 1 then set (k.setFile f { ff with ref := ff.ref - 1 })
  else do
    set (k.setFile f { ff with ref := 0, type := .none })
    match ff.type with
    | .pipe => modify fun k => { k with pipecloses := (ff.pipe, ff.writable) :: k.pipecloses }
    | .inode | .device => do
      beginOp
      onFs (iput ff.ip)
      endOp
    | .none => pure ()

/-! ### kernel/sysfile.c -/

def fdalloc (f : Fin NFILE) : SysM (Option (Fin NOFILE)) := do
  let k ← get
  let p := k.proc k.myproc
  match (List.finRange NOFILE).find? fun fd => (p.ofile fd).isNone with
  | some fd => do
    set { k with proc := update k.proc k.myproc { p with ofile := update p.ofile fd (some f) } }
    return some fd
  | none => return none

/-- The entries "." and ".." of a new directory; whether they have been made. -/
def dotLinks (ip dp : Namei.Slot) : SysM Bool := do
  let k ← get
  if (← onFs (dirlink ip dot (k.inum ip))) < 0 then return false
  else if (← onFs (dirlink ip dotdot (k.inum dp))) < 0 then return false
  else return true

/-- The entries that `create` makes for a new inode. -/
def linkInode (dp ip : Namei.Slot) (name : Bytes) (type : Nat) : SysM Int := do
  let linked ← (if type = T_DIR then dotLinks ip dp else pure true : SysM Bool)
  if linked then do
    let inum := (← get).inum ip
    onFs (dirlink dp name inum)
  else return -1

/-- `create` from where it has allocated an inode. -/
def createInode (dp ip : Namei.Slot) (name : Bytes) (type : Nat) (major minor : Int) :
    SysM (Option Namei.Slot) := do
  onFs (ilock ip)
  modify fun k => { k with major := update k.major (k.inum ip) major, minor := update k.minor (k.inum ip) minor }
  setNlink ip 1
  let r ← linkInode dp ip name type
  if r < 0 then do
    setNlink ip 0
    onFs (iunlockput ip)
    onFs (iunlockput dp)
    return none
  else do
    if type = T_DIR then setNlink dp (short (((← get).ip dp).nlink + 1))
    onFs (iunlockput dp)
    return some ip

/-- `create`, with the lock of the inode; nothing has been stored in its `name` before. -/
def create (path : List UInt8) (type : Nat) (major minor : Int) : SysM (Option Namei.Slot) := do
  match ← onFs (nameiparent path fun _ => 0) with
  | (none, _) => return none
  | (some dp, name) => do
    onFs (ilock dp)
    match ← onFs (dirlookup dp name) with
    | some ip => do
      onFs (iunlockput dp)
      onFs (ilock ip)
      let t := ((← get).ip ip).type
      if type = T_FILE ∧ (t = T_FILE ∨ t = T_DEVICE) then return some ip
      else do
        onFs (iunlockput ip)
        return none
    | none => do
      match ← ialloc type with
      | none => do
        onFs (iunlockput dp)
        return none
      | some ip => createInode dp ip name type major minor

/-- The entry that `sys_link` makes; there is one device. -/
def newLink (ip : Namei.Slot) (new : List UInt8) : SysM Int := do
  match ← onFs (nameiparent new fun _ => 0) with
  | (none, _) => return -1
  | (some dp, name) => do
    onFs (ilock dp)
    let inum := (← get).inum ip
    let r ← onFs (dirlink dp name inum)
    onFs (iunlockput dp)
    return r

def sysLink (old new : Option (List UInt8)) : SysM Int := do
  match old, new with
  | some old, some new => do
    beginOp
    match ← onFs (namei old) with
    | none => do
      endOp
      return -1
    | some ip => do
      onFs (ilock ip)
      if ((← get).ip ip).type = T_DIR then do
        onFs (iunlockput ip)
        endOp
        return -1
      else do
        setNlink ip (short (((← get).ip ip).nlink + 1))
        onFs (iunlock ip)
        let r ← newLink ip new
        if r < 0 then do
          onFs (ilock ip)
          setNlink ip (short (((← get).ip ip).nlink - 1))
          onFs (iunlockput ip)
          endOp
          return -1
        else do
          onFs (iput ip)
          endOp
          return 0
  | _, _ => return -1

def sysUnlink (path : Option (List UInt8)) : SysM Int := do
  match path with
  | none => return -1
  | some path => do
    beginOp
    match ← onFs (nameiparent path fun _ => 0) with
    | (none, _) => do
      endOp
      return -1
    | (some dp, name) => do
      onFs (ilock dp)
      let bad : SysM Int := do
        onFs (iunlockput dp)
        endOp
        return -1
      if namecmp name dot = 0 ∨ namecmp name dotdot = 0 then bad
      else
        match ← onFs (dirlookupOff dp name) with
        | none => bad
        | some (ip, off) => do
          onFs (ilock ip)
          let k ← get
          let i := k.inum ip
          let d := k.inum dp
          if (k.ip ip).nlink < 1 then throw "unlink: nlink < 1"
          else
            let empty ← (if (k.ip ip).type = T_DIR then onFs (onVolume fun v =>
              v.isdirempty i) else pure true : SysM Bool)
            if !empty then do
              onFs (iunlockput ip)
              bad
            else
              let r ← onFs (onVolume fun v => v.writei d (fun _ => 0) none off direntSize)
              if r ≠ direntSize then throw "unlink: writei"
              else do
                if ((← get).ip ip).type = T_DIR then setNlink dp (short (((← get).ip dp).nlink - 1))
                onFs (iunlockput dp)
                setNlink ip (short (((← get).ip ip).nlink - 1))
                onFs (iunlockput ip)
                endOp
                return 0

/-! The bits of kernel/fcntl.h. -/

def O_WRONLY : BitVec 32 := 0x001
def O_RDWR : BitVec 32 := 0x002
def O_CREATE : BitVec 32 := 0x200
def O_TRUNC : BitVec 32 := 0x400

/-- The inode that `sys_open` opens, with its lock. -/
def openInode (path : List UInt8) (omode : BitVec 32) : SysM (Option Namei.Slot) :=
  if omode &&& O_CREATE ≠ 0 then create path T_FILE 0 0
  else do
    match ← onFs (namei path) with
    | none => return none
    | some ip => do
      onFs (ilock ip)
      if ((← get).ip ip).type = T_DIR ∧ omode ≠ 0 then do
        onFs (iunlockput ip)
        return none
      else return some ip

/-- A file and a descriptor for it. -/
def openFile : SysM (Option (Fin NFILE × Fin NOFILE)) := do
  match ← filealloc with
  | none => return none
  | some f => do
    match ← fdalloc f with
    | none => do
      fileclose f
      return none
    | some fd => return some (f, fd)

def sysOpen (path : Option (List UInt8)) (omode : BitVec 32) : SysM Int := do
  match path with
  | none => return -1
  | some path => do
    beginOp
    match ← openInode path omode with
    | none => do
      endOp
      return -1
    | some ip => do
      let k ← get
      let major := k.major (k.inum ip)
      if (k.ip ip).type = T_DEVICE ∧ (major < 0 ∨ (NDEV : Int) ≤ major) then do
        onFs (iunlockput ip)
        endOp
        return -1
      else
        match ← openFile with
        | none => do
          onFs (iunlockput ip)
          endOp
          return -1
        | some (f, fd) => do
          modify fun k =>
            let file := k.file f
            let file := if (k.ip ip).type = T_DEVICE then { file with type := .device, major }
              else { file with type := .inode, off := 0 }
            k.setFile f { file with
              ip
              readable := omode &&& O_WRONLY = 0
              writable := omode &&& O_WRONLY ≠ 0 ∨ omode &&& O_RDWR ≠ 0 }
          if omode &&& O_TRUNC ≠ 0 ∧ (k.ip ip).type = T_FILE then onFs (onVolume fun v =>
            do return ((), ← v.itrunc (k.inum ip)))
          onFs (iunlock ip)
          endOp
          return fd.val

def sysMkdir (path : Option (List UInt8)) : SysM Int := do
  beginOp
  match ← (match path with | none => pure none | some path => create path T_DIR 0 0) with
  | none => do
    endOp
    return -1
  | some ip => do
    onFs (iunlockput ip)
    endOp
    return 0

def sysMknod (path : Option (List UInt8)) (major minor : BitVec 32) : SysM Int := do
  beginOp
  match ← (match path with
    | none => pure none
    | some path => create path T_DEVICE (short major.toInt) (short minor.toInt)) with
  | none => do
    endOp
    return -1
  | some ip => do
    onFs (iunlockput ip)
    endOp
    return 0

def sysChdir (path : Option (List UInt8)) : SysM Int := do
  beginOp
  match ← (match path with | none => pure none | some path => onFs (namei path)) with
  | none => do
    endOp
    return -1
  | some ip => do
    onFs (ilock ip)
    if ((← get).ip ip).type ≠ T_DIR then do
      onFs (iunlockput ip)
      endOp
      return -1
    else do
      onFs (iunlock ip)
      let k ← get
      onFs (iput (k.proc k.myproc).cwd)
      endOp
      modify fun k => { k with proc := update k.proc k.myproc { k.proc k.myproc with cwd := ip } }
      return 0

/-- What `argstr` gives: the bytes of a string before its NUL. -/
abbrev Path := { path : List UInt8 // ∀ b ∈ path, b ≠ 0 }

/-- A system call with its arguments; a string that cannot be fetched is none. -/
inductive Call where
  | sysLink (old new : Option Path)
  | sysUnlink (path : Option Path)
  | sysOpen (path : Option Path) (omode : BitVec 32)
  | sysMkdir (path : Option Path)
  | sysMknod (path : Option Path) (major minor : BitVec 32)
  | sysChdir (path : Option Path)

def Call.run : Call → SysM Int
  | .sysLink old new => Sysfile.sysLink (old.map Subtype.val) (new.map Subtype.val)
  | .sysUnlink path => Sysfile.sysUnlink (path.map Subtype.val)
  | .sysOpen path omode => Sysfile.sysOpen (path.map Subtype.val) omode
  | .sysMkdir path => Sysfile.sysMkdir (path.map Subtype.val)
  | .sysMknod path major minor => Sysfile.sysMknod (path.map Subtype.val) major minor
  | .sysChdir path => Sysfile.sysChdir (path.map Subtype.val)

end Xv6.Sysfile
