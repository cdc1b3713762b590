import Xv6.Fs.Inode

namespace Xv6.Fs
open Threads

/-! ## kernel/fs.c -/

def ilock (ip : Slot) : FsProg Unit := do
  (FsAct.acquiresleep ip).run
  (FsAct.load ip).run

def iunlock (ip : Slot) : FsProg Unit := (FsAct.releasesleep ip).run

def iput (ip : Slot) : FsProg Unit := do
  if ← (FsAct.iput ip).run then
    (FsAct.free ip).run
    (FsAct.unref ip).run

def iunlockput (ip : Slot) : FsProg Unit := do
  iunlock ip
  iput ip

/-- The rest of the loop of `ialloc`, for a number of inodes from `inum` on. -/
def iallocFrom (type : FileType) : Nat → Nat → FsProg (Option Slot)
  | 0, _ => pure none
  | n + 1, inum => do
    if ← (FsAct.claim inum type).run then
      return some (← (FsAct.iget inum).run)
    else iallocFrom type n (inum + 1)

def ialloc (type : FileType) : FsProg (Option Slot) := do
  iallocFrom type ((← FsAct.ninodes.run) - 1) 1

/-- `dirlink`, returning whether it succeeded. -/
def dirlink (dp : Slot) (name : Name) (inum : Nat) : FsProg Bool := do
  match ← (FsAct.dirlookup dp name).run with
  | some (_, ip) => do
    iput ip
    return false
  | none => (FsAct.writeDirent dp name inum).run

/-- `skipelem`, returning the rest of the path and the element. -/
def skipelem (path : List Char) : Option (List Char × Name) :=
  match path.dropWhile (· = '/') with
  | [] => none
  | s => some ((s.dropWhile (· ≠ '/')).dropWhile (· = '/'), (s.takeWhile (· ≠ '/')).take DIRSIZ)

/-- The elements that repeated `skipelem` finds; each one shortens the path. -/
def elements : Nat → List Char → List Name
  | 0, _ => []
  | fuel + 1, path => match skipelem path with
    | none => []
    | some (rest, name) => name :: elements fuel rest

/-- The loop of `namex`, for the elements still to come. With `nameiparent` the answer is the
parent and the last element. -/
def namexFrom (nameiparent : Bool) : Slot → List Name → FsProg (Option (Slot × Name))
  | ip, [] =>
    if nameiparent then do
      iput ip
      return none
    else return some (ip, [])
  | ip, name :: rest => do
    ilock ip
    if (← (FsAct.attr ip).run).type ≠ .dir then do
      iunlockput ip
      return none
    else if nameiparent && rest.isEmpty then do  -- Stop one level early.
      iunlock ip
      return some (ip, name)
    else match ← (FsAct.dirlookup ip name).run with
      | none => do
        iunlockput ip
        return none
      | some (_, next) => do
        iunlockput ip
        namexFrom nameiparent next rest

def namex (path : List Char) (nameiparent : Bool) : FsProg (Option (Slot × Name)) := do
  let ip ← if path.head? = some '/' then (FsAct.iget ROOTINO).run else do
    let ip ← FsAct.cwd.run
    (FsAct.idup ip).run
    pure ip
  namexFrom nameiparent ip (elements path.length path)

def namei (path : List Char) : FsProg (Option (Slot × Name)) := namex path false

def nameiparent (path : List Char) : FsProg (Option (Slot × Name)) := namex path true

/-! ## kernel/file.c, for a file that refers to an inode -/

def fileclose (ip : Slot) : FsProg Unit := do
  FsAct.beginOp.run
  iput ip
  FsAct.endOp.run

/-! ## kernel/sysfile.c

The arguments are what `argstr` and `argint` make of the user's, `none` if `argstr` fails. Each
call runs from its first to its last step that matters here, its own answer left out. -/

def sysLink (old new : Option (List Char)) : FsProg Unit :=
  match old, new with
  | some old, some new => do
    FsAct.beginOp.run
    match ← namei old with
    | none => FsAct.endOp.run
    | some (ip, _) => do
      ilock ip
      let attr ← (FsAct.attr ip).run
      if attr.type = .dir then do
        iunlockput ip
        FsAct.endOp.run
      else do
        let inum ← (FsAct.inum ip).run
        (FsAct.incNlink ip).run
        (FsAct.iupdate ip).run
        iunlock ip
        let bad : FsProg Unit := do
          ilock ip
          (FsAct.decNlink ip).run
          (FsAct.iupdate ip).run
          iunlockput ip
          FsAct.endOp.run
        match ← nameiparent new with
        | none => bad
        | some (dp, name) => do
          ilock dp
          if ← dirlink dp name inum then do
            iunlockput dp
            iput ip
            FsAct.endOp.run
          else do
            iunlockput dp
            bad
  | _, _ => pure ()

def sysUnlink (path : Option (List Char)) : FsProg Unit :=
  match path with
  | none => pure ()
  | some path => do
    FsAct.beginOp.run
    match ← nameiparent path with
    | none => FsAct.endOp.run
    | some (dp, name) => do
      let bad : FsProg Unit := do
        iunlockput dp
        FsAct.endOp.run
      ilock dp
      -- Cannot unlink "." or "..".
      if name = dot ∨ name = dotdot then bad
      else match ← (FsAct.dirlookup dp name).run with
        | none => bad
        | some (off, ip) => do
          ilock ip
          (FsAct.checkLinked ip).run
          let attr ← (FsAct.attr ip).run
          let full : Bool ← if attr.type = .dir then (! ·) <$> (FsAct.isdirempty ip).run else pure false
          if full then do
            iunlockput ip
            bad
          else do
            (FsAct.clearDirent dp off).run
            if attr.type = .dir then do
              (FsAct.decNlink dp).run
              (FsAct.iupdate dp).run
            iunlockput dp
            (FsAct.decNlink ip).run
            (FsAct.iupdate ip).run
            iunlockput ip
            FsAct.endOp.run

/-- `create`, returning a locked inode. -/
def create (path : List Char) (type : FileType) (major minor : Int) : FsProg (Option Slot) := do
  match ← nameiparent path with
  | none => return none
  | some (dp, name) => do
    ilock dp
    match ← (FsAct.dirlookup dp name).run with
    | some (_, ip) => do
      iunlockput dp
      ilock ip
      let attr ← (FsAct.attr ip).run
      if type = .file ∧ (attr.type = .file ∨ attr.type = .device) then return some ip
      else do
        iunlockput ip
        return none
    | none => do
      match ← ialloc type with
      | none => do
        iunlockput dp
        return none
      | some ip => do
        ilock ip
        (FsAct.initInode ip major minor).run
        (FsAct.iupdate ip).run
        let fail : FsProg (Option Slot) := do
          (FsAct.clearNlink ip).run
          (FsAct.iupdate ip).run
          iunlockput ip
          iunlockput dp
          return none
        let inum ← (FsAct.inum ip).run
        -- Create . and .. entries.
        let dots : Bool ← if type = .dir then do
            if ← dirlink ip dot inum then dirlink ip dotdot (← (FsAct.inum dp).run)
            else pure false
          else pure true
        if !dots then fail
        else if !(← dirlink dp name inum) then fail
        else do
          if type = .dir then do  -- now that success is guaranteed:
            (FsAct.incNlink dp).run  -- for ".."
            (FsAct.iupdate dp).run
          iunlockput dp
          return some ip

def O_RDONLY : Nat := 0x000
def O_CREATE : Nat := 0x200
def O_TRUNC : Nat := 0x400

/-- `sys_open` from the locked inode on. -/
def openInode (ip : Slot) (omode : Nat) : FsProg Unit := do
  let attr ← (FsAct.attr ip).run
  if attr.type = .device ∧ (attr.major < 0 ∨ attr.major ≥ NDEV) then do
    iunlockput ip
    FsAct.endOp.run
  else match ← (FsAct.fdalloc ip).run with
    | none => do
      iunlockput ip
      FsAct.endOp.run
    | some _ => do
      if omode &&& O_TRUNC ≠ 0 ∧ attr.type = .file then (FsAct.itrunc ip).run
      iunlock ip
      FsAct.endOp.run

def sysOpen (path : Option (List Char)) (omode : Nat) : FsProg Unit :=
  match path with
  | none => pure ()
  | some path => do
    FsAct.beginOp.run
    if omode &&& O_CREATE ≠ 0 then
      match ← create path .file 0 0 with
      | none => FsAct.endOp.run
      | some ip => openInode ip omode
    else
      match ← namei path with
      | none => FsAct.endOp.run
      | some (ip, _) => do
        ilock ip
        let attr ← (FsAct.attr ip).run
        if attr.type = .dir ∧ omode ≠ O_RDONLY then do
          iunlockput ip
          FsAct.endOp.run
        else openInode ip omode

/-- `sys_mkdir` and `sys_mknod` after their arguments. -/
def makeNode (path : Option (List Char)) (type : FileType) (major minor : Int) : FsProg Unit := do
  FsAct.beginOp.run
  match path with
  | none => FsAct.endOp.run
  | some path => do
    match ← create path type major minor with
    | none => FsAct.endOp.run
    | some ip => do
      iunlockput ip
      FsAct.endOp.run

def sysMkdir (path : Option (List Char)) : FsProg Unit := makeNode path .dir 0 0

def sysMknod (path : Option (List Char)) (major minor : Int) : FsProg Unit :=
  makeNode path .device (toShort major) (toShort minor)

def sysChdir (path : Option (List Char)) : FsProg Unit := do
  FsAct.beginOp.run
  match path with
  | none => FsAct.endOp.run
  | some path => do
    match ← namei path with
    | none => FsAct.endOp.run
    | some (ip, _) => do
      ilock ip
      if (← (FsAct.attr ip).run).type ≠ .dir then do
        iunlockput ip
        FsAct.endOp.run
      else do
        iunlock ip
        iput (← FsAct.cwd.run)
        FsAct.endOp.run
        (FsAct.setCwd (some ip)).run

def sysClose (fd : Nat) : FsProg Unit := do
  match ← (FsAct.ofile fd).run with
  | none => pure ()
  | some ip => do
    (FsAct.setOfile fd none).run
    fileclose ip

/-- The part of `exit` of kernel/proc.c that gives back inodes. -/
def exit : FsProg Unit := do
  Prog.forEach (fun fd => do
    match ← (FsAct.ofile fd).run with
    | none => pure ()
    | some ip => do
      fileclose ip
      (FsAct.setOfile fd none).run) (List.range NOFILE)
  FsAct.beginOp.run
  iput (← FsAct.cwd.run)
  FsAct.endOp.run
  (FsAct.setCwd none).run

inductive Syscall where
  | open (path : Option (List Char)) (omode : Nat)
  | mkdir (path : Option (List Char))
  | mknod (path : Option (List Char)) (major minor : Int)
  | link (old new : Option (List Char))
  | unlink (path : Option (List Char))
  | chdir (path : Option (List Char))
  | close (fd : Nat)
  | exit

def Syscall.code : Syscall → FsProg Unit
  | .open path omode => sysOpen path omode
  | .mkdir path => sysMkdir path
  | .mknod path major minor => sysMknod path major minor
  | .link old new => sysLink old new
  | .unlink path => sysUnlink path
  | .chdir path => sysChdir path
  | .close fd => sysClose fd
  | .exit => Xv6.Fs.exit

/-! ## kernel/exec.c, as far as it is about inodes -/

/-- `exec` reads the program from an inode that it has locked. -/
def sysExec (path : Option (List Char)) : FsProg Unit :=
  match path with
  | none => pure ()
  | some path => do
    FsAct.beginOp.run
    match ← namei path with
    | none => FsAct.endOp.run
    | some (ip, _) => do
      ilock ip
      iunlockput ip
      FsAct.endOp.run

/-- The system calls that use inodes. -/
inductive FsCall where
  | syscall (c : Syscall)
  | exec (path : Option (List Char))

def fsCalls : Calls Pid FsState FsCall FsAct FsAct.Resp where
  code
    | .syscall c => c.code
    | .exec path => sysExec path
  legal t _ _ := t < NPROC

end Xv6.Fs
