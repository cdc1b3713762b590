/-! The constants of kernel/param.h, kernel/fs.h and mkfs/mkfs.c that the model uses. -/

namespace Xv6

def NOFILE : Nat := 16
def NFILE : Nat := 100
def NINODE : Nat := 50
def NDEV : Nat := 10
def NPROC : Nat := 64
def ROOTDEV : Nat := 1
def MAXOPBLOCKS : Nat := 10
def LOGSIZE : Nat := MAXOPBLOCKS * 3
/-- `nlog` of mkfs/mkfs.c, which becomes `log.size`. -/
def nlog : Nat := LOGSIZE
def NBUF : Nat := MAXOPBLOCKS * 3

def ROOTINO : Nat := 1
def BSIZE : Nat := 1024
def NDIRECT : Nat := 12
def NINDIRECT : Nat := BSIZE / 4
def MAXFILE : Nat := NDIRECT + NINDIRECT
def DIRSIZ : Nat := 14
/-- `sizeof(struct dirent)` -/
def direntSize : Nat := 16

/-- Processes, as many as there are. -/
abbrev Pid := Nat

/-- The entries of the process table. -/
abbrev ProcId := Fin NPROC

/-- The first process, `initproc`. -/
def initproc : ProcId := ⟨0, by decide⟩

theorem NINODE_pos : 0 < NINODE := by decide

theorem one_lt_NPROC : 1 < NPROC := by decide

end Xv6
