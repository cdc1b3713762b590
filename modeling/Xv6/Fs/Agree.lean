import Xv6.Lib.Agree
import Xv6.Fs.Calls
import Xv6.Itable.Machine

/-! The functions of the inode table do the same as in the model of the table alone. -/

namespace Xv6.Fs
open Threads Function
open Itable (ItState ItAct itMachine)

/-- The number of a type in kernel/stat.h, or 0. -/
def FileType.code : FileType → Nat
  | .free => 0
  | .dir => 1
  | .file => 2
  | .device => 3

/-- The fields that both models have. -/
structure Attr.Is (a : Attr) (d : Itable.Dinode) : Prop where
  type : d.type = a.type.code
  major : d.major = a.major
  minor : d.minor = a.minor
  nlink : d.nlink = a.nlink

structure MemInode.Is (i : MemInode) (j : Itable.Inode) : Prop where
  key : j.key = (ROOTDEV, i.inum)
  ref : j.ref = i.ref
  locked : j.locked = i.locked
  valid : j.valid = i.valid
  attr : i.attr.Is j.attr

/-- The inode tables and the inodes on disk are the same, and nobody is in a critical section. -/
structure SameTable (s : FsState) (u : ItState) : Prop where
  ninodes : u.ninodes = s.ninodes
  lock : u.lock = none
  inode (ip) : (s.inode ip).Is (u.inode ip)
  disk (inum) : (s.disk inum).attr.Is (u.disk (ROOTDEV, inum))

section Agree

variable {s : FsState} {u : ItState} {t : Pid} {room : Bool} {ip : Slot} {inum : Nat} {i : MemInode}
  {j : Itable.Inode}

theorem FileType.code_free (type : FileType) : type.code = 0 ↔ type = .free := by cases type <;> decide

theorem SameTable.put {users users' : List Pid} {stage : Itable.Stage} {dirty : Bool} (same : SameTable s u)
    (entry : i.Is j) :
    SameTable (s.put ip i users) (u.put ip j users' stage dirty) := by
  refine ⟨same.ninodes, same.lock, fun b => ?_, same.disk⟩
  show MemInode.Is (update s.inode ip i b) (update u.inode ip j b)
  by_cases here : b = ip
  · rw [here, update_self, update_self]
    exact entry
  · rw [update_of_ne here, update_of_ne here]
    exact same.inode b

theorem SameTable.lookup (same : SameTable s u) (inum : Nat) : u.lookup (ROOTDEV, inum) = s.lookup inum := by
  have entry (b : Slot) : (decide (0 < (u.inode b).ref) && (u.inode b).key == (ROOTDEV, inum)) =
      (decide (0 < (s.inode b).ref) && (s.inode b).inum == inum) := by
    rw [(same.inode b).ref, (same.inode b).key, Bool.eq_iff_iff]
    simp
  exact congrArg (fun p => (List.finRange NINODE).find? p) (funext entry)

theorem SameTable.empty (same : SameTable s u) : u.empty = s.empty := by
  have entry (b : Slot) : ((u.inode b).ref == 0) = ((s.inode b).ref == 0) := by rw [(same.inode b).ref]
  exact congrArg (fun p => (List.finRange NINODE).find? p) (funext entry)

theorem SameTable.unlock (same : SameTable s u) : SameTable s { u with lock := none } :=
  ⟨same.ninodes, rfl, same.inode, same.disk⟩

theorem SameTable.acquire (same : SameTable s u) :
    itMachine t () .acquire u = .ok () { u with lock := some t } := by
  simp [itMachine, same.lock]

theorem SameTable.hit (same : SameTable s u) (ip : Slot) : SameTable (s.hit t ip) (u.hit t ip) :=
  have entry := same.inode ip
  same.put ⟨entry.key, congrArg (· + 1) entry.ref, entry.locked, entry.valid, entry.attr⟩

theorem SameTable.drop (same : SameTable s u) (ip : Slot) : SameTable (s.drop t ip) (u.drop t ip) :=
  have entry := same.inode ip
  same.put ⟨entry.key, congrArg (· - 1) entry.ref, entry.locked, entry.valid, entry.attr⟩

theorem iget_agrees (inum : Nat) : Agree SameTable ((FsAct.iget inum).run.alone fsMachine t room)
    ((Itable.iget (ROOTDEV, inum)).alone itMachine t ()) := by
  intro s u same
  have lookup : ItState.lookup { u with lock := some t } (ROOTDEV, inum) = s.lookup inum := same.lookup inum
  have empty : ItState.empty { u with lock := some t } = s.empty := same.empty
  rw [FsAct.run, Prog.alone_step]
  unfold Itable.iget ItAct.run
  rw [Prog.alone_seq same.acquire, Prog.alone_bind, Prog.alone_step]
  simp only [fsMachine, itMachine, FsState.iget, ItState.find, lookup, empty]
  cases s.lookup inum with
  | some ip => exact .ok (same.hit ip).unlock
  | none =>
    cases s.empty with
    | some ip =>
      have entry := same.inode ip
      have new : MemInode.Is { s.inode ip with inum, ref := 1, valid := false }
        { u.inode ip with key := (ROOTDEV, inum), ref := 1, valid := false } :=
          ⟨rfl, rfl, entry.locked, rfl, entry.attr⟩
      exact .ok (same.put new).unlock
    | none => exact .panic _

theorem idup_agrees (ip : Slot) : Agree SameTable ((FsAct.idup ip).run.alone fsMachine t room)
    ((Itable.idup ip).alone itMachine t ()) := by
  intro s u same
  rw [FsAct.run, Prog.alone_step]
  unfold Itable.idup ItAct.run
  rw [Prog.alone_seq same.acquire]
  exact .ok (same.hit ip).unlock

theorem load_agrees (ip : Slot) : Agree SameTable ((FsAct.load ip).run.alone fsMachine t room)
    ((ItAct.load ip).run.alone itMachine t ()) := by
  intro s u same
  have entry := same.inode ip
  have dinode : (s.dinode ip).attr.Is (u.dinode ip) := by
    unfold ItState.dinode
    rw [entry.key]
    exact same.disk _
  have type : (u.dinode ip).type = 0 ↔ (s.dinode ip).attr.type = .free :=
    by rw [dinode.type, FileType.code_free]
  rw [FsAct.run, ItAct.run, Prog.alone_step, Prog.alone_step]
  simp only [fsMachine, itMachine, entry.valid, type]
  split
  · exact .ok same
  split
  · exact .panic _
  · have new : MemInode.Is { s.inode ip with attr := (s.dinode ip).attr, valid := true }
      { u.inode ip with attr := u.dinode ip, valid := true } :=
        ⟨entry.key, entry.ref, entry.locked, rfl, dinode⟩
    have put : SameTable (s.load ip) (u.setInode ip { u.inode ip with
        attr := u.dinode ip, valid := true }) := same.put new
    exact .ok ⟨put.ninodes, put.lock, put.inode, put.disk⟩

theorem ilock_agrees (ip : Slot) :
    Agree SameTable ((ilock ip).alone fsMachine t room) ((Itable.ilock ip).alone itMachine t ()) := by
  intro s u same
  have entry := same.inode ip
  have locked : SameTable (s.lock ip (some t)) (u.setInode ip { u.inode ip with locked := some t }) :=
    same.put ⟨entry.key, entry.ref, rfl, entry.valid, entry.attr⟩
  unfold ilock Itable.ilock
  rw [Prog.alone_bind, FsAct.run, Prog.alone_step, Prog.alone_bind, ItAct.run, Prog.alone_step]
  simp only [fsMachine, itMachine, entry.ref]
  by_cases unused : (s.inode ip).ref < 1
  · rw [if_pos unused, if_pos unused]
    exact .panic _
  rw [if_neg unused, if_neg unused]
  dsimp only
  rw [Prog.alone_bind, ItAct.run, Prog.alone_step]
  simp only [itMachine, entry.locked]
  by_cases held : (s.inode ip).locked.isSome = true
  · rw [if_pos held, if_pos held]
    exact .blocked
  · rw [if_neg held, if_neg held]
    exact load_agrees ip _ _ locked

theorem iunlock_agrees (ip : Slot) :
    Agree SameTable ((iunlock ip).alone fsMachine t room) ((Itable.iunlock ip).alone itMachine t ()) := by
  intro s u same
  have entry := same.inode ip
  have unlocked : SameTable (s.lock ip none) (u.setInode ip { u.inode ip with locked := none }) :=
    same.put ⟨entry.key, entry.ref, rfl, entry.valid, entry.attr⟩
  unfold iunlock Itable.iunlock
  rw [FsAct.run, Prog.alone_step, Prog.alone_bind, ItAct.run, Prog.alone_step]
  simp only [fsMachine, itMachine, entry.ref, entry.locked]
  by_cases other : (s.inode ip).locked ≠ some t ∨ (s.inode ip).ref < 1
  · rw [if_pos other, if_pos other]
    exact .panic _
  · rw [if_neg other, if_neg other]
    exact .ok unlocked

theorem iput_agrees (ip : Slot) :
    Agree SameTable ((iput ip).alone fsMachine t room) ((Itable.iput ip).alone itMachine t ()) := by
  intro s u same
  have entry := same.inode ip
  have last : ((u.inode ip).ref = 1 ∧ (u.inode ip).valid = true ∧ (u.inode ip).attr.nlink = 0) ↔
      ((s.inode ip).ref = 1 ∧ (s.inode ip).valid ∧ (s.inode ip).attr.nlink = 0) := by
    rw [entry.ref, entry.valid, entry.attr.nlink]
  unfold iput Itable.iput
  rw [Prog.alone_bind, FsAct.run, Prog.alone_step, ItAct.run, Prog.alone_seq same.acquire, Prog.alone_bind,
    ItAct.run, Prog.alone_step]
  simp only [fsMachine, itMachine, FsState.iput, last]
  by_cases free : (s.inode ip).ref = 1 ∧ (s.inode ip).valid = true ∧ (s.inode ip).attr.nlink = 0
  · rw [if_pos free, if_pos free]
    dsimp only
    rw [if_pos rfl, Prog.alone_bind, ItAct.run, Prog.alone_step]
    have kept : (ItState.put { u with lock := some t } ip (u.inode ip) (u.users ip) (.doomed t)
      (u.dirty ip)).inode ip = u.inode ip :=
      update_self ..
    simp only [itMachine, kept, entry.locked]
    by_cases held : (s.inode ip).locked.isSome = true
    · rw [if_pos held, if_pos held]
      exact .blocked
    · rw [if_neg held, if_neg held]
      refine .ok ⟨same.ninodes, rfl, fun b => ?_, fun i => ?_⟩
      · by_cases here : b = ip
        · rw [here]
          simp only [FsState.lock, FsState.free, FsState.drop, FsState.put, FsState.setDisk,
            ItState.setInode, ItState.put,
            ItState.iupdate, ItState.drop, update_self, update_idem]
          exact ⟨entry.key, congrArg (· - 1) entry.ref, rfl, rfl,
            ⟨rfl, entry.attr.major, entry.attr.minor, entry.attr.nlink⟩⟩
        · simp only [FsState.lock, FsState.free, FsState.drop, FsState.put, FsState.setDisk,
            ItState.setInode, ItState.put,
            ItState.iupdate, ItState.drop, update_self, update_idem, update_of_ne here]
          exact same.inode b
      · simp only [FsState.lock, FsState.free, FsState.drop, FsState.put, FsState.setDisk,
          ItState.setInode, ItState.put,
            ItState.iupdate, ItState.drop, update_self, update_idem, entry.key]
        by_cases here : i = (s.inode ip).inum
        · rw [here, update_self, update_self]
          exact ⟨rfl, entry.attr.major, entry.attr.minor, entry.attr.nlink⟩
        · rw [update_of_ne here, update_of_ne fun key => here (congrArg Prod.snd key)]
          exact same.disk i
  · rw [if_neg free, if_neg free]
    exact .ok (same.drop ip).unlock

theorem iunlockput_agrees (ip : Slot) :
    Agree SameTable ((iunlockput ip).alone fsMachine t room) ((Itable.iunlockput ip).alone itMachine t ()) :=
  (iunlock_agrees ip).bind fun _ => iput_agrees ip

theorem claim_agrees (inum : Nat) (type : FileType) :
    Agree SameTable ((FsAct.claim inum type).run.alone fsMachine t room)
    ((ItAct.claim (ROOTDEV, inum) type.code).run.alone itMachine t ()) := by
  intro s u same
  have free : (u.disk (ROOTDEV, inum)).type = 0 ↔ (s.disk inum).attr.type = .free := by
    rw [(same.disk inum).type, FileType.code_free]
  rw [FsAct.run, ItAct.run, Prog.alone_step, Prog.alone_step]
  simp only [fsMachine, itMachine, free]
  split
  · refine .ok ⟨same.ninodes, same.lock, same.inode, fun i => ?_⟩
    show Attr.Is (update s.disk inum _ i).attr (update u.disk (ROOTDEV, inum) _ (ROOTDEV, i))
    by_cases here : i = inum
    · rw [here, update_self, update_self]
      exact ⟨rfl, rfl, rfl, rfl⟩
    · rw [update_of_ne here, update_of_ne fun key => here (congrArg Prod.snd key)]
      exact same.disk i
  · exact .ok same

theorem iallocFrom_agrees (type : FileType) (n inum : Nat) :
    Agree SameTable ((iallocFrom type n inum).alone fsMachine t room)
    ((Itable.iallocFrom ROOTDEV type.code n inum).alone itMachine t ()) := by
  induction n generalizing inum with
  | zero => exact .pure none
  | succ n ih =>
    refine (claim_agrees inum type).bind fun claimed => ?_
    cases claimed
    · exact ih (inum + 1)
    · exact (iget_agrees inum).bind fun ip => .pure (some ip)

/-- The functions on the inode table that both models have agree. -/
theorem ialloc_agrees (type : FileType) : Agree SameTable ((ialloc type).alone fsMachine t room)
    ((Itable.ialloc ROOTDEV type.code).alone itMachine t ()) := by
  have ninodes : Agree SameTable (FsAct.ninodes.run.alone fsMachine t room)
    (ItAct.ninodes.run.alone itMachine t ()) := by
    intro s u same
    rw [FsAct.run, ItAct.run, Prog.alone_step, Prog.alone_step]
    simp only [fsMachine, itMachine, same.ninodes]
    exact .ok same
  exact ninodes.bind fun n => iallocFrom_agrees type (n - 1) 1

end Agree

end Xv6.Fs
