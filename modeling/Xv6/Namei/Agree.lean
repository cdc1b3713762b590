import Xv6.Fs.Agree
import Xv6.Namei.Machine

/-! The functions of the inode table do the same here as in the model in which processes are interleaved. -/

namespace Xv6.Namei
open Threads Function Content
open Xv6.Fs (FsState FsAct fsMachine)

/-- How a function ends for which no other process releases a lock. -/
def outcome {α : Type} : Except String (α × Fs) → Outcome α Fs
  | .ok (value, u) => .ok value u
  | .error message => if message = "acquiresleep" then .blocked else .panic message

/-- The fields of an inode that both models have. -/
structure SameInode (a : Fs.Attr) (inode : Inode) : Prop where
  type : inode.type = a.type.code
  nlink : inode.nlink = a.nlink

/-- What is locked is locked by the process itself. -/
structure SameEntry (t : Pid) (e : Entry) (i : Fs.MemInode) : Prop where
  inum : i.inum = e.inum
  ref : i.ref = e.ref
  valid : i.valid = e.valid
  locked : i.locked = if e.locked then some t else none

/-- The inode tables are the same, and what is in them has been written to disk. -/
structure SameTable (t : Pid) (u : Fs) (s : FsState) : Prop where
  entry (ip) : SameEntry t (u.inode ip) (s.inode ip)
  attr (ip) : (u.inode ip).valid = true → SameInode (s.inode ip).attr (u.volume.inode (u.inode ip).inum)
  disk (inum) : SameInode (s.disk inum).attr (u.volume.inode inum)

section Agree

variable {u : Fs} {s : FsState} {t : Pid} {room : Bool} {ip : Slot} {inum : Nat} {e : Entry}
  {i : Xv6.Fs.MemInode} {users : List Pid}

theorem SameTable.put (same : SameTable t u s) (entry : SameEntry t e i)
    (attr : e.valid = true → SameInode i.attr (u.volume.inode e.inum)) :
    SameTable t { u with inode := update u.inode ip e } (s.put ip i users) := by
  refine ⟨fun b => ?_, fun b => ?_, same.disk⟩
  · show SameEntry t (update u.inode ip e b) (update s.inode ip i b)
    by_cases here : b = ip
    · rw [here, update_self, update_self]
      exact entry
    · rw [update_of_ne here, update_of_ne here]
      exact same.entry b
  · show (update u.inode ip e b).valid = true →
      SameInode (update s.inode ip i b).attr (u.volume.inode (update u.inode ip e b).inum)
    by_cases here : b = ip
    · rw [here, update_self, update_self]
      exact attr
    · rw [update_of_ne here, update_of_ne here]
      exact same.attr b

theorem SameTable.lookup (same : SameTable t u s) (inum : Nat) : s.lookup inum = u.lookup inum := by
  have entry (b : Slot) : (decide (0 < (s.inode b).ref) && (s.inode b).inum == inum) =
      decide (0 < (u.inode b).ref ∧ (u.inode b).inum = inum) := by
    rw [(same.entry b).ref, (same.entry b).inum, Bool.eq_iff_iff]
    simp
  exact congrArg (fun p => (List.finRange NINODE).find? p) (funext entry)

theorem SameTable.empty (same : SameTable t u s) : s.empty = u.empty := by
  have entry (b : Slot) : ((s.inode b).ref == 0) = decide ((u.inode b).ref = 0) := by
    rw [(same.entry b).ref, Bool.eq_iff_iff]
    simp
  exact congrArg (fun p => (List.finRange NINODE).find? p) (funext entry)

/-- One more reference. -/
theorem SameTable.hit (same : SameTable t u s) (ip : Slot) :
    SameTable t { u with inode := update u.inode ip { u.inode ip with ref := (u.inode ip).ref + 1 } }
    (s.hit t ip) :=
  have entry := same.entry ip
  same.put ⟨entry.inum, congrArg (· + 1) entry.ref, entry.valid, entry.locked⟩ (same.attr ip)

theorem get_bind {α : Type} (f : Fs → FsM α) (u : Fs) : ((get : FsM Fs) >>= f) u = f u u := rfl

theorem iget_agrees (inum : Nat) :
    Agree (SameTable t) (fun u => outcome (iget inum u)) ((FsAct.iget inum).run.alone fsMachine t room) := by
  intro u s same
  rw [FsAct.run, Prog.alone_step]
  simp only [fsMachine, FsState.iget, same.lookup, same.empty]
  unfold iget
  rw [get_bind]
  cases u.lookup inum with
  | some ip => exact .ok (same.hit ip)
  | none =>
    cases u.empty with
    | some ip =>
      have entry := same.entry ip
      have new : SameEntry t { u.inode ip with inum, ref := 1, valid := false } { s.inode ip with
          inum, ref := 1, valid := false } :=
        ⟨rfl, rfl, rfl, entry.locked⟩
      exact .ok (same.put new fun valid => by cases valid)
    | none => exact .panic _

theorem idup_agrees (ip : Slot) : Agree (SameTable t) (fun u => outcome ((do discard (idup ip)) u))
    ((FsAct.idup ip).run.alone fsMachine t room) := by
  intro u s same
  rw [FsAct.run, Prog.alone_step]
  exact .ok (same.hit ip)

theorem ilock_agrees (ip : Slot) :
    Agree (SameTable t) (fun u => outcome (ilock ip u)) ((Fs.ilock ip).alone fsMachine t room) := by
  intro u s same
  have entry := same.entry ip
  have own : (s.inode ip).locked.isSome = (u.inode ip).locked := by
    rw [entry.locked]
    cases (u.inode ip).locked <;> rfl
  have dinode : SameInode (s.dinode ip).attr (u.volume.inode (u.inode ip).inum) := by
    rw [FsState.dinode, entry.inum]
    exact same.disk _
  have type : (s.dinode ip).attr.type = .free ↔ (u.volume.inode (u.inode ip).inum).type = 0 := by
    rw [dinode.type, Fs.FileType.code_free]
  have kept : (s.lock ip (some t)).inode ip = { s.inode ip with locked := some t } := update_self ..
  have read : (s.lock ip (some t)).dinode ip = s.dinode ip := by
    rw [FsState.dinode, kept]
    rfl
  show Outcome.Alike (SameTable t) (outcome ((if (u.inode ip).ref < 1 then throw "ilock"
    else if (u.inode ip).locked then throw "acquiresleep"
    else if !(u.inode ip).valid ∧ (u.volume.inode (u.inode ip).inum).type = 0 then throw "ilock: no type"
    else setEntry ip fun e => { e with locked := true, valid := true }) u)) _
  unfold Fs.ilock
  rw [Prog.alone_bind, FsAct.run, Prog.alone_step]
  simp only [fsMachine, entry.ref, own]
  by_cases unused : (u.inode ip).ref < 1
  · rw [if_pos unused, if_pos unused]
    exact .panic _
  rw [if_neg unused, if_neg unused]
  by_cases held : (u.inode ip).locked = true
  · rw [if_pos held, if_pos held]
    exact .blocked
  rw [if_neg held, if_neg held]
  dsimp only
  rw [FsAct.run, Prog.alone_step]
  simp only [fsMachine, kept, read, entry.valid, type]
  cases valid : (u.inode ip).valid with
  | true =>
    have new : SameEntry t { u.inode ip with locked := true, valid := true } { s.inode ip with
        locked := some t } :=
      ⟨entry.inum, entry.ref, entry.valid.trans valid, rfl⟩
    exact .ok (same.put new fun _ => same.attr ip valid)
  | false =>
    by_cases free : (u.volume.inode (u.inode ip).inum).type = 0
    · rw [if_pos ⟨rfl, free⟩, if_neg Bool.false_ne_true, if_pos free]
      exact .panic _
    · rw [if_neg fun both => free both.2, if_neg Bool.false_ne_true, if_neg free]
      have locked : SameTable t { u with inode := update u.inode ip { u.inode ip with locked := true } }
        (s.lock ip (some t)) :=
        same.put ⟨entry.inum, entry.ref, entry.valid, rfl⟩ fun here => absurd (valid.symm.trans here)
        Bool.false_ne_true
      have loaded : SameTable t
          { u with inode := update (update u.inode ip
            { u.inode ip with locked := true }) ip { u.inode ip with locked := true, valid := true } }
          ((s.lock ip (some t)).load ip) := by
        rw [FsState.load, kept, read]
        exact locked.put ⟨entry.inum, entry.ref, rfl, rfl⟩ fun _ => dinode
      rw [update_idem] at loaded
      exact .ok loaded

theorem iunlock_agrees (ip : Slot) :
    Agree (SameTable t) (fun u => outcome (iunlock ip u)) ((Fs.iunlock ip).alone fsMachine t room) := by
  intro u s same
  have entry := same.entry ip
  have other : (s.inode ip).locked ≠ some t ∨ (u.inode ip).ref < 1 ↔ (!(u.inode ip).locked) = true ∨
    (u.inode ip).ref < 1 := by
    rw [entry.locked]
    cases (u.inode ip).locked <;> simp
  show Outcome.Alike (SameTable t)
    (outcome ((if !(u.inode ip).locked ∨ (u.inode ip).ref < 1 then throw "iunlock"
    else setEntry ip fun e => { e with locked := false }) u)) _
  rw [Fs.iunlock, FsAct.run, Prog.alone_step]
  simp only [fsMachine, entry.ref, other]
  by_cases free : (!(u.inode ip).locked) = true ∨ (u.inode ip).ref < 1
  · rw [if_pos free, if_pos free]
    exact .panic _
  · rw [if_neg free, if_neg free]
    exact .ok (same.put ⟨entry.inum, entry.ref, entry.valid, rfl⟩ (same.attr ip))

/-- A reference is dropped that is not the last one to an inode without links. -/
theorem iput_agrees (same : SameTable t u s)
    (kept : ¬((u.inode ip).ref = 1 ∧ (u.inode ip).valid = true ∧
      (u.volume.inode (u.inode ip).inum).nlink = 0)) :
    (outcome (iput ip u)).Alike (SameTable t) ((Fs.iput ip).alone fsMachine t room s) := by
  have entry := same.entry ip
  have last : ¬((s.inode ip).ref = 1 ∧ (s.inode ip).valid = true ∧ (s.inode ip).attr.nlink = 0) := by
    rintro ⟨one, valid, none⟩
    have valid := entry.valid.symm.trans valid
    exact kept ⟨entry.ref.symm.trans one, valid, (same.attr ip valid).nlink.trans none⟩
  have dropped : SameTable t { u with
      inode := update u.inode ip { u.inode ip with ref := (u.inode ip).ref - 1 } } (s.drop t ip) :=
    same.put ⟨entry.inum, congrArg (· - 1) entry.ref, entry.valid, entry.locked⟩ (same.attr ip)
  show Outcome.Alike (SameTable t) (outcome ((do
    if (u.inode ip).ref = 1 ∧ (u.inode ip).valid ∧ (u.volume.inode (u.inode ip).inum).nlink = 0 then free ip
    setEntry ip fun e => { e with ref := e.ref - 1 }) u)) _
  unfold Fs.iput
  rw [if_neg kept, Prog.alone_bind, FsAct.run, Prog.alone_step]
  simp only [fsMachine, FsState.iput]
  rw [if_neg last]
  exact .ok dropped

end Agree

end Xv6.Namei
