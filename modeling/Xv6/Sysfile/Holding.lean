import Xv6.Sysfile.Table

/-! The steps that the calls are made of, with all that a call must put back when it fails. -/

namespace Xv6.Sysfile
open Function Content Namei

/-- The files, the processes, and what is left out of `Table`, are as they were. -/
structure Rest (k₀ k : Kernel) : Prop where
  file : k.file = k₀.file
  proc : k.proc = k₀.proc
  myproc : k.myproc = k₀.myproc
  ninodes : k.ninodes = k₀.ninodes
  outstanding : k.outstanding = k₀.outstanding
  pipecloses : k.pipecloses = k₀.pipecloses

/-- Since `k₀` a call has taken some references and locks, and has changed the disk. -/
structure Holding (held : List (Namei.Slot × Nat)) (locks : List Namei.Slot) (v : Volume)
    (k₀ k : Kernel) : Prop where
  table : Table held locks v k₀.fs k.fs
  rest : Rest k₀ k
  device {e} : (k₀.volume.inode e).type ≠ 0 → k.major e = k₀.major e ∧ k.minor e = k₀.minor e

/-- A state between two calls: a directory tree in which no allocated inode has a hole and every inode in use
is allocated, `nlink` is a `short`, block 0 is not free, and files that are not in use have no type. -/
structure Ready (k : Kernel) : Prop where
  tree : Tree k.fs
  full {i} : (k.volume.inode i).type ≠ 0 → k.volume.NoHoles i
  live {b} : 0 < (k.inode b).ref → (k.volume.inode (k.inode b).inum).type ≠ 0
  short (i) : short (k.volume.inode i).nlink = (k.volume.inode i).nlink
  boot : k.volume.used 0 = true
  closed {f} : (k.file f).ref = 0 → (k.file f).type = .none

section Holding

variable {k₀ k k' : Kernel} {v v' : Volume} {held held' : List (Namei.Slot × Nat)}
  {locks locks' : List Namei.Slot} {ip dp : Namei.Slot} {d i : Nat}
  {α : Type}

theorem Kernel.setFs_fs (k : Kernel) (s : Fs) : (k.setFs s).fs = s := by
  unfold Kernel.setFs Kernel.fs
  dsimp only
  rw [update_self]

theorem Kernel.setFs_proc (k : Kernel) {s : Fs} (cwd : s.cwd = k.fs.cwd) : (k.setFs s).proc = k.proc := by
  unfold Kernel.setFs
  rw [cwd]
  exact update_eq_self ..

/-- A program on the file system leaves the rest as it is. -/
theorem Holding.onFs (h : Holding held locks v k₀ k) {m : FsM α} {Q : α → Fs → Prop} (gives : Gives m k.fs Q)
    (cwd : ∀ a s, Q a s → s.cwd = k.fs.cwd) : Gives (onFs m) k fun a k' => Q a k'.fs ∧
      ∀ held' locks' v', Table held' locks' v' k₀.fs k'.fs → Holding held' locks' v' k₀ k' := by
  refine Gives.part (gives.mono fun a s q => ?_)
  rw [k.setFs_fs s]
  refine ⟨q, fun held' locks' v' t => ⟨by rwa [k.setFs_fs s], ⟨h.rest.file, ?_, h.rest.myproc,
    h.rest.ninodes, h.rest.outstanding,
    h.rest.pipecloses⟩, h.device⟩⟩
  exact (k.setFs_proc (cwd a s q)).trans h.rest.proc

/-- A program on the file system whose result is not needed. -/
theorem Holding.step (h : Holding held locks v k₀ k) {m : FsM α}
    (gives : Gives m k.fs fun _ s => Table held' locks' v' k₀.fs s) :
    Gives (Sysfile.onFs m) k fun _ k' => Holding held' locks' v' k₀ k' :=
  (h.onFs gives fun _ _ t => t.cwd.trans h.table.cwd.symm).mono fun _ _ ⟨t, rest⟩ => rest _ _ _ t

theorem Holding.refl (tree : Tree k.fs) : Holding [] [] k.volume k k :=
  ⟨.refl tree.unlocked tree.unique, ⟨rfl, rfl, rfl, rfl, rfl, rfl⟩, fun _ => ⟨rfl, rfl⟩⟩

theorem Holding.congr (h : Holding held locks v k₀ k) (perm : held.Perm held')
    (same : ∀ b, b ∈ locks' ↔ b ∈ locks) :
    Holding held' locks' v k₀ k := { h with table := h.table.congr perm same }

theorem Holding.ilock (h : Holding held locks v k₀ k) (member : (ip, i) ∈ held) :
    Gives (Sysfile.onFs (ilock ip)) k fun _ k' => ip ∉ locks ∧ Holding held (ip :: locks) v k₀ k' :=
  (h.onFs (ilock_gives h.table member) fun _ _ ⟨_, t⟩ => t.cwd.trans h.table.cwd.symm).mono
    fun _ _ ⟨⟨free, t⟩, rest⟩ =>
    ⟨free, rest _ _ _ t⟩

theorem Holding.iunlock (h : Holding held (ip :: locks) v k₀ k) (once : ip ∉ locks) :
    Gives (Sysfile.onFs (iunlock ip)) k fun _ k' => Holding held locks v k₀ k' :=
  h.step (iunlock_gives h.table once)

theorem Holding.iput (h : Holding ((ip, i) :: held) locks v k₀ k)
    (owned : ip ∈ locks → ip ∈ held.map Prod.fst)
    (live : Live held v k₀.fs i) : Gives (Sysfile.onFs (iput ip)) k fun _ k' => Holding held locks v k₀ k' :=
  h.step (iput_gives h.table owned live)

theorem Holding.iunlockput (h : Holding ((ip, i) :: held) (ip :: locks) v k₀ k) (once : ip ∉ locks)
    (live : Live held v k₀.fs i) :
    Gives (Sysfile.onFs (iunlockput ip)) k fun _ k' => Holding held locks v k₀ k' :=
  h.step (iunlockput_gives h.table once live)

theorem Holding.inum (h : Holding held locks v k₀ k) (member : (ip, i) ∈ held) : k.inum ip = i :=
  h.table.inum member

theorem Holding.inode (h : Holding held locks v k₀ k) (member : (ip, i) ∈ held) : k.ip ip = v.inode i := by
  have volume : k.volume = v := h.table.volume
  unfold Kernel.ip
  rw [h.inum member, volume]

theorem Holding.setVolume (h : Holding held locks v k₀ k) (v' : Volume) :
    Holding held locks v' k₀ { k with volume := v' } :=
  ⟨h.table.setVolume v', { h.rest with }, h.device⟩

theorem Holding.setNlink (h : Holding held locks v k₀ k) (member : (ip, i) ∈ held) (nlink : Int) :
    Gives (setNlink ip nlink) k fun _ k' => Holding held locks (v.setNlink i nlink) k₀ k' := by
  have volume : k.volume = v := h.table.volume
  refine Gives.modify ?_
  rw [h.inum member, volume]
  exact h.setVolume _

/-! ### Names -/

theorem Holding.namei (h : Holding held [] v k₀ k) (tree : Tree k.fs) (path : Path) :
    Gives (Sysfile.onFs (namei path.val)) k fun r k' => r = none ∧ Holding held [] v k₀ k' ∨
      ∃ ip i, r = some ip ∧ k.fs.Present i ∧ Holding ((ip, i) :: held) [] v k₀ k' := by
  have found := (namei_ends (E := fun _ => True) tree path.val path.property trivial).gives
  refine (h.onFs found fun _ _ found => found.1.cwd).mono fun r k' ⟨⟨holds, inode⟩, rest⟩ => ?_
  cases r with
  | none => exact .inl ⟨rfl, rest _ _ _ (h.table.walk holds)⟩
  | some ip =>
    refine .inr ⟨ip, _, rfl, ?_, rest _ _ _ (h.table.walk holds)⟩
    exact tree.follow_present (tree.start_present path.val) inode.symm

/-- The directory of a path, which has been found, is a directory. -/
theorem parent_directory (tree : Tree k.fs) {path : List UInt8}
    (found : parent k.volume (k.fs.start path) (components path) = some d) :
    Directory k.volume d ∧ k.fs.Present d := by
  have names : components path ≠ [] := fun none => by
    rw [none] at found
    cases found
  rw [parent_eq names] at found
  obtain ⟨reached, dir⟩ := Option.filter_eq_some_iff.mp found
  exact ⟨Tree.directory tree (of_decide_eq_true dir), tree.follow_present (tree.start_present path) reached⟩

theorem Holding.nameiparent (h : Holding held [] v k₀ k) (tree : Tree k.fs) (path : Path) :
    Gives (Sysfile.onFs (nameiparent path.val fun _ => 0)) k fun r k' =>
      r.1 = none ∧ parent k.volume (k.fs.start path.val) (components path.val) = none ∧
        Holding held [] v k₀ k' ∨
      ∃ dp d, r.1 = some dp ∧ parent k.volume (k.fs.start path.val) (components path.val) = some d ∧
        nameKey r.2 = ((components path.val).getLastD []).take DIRSIZ ∧
        Holding ((dp, d) :: held) [] v k₀ k' := by
  have found := (namex_ends (E := fun _ => True) tree path.val true (fun _ => 0) path.property trivial).gives
  refine (h.onFs found fun _ _ found => found.holds.cwd).mono fun r k' ⟨found, rest⟩ => ?_
  obtain ⟨ip, name⟩ := r
  have inode := found.inode
  rw [if_pos rfl] at inode
  cases ip with
  | none => exact .inl ⟨rfl, inode.symm, rest _ _ _ (h.table.walk found.holds)⟩
  | some dp => exact .inr ⟨dp, _, rfl, inode.symm, found.name rfl (Option.some_ne_none dp),
      rest _ _ _ (h.table.walk found.holds)⟩

theorem Holding.dirlookup (h : Holding held locks v k₀ k) (member : (dp, d) ∈ held) (cons : v.Consistent)
    (dir : Directory v d)
    (name : Bytes) : Gives (Sysfile.onFs (dirlookup dp name)) k fun r k' =>
      child v d (nameKey name) = none ∧ r = none ∧ Holding held locks v k₀ k' ∨
      ∃ ip i, child v d (nameKey name) = some i ∧ r = some ip ∧ Holding ((ip, i) :: held) locks v k₀ k' := by
  refine (h.onFs (dirlookup_gives h.table member cons dir name) fun r s looked => ?_).mono
    fun r k' ⟨looked, rest⟩ => ?_
  · rcases looked with ⟨-, -, rfl⟩ | ⟨i, ip, -, -, took⟩
    · rfl
    · exact took.cwd.trans h.table.cwd.symm
  · rcases looked with ⟨none, rfl, same⟩ | ⟨i, ip, some, rfl, took⟩
    · exact .inl ⟨none, rfl, rest _ _ _ (same ▸ h.table)⟩
    · exact .inr ⟨ip, i, some, rfl, rest _ _ _ took⟩

theorem Holding.dirlookupOff (h : Holding held locks v k₀ k) (member : (dp, d) ∈ held) (cons : v.Consistent)
    (dir : Directory v d)
    (name : Bytes) : Gives (Sysfile.onFs (dirlookupOff dp name)) k fun r k' => r = none ∧
    Holding held locks v k₀ k' ∨
      ∃ ip i off, child v d (nameKey name) = some i ∧ r = some (ip, off) ∧
      Holding ((ip, i) :: held) locks v k₀ k' := by
  refine (h.onFs (dirlookupOff_gives h.table member cons dir name) fun r s looked => ?_).mono
    fun r k' ⟨looked, rest⟩ => ?_
  · rcases looked with ⟨-, rfl⟩ | ⟨i, ip, off, -, -, took⟩
    · rfl
    · exact took.cwd.trans h.table.cwd.symm
  · rcases looked with ⟨rfl, same⟩ | ⟨i, ip, off, some, rfl, took⟩
    · exact .inl ⟨rfl, rest _ _ _ (same ▸ h.table)⟩
    · exact .inr ⟨ip, i, off, some, rfl, rest _ _ _ took⟩

theorem Holding.dirlink (h : Holding held locks v k₀ k) (member : (dp, d) ∈ held) (cons : v.Consistent)
    (dir : Directory v d)
    (name : Bytes) (inum : Nat) (live : ∀ i, child v d (nameKey name) = some i → Live held v k₀.fs i) :
    Gives (Sysfile.onFs (dirlink dp name inum)) k fun r k' =>
      child v d (nameKey name) ≠ none ∧ r = -1 ∧ Holding held locks v k₀ k' ∨
      child v d (nameKey name) = none ∧ ∃ v', addEntry v d name inum = .ok (r, v') ∧
      Holding held locks v' k₀ k' := by
  refine (h.onFs (dirlink_gives h.table member cons dir name inum live) fun r s linked => ?_).mono
    fun r k' ⟨linked, rest⟩ => ?_
  · rcases linked with ⟨-, -, t⟩ | ⟨-, v', -, rfl⟩
    · exact t.cwd.trans h.table.cwd.symm
    · rfl
  · rcases linked with ⟨some, rfl, t⟩ | ⟨none, v', run, same⟩
    · exact .inl ⟨some, rfl, rest _ _ _ t⟩
    · exact .inr ⟨none, v', run, rest _ _ _ (same ▸ h.table.setVolume v')⟩

theorem freeInode_free (found : k.freeInode = some i) : (k.volume.inode i).type = 0 := by
  unfold Kernel.freeInode at found
  have free := List.find?_some found
  simp only [decide_eq_true_eq] at free
  exact free.2

/-- `ialloc` before anything has been changed. -/
theorem Holding.ialloc (h : Holding held locks k₀.volume k₀ k) (type : Nat) :
    Gives (ialloc type) k fun r k' =>
    r = none ∧ k₀.freeInode = none ∧ Holding held locks k₀.volume k₀ k' ∨ ∃ ip i, r = some ip ∧
      k₀.freeInode = some i ∧
      Holding ((ip, i) :: held) locks (k₀.volume.setInode i ⟨type, 0, 0, fun _ => 0⟩).logWrite k₀ k' := by
  have volume : k.volume = k₀.volume := h.table.volume
  have first : k.freeInode = k₀.freeInode := by
    unfold Kernel.freeInode
    rw [volume, h.rest.ninodes]
  unfold Sysfile.ialloc
  refine Gives.bind_run (rfl : (get : SysM Kernel) k = .ok (k, k)) ?_
  rw [first, volume]
  cases found : k₀.freeInode with
  | none => exact Gives.pure (.inl ⟨rfl, rfl, h⟩)
  | some i =>
    have free := freeInode_free found
    have set : Holding held locks (k₀.volume.setInode i ⟨type, 0, 0, fun _ => 0⟩).logWrite k₀ { k with
        volume := (k₀.volume.setInode i ⟨type, 0, 0, fun _ => 0⟩).logWrite
        major := update k.major i 0
        minor := update k.minor i 0 } := by
      refine ⟨h.table.setVolume _, { h.rest with }, fun {e} used => ?_⟩
      have apart : e ≠ i := by
        rintro rfl
        exact used free
      dsimp only
      rw [update_of_ne apart, update_of_ne apart]
      exact h.device used
    refine Gives.bind_run rfl ?_
    refine ((set.onFs (iget_gives set.table) fun _ _ t => t.cwd.trans set.table.cwd.symm)).bind
      fun ip k' ⟨t, rest⟩ => Gives.pure ?_
    exact .inr ⟨ip, i, rfl, rfl, rest _ _ _ t⟩

end Holding

end Xv6.Sysfile
