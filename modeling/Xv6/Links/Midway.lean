import Xv6.Links.Steps

/-! The steps of a call between which the disk is as it should be, or is about to be. -/

namespace Xv6.Sysfile.Links
open Function Content Content.Volume Namei

/-- Since `k₀` a call has taken some references and locks, and has changed the disk. -/
structure Midway (held : List (Namei.Slot × Nat)) (locks : List Namei.Slot) (v : Volume)
    (k₀ k : Kernel) : Prop where
  during : During held locks v k₀.fs k.fs
  rest : Rest k₀ k

/-- As `Midway`, but nothing is known of entry `ip`, which is for an inode that has just been allocated. -/
structure Allocated (ip : Namei.Slot) (held : List (Namei.Slot × Nat)) (locks : List Namei.Slot)
    (v : Volume) (k₀ k : Kernel) : Prop where
  table : Table held locks v k₀.fs k.fs
  sure (b) : b ≠ ip → Sure v k.fs b
  rest : Rest k₀ k

/-- A disk without anything lost: every inode that is allocated has a name or a reference. The inodes that
were in use are what they were. -/
structure Fit (n start : Nat) (held : List (Namei.Slot × Nat)) (v : Volume) (s₀ : Fs) : Prop where
  linked : Linked n v
  tight : Tight start v
  live {i} : (v.inode i).type ≠ 0 → Live held v s₀ i
  types {b} : 0 < (s₀.inode b).ref → (v.inode (s₀.inode b).inum).type =
    (s₀.volume.inode (s₀.inode b).inum).type ∧
    (v.inode (s₀.inode b).inum).type ≠ 0
  used {b i} : (b, i) ∈ held → (v.inode i).type ≠ 0

/-- What holds between two calls. -/
structure Steady (n start : Nat) (s : Fs) : Prop where
  linked : Linked n s.volume
  tight : Tight start s.volume
  unlocked (b) : (s.inode b).locked = false
  unique : s.Unique
  sure (b) : Sure s.volume s b
  used {b} : 0 < (s.inode b).ref → (s.volume.inode (s.inode b).inum).type ≠ 0
  kept {i} : (s.volume.inode i).type ≠ 0 → (s.volume.inode i).nlink = 0 → ∃ b, 0 < (s.inode b).ref ∧
    (s.inode b).inum = i

section Midway

variable {n start d e i j : Nat} {s s₀ : Fs} {k₀ k : Kernel} {v v' : Volume}
  {held held' : List (Namei.Slot × Nat)} {locks locks' : List Namei.Slot}
  {ip dp : Namei.Slot} {E : String → Prop} {α : Type}

/-- Inodes lose their last link only while there is a reference to them. -/
theorem Fit.change (fit : Fit n start held v s₀) (linked : Linked n v') (tight : Tight start v')
    (types : ∀ e, (v'.inode e).type = (v.inode e).type)
    (links : ∀ e, (v.inode e).nlink ≠ 0 → (v'.inode e).nlink ≠ 0 ∨ e ∈ held.map Prod.snd) :
    Fit n start held v' s₀ := by
  refine ⟨linked, tight, fun {i} used => ?_, fun {b} used => ?_, fun {b i} member => ?_⟩
  · rw [types] at used
    rcases fit.live used with linked | base | member
    · exact (links i linked).elim .inl fun member => .inr (.inr member)
    · exact .inr (.inl base)
    · exact .inr (.inr member)
  · rw [types]
    exact fit.types used
  · rw [types]
    exact fit.used member

theorem Fit.same (fit : Fit n start held v s₀) (tight : Tight start v') (cons : v'.Consistent)
    (types : ∀ e, (v'.inode e).type = (v.inode e).type) (nlinks : ∀ e, (v'.inode e).nlink = (v.inode e).nlink)
    (full : ∀ e, (v.inode e).type ≠ 0 → v'.NoHoles e) (kept : ∀ e, (v.inode e).type = T_DIR →
      Volume.Kept e v v') :
    Fit n start held v' s₀ ∧ tree v' = tree v := by
  obtain ⟨linked, trees⟩ := fit.linked.same cons types (fun e _ => nlinks e) full kept
  exact ⟨fit.change linked tight types fun e linked => .inl (nlinks e ▸ linked), trees⟩

theorem Fit.perm (fit : Fit n start held v s₀) (perm : held.Perm held') : Fit n start held' v s₀ :=
  ⟨fit.linked, fit.tight, fun used => (fit.live used).mono rfl perm.subset, fit.types,
    fun member => fit.used (perm.mem_iff.mpr member)⟩

/-- A free inode has been allocated. -/
theorem Fit.grow (fit : Fit n start held v s₀) (free : (v.inode i).type = 0) (linked : Linked n v')
    (tight : Tight start v')
    (types : ∀ {e}, e ≠ i → (v'.inode e).type = (v.inode e).type) (links : ∀ {e}, e ≠ i →
      (v.inode e).nlink ≠ 0 → (v'.inode e).nlink ≠ 0)
    (used : (v'.inode i).type ≠ 0) : Fit n start ((ip, i) :: held) v' s₀ := by
  have apart {j : Nat} (some : (v.inode j).type ≠ 0) : j ≠ i := by
    rintro rfl
    exact some free
  refine ⟨linked, tight, fun {j} live => ?_, fun {b} base => ?_, fun {b j} member => ?_⟩
  · by_cases here : j = i
    · exact .inr (.inr (List.mem_map.mpr ⟨_, List.mem_cons_self .., here.symm⟩))
    · rw [types here] at live
      rcases fit.live live with linked | base | member
      · exact .inl (links here linked)
      · exact .inr (.inl base)
      · exact .inr (.inr (List.mem_cons_of_mem _ member))
  · rw [types (apart (fit.types base).2)]
    exact fit.types base
  · rcases List.mem_cons.mp member with same | member
    · obtain ⟨rfl, rfl⟩ := Prod.mk.inj same
      exact used
    · rw [types (apart (fit.used member))]
      exact fit.used member

theorem short_small {m : Int} (low : 0 ≤ m) (high : m ≤ 32767) : short m = m := by
  unfold short
  rw [Int.bmod_eq_of_le] <;> omega

theorem Fit.take (fit : Fit n start held v s₀) (used : (v.inode i).type ≠ 0) :
    Fit n start ((ip, i) :: held) v s₀ :=
  ⟨fit.linked, fit.tight, fun used => (fit.live used).mono rfl (List.subset_cons_self ..),
    fit.types, fun member => by
    rcases List.mem_cons.mp member with same | member
    · obtain ⟨rfl, rfl⟩ := Prod.mk.inj same
      exact used
    · exact fit.used member⟩

theorem Live.drop (live : Live ((ip, i) :: held) v s₀ j) : Live held v s₀ j ∨ j = i := by
  rcases live with linked | base | member
  · exact .inl (.inl linked)
  · exact .inl (.inr (.inl base))
  · rcases List.mem_cons.mp member with same | member
    · exact .inr same
    · exact .inl (.inr (.inr member))

theorem Fit.drop (fit : Fit n start ((ip, i) :: held) v s₀) (live : Live held v s₀ i) :
    Fit n start held v s₀ :=
  ⟨fit.linked, fit.tight, fun used => (Live.drop (fit.live used)).elim id fun same => same ▸ live,
    fit.types, fun member =>
    fit.used (List.mem_cons_of_mem _ member)⟩

theorem Fit.free (fit : Fit n start ((ip, i) :: held) v s₀) (dead : ¬Live held v s₀ i)
    (run : v.iputFree i = .ok v') :
    Fit n start held v' s₀ ∧ tree v' = tree v ∧ ∀ j, (v'.inode j).type ≠ 0 → v'.inode j = v.inode j := by
  have unlinked : (v.inode i).nlink = 0 := by
    by_contra linked
    exact dead (.inl linked)
  obtain ⟨linked, trees, only, free⟩ := fit.linked.free (fit.used (List.mem_cons_self ..)) unlinked run
  refine ⟨⟨linked, fit.tight.iputFree fit.linked.cons run, fun {j} used => ?_, fun {b} used => ?_,
    fun {b j} member => ?_⟩, trees, fun j used => ?_⟩
  · have apart : j ≠ i := by
      rintro rfl
      exact used free
    rw [(only j apart).1] at used
    exact ((Live.drop (fit.live used)).resolve_right apart).mono (congrArg Inode.nlink (only j apart).1)
      (List.Subset.refl _)
  · have apart : (s₀.inode b).inum ≠ i := fun same => dead (.inr (.inl ⟨b, used, same⟩))
    rw [(only _ apart).1]
    exact fit.types used
  · have apart : j ≠ i := by
      rintro rfl
      exact dead (.inr (.inr (List.mem_map.mpr ⟨_, member, rfl⟩)))
    rw [(only j apart).1]
    exact fit.used (List.mem_cons_of_mem _ member)
  · exact (only j fun here => used (here ▸ free)).1

/-- A state from which a call starts. -/
theorem Steady.fit (steady : Steady n start s) : Fit n start [] s.volume s where
  linked := steady.linked
  tight := steady.tight
  live {i} used := by
    by_cases linked : (s.volume.inode i).nlink = 0
    · exact .inr (.inl (steady.kept used linked))
    · exact .inl linked
  types used := ⟨rfl, steady.used used⟩
  used member := absurd member List.not_mem_nil

theorem Steady.during (steady : Steady n start s) : During [] [] s.volume s s :=
  ⟨.refl steady.unlocked steady.unique, steady.sure⟩

/-- A call has ended, with some references left. -/
theorem Steady.of_fit (t : During held [] v s₀ s) (fit : Fit n start held v s₀) : Steady n start s := by
  obtain rfl := t.volume
  refine ⟨fit.linked, fit.tight, fun b => t.locked b, t.unique, t.sure, fun {b} used => ?_,
    fun {i} used unlinked => ?_⟩
  · by_cases base : 0 < (s₀.inode b).ref
    · rw [t.old base]
      exact (fit.types base).2
    · rw [t.ref] at used
      obtain ⟨⟨c, i⟩, member, rfl⟩ :=
        List.mem_map.mp (List.count_pos_iff.mp (by omega : 0 < (held.map Prod.fst).count b))
      rw [t.inum member]
      exact fit.used member
  · rcases fit.live used with linked | ⟨b, base, inum⟩ | member
    · exact absurd unlinked linked
    · exact ⟨b, by rw [t.ref]; omega, (t.old base).trans inum⟩
    · obtain ⟨⟨b, j⟩, listed, rfl⟩ := List.mem_map.mp member
      exact ⟨b, t.used (Table.mem listed), t.inum listed⟩

theorem Midway.refl (steady : Steady n start k.fs) : Midway [] [] k.volume k k :=
  ⟨steady.during, ⟨rfl, rfl, rfl, rfl, rfl, rfl⟩⟩

theorem Midway.congr (h : Midway held locks v k₀ k) (perm : held.Perm held')
    (same : ∀ b, b ∈ locks' ↔ b ∈ locks) :
    Midway held' locks' v k₀ k := { h with during := h.during.congr perm same }

theorem Midway.inum (h : Midway held locks v k₀ k) (member : (ip, i) ∈ held) : k.inum ip = i :=
  h.during.inum member

theorem Midway.volume (h : Midway held locks v k₀ k) : k.volume = v := h.during.volume

theorem Midway.inode (h : Midway held locks v k₀ k) (member : (ip, i) ∈ held) : k.ip ip = v.inode i := by
  unfold Kernel.ip
  rw [h.inum member, h.volume]

/-- A program on the file system leaves the rest as it is. -/
theorem Midway.onFs (h : Midway held locks v k₀ k) {m : FsM α} {Q : α → Fs → Prop} (ends : Ends m k.fs E Q)
    (cwd : ∀ a s, Q a s → s.cwd = k.fs.cwd) : Ends (onFs m) k E fun a k' => Q a k'.fs ∧
      ∀ held' locks' v', During held' locks' v' k₀.fs k'.fs → Midway held' locks' v' k₀ k' := by
  refine Ends.part (ends.mono fun a s q => ?_)
  rw [k.setFs_fs s]
  refine ⟨q, fun held' locks' v' t =>
    ⟨by rwa [k.setFs_fs s], h.rest.file, ?_, h.rest.myproc, h.rest.ninodes, h.rest.outstanding,
    h.rest.pipecloses⟩⟩
  exact (k.setFs_proc (cwd a s q)).trans h.rest.proc

/-- A program on the file system whose result is not needed. -/
theorem Midway.step (h : Midway held locks v k₀ k) {m : FsM α}
    (ends : Ends m k.fs E fun _ s => During held' locks' v' k₀.fs s) :
    Ends (Sysfile.onFs m) k E fun _ k' => Midway held' locks' v' k₀ k' :=
  (h.onFs ends fun _ _ t => t.cwd.trans h.during.cwd.symm).mono fun _ _ both => both.2 _ _ _ both.1

theorem Midway.ilock (h : Midway held locks v k₀ k) (member : (ip, i) ∈ held) (free : ip ∉ locks)
    (live : (v.inode i).type ≠ 0) :
    Ends (Sysfile.onFs (ilock ip)) k E fun _ k' => Midway held (ip :: locks) v k₀ k' :=
  h.step (ilock_during h.during member free live)

theorem Midway.iunlock (h : Midway held (ip :: locks) v k₀ k) (once : ip ∉ locks) :
    Ends (Sysfile.onFs (iunlock ip)) k E fun _ k' => Midway held locks v k₀ k' :=
  h.step (iunlock_during h.during once)

theorem Midway.iput (h : Midway ((ip, i) :: held) locks v k₀ k)
    (owned : ip ∈ locks → ip ∈ held.map Prod.fst) (live : Live held v k₀.fs i) :
    Ends (Sysfile.onFs (Namei.iput ip)) k E fun _ k' => Midway held locks v k₀ k' :=
  h.step (iput_during h.during owned live)

theorem Midway.iunlockput (h : Midway ((ip, i) :: held) (ip :: locks) v k₀ k) (once : ip ∉ locks)
    (live : Live held v k₀.fs i) :
    Ends (Sysfile.onFs (Namei.iunlockput ip)) k E fun _ k' => Midway held locks v k₀ k' :=
  h.step (iunlockput_during h.during once live)

/-- A reference is given up; what has been lost by that is freed. -/
theorem Midway.put (h : Midway ((ip, i) :: held) locks v k₀ k) (fit : Fit n start ((ip, i) :: held) v k₀.fs)
    (once : ip ∉ locks) :
    Ends (Sysfile.onFs (Namei.iput ip)) k E fun _ k' => ∃ v', Midway held locks v' k₀ k' ∧
    Fit n start held v' k₀.fs ∧ tree v' = tree v ∧
      ∀ j, (v'.inode j).type ≠ 0 → v'.inode j = v.inode j := by
  refine (h.onFs (iput_drops h.during once fit.linked.cons) fun _ s dropped => ?_).mono fun _ k' both => ?_
  · rcases dropped with ⟨-, t⟩ | ⟨-, v', -, t⟩
    · exact t.cwd.trans h.during.cwd.symm
    · exact t.cwd.trans h.during.cwd.symm
  · obtain ⟨⟨live, t⟩ | ⟨dead, v', run, t⟩, rest⟩ := both
    · exact ⟨v, rest _ _ _ t, fit.drop live, rfl, fun _ _ => rfl⟩
    · obtain ⟨fit', trees, same⟩ := fit.free dead run
      exact ⟨v', rest _ _ _ t, fit', trees, same⟩

theorem Midway.unlockput (h : Midway ((ip, i) :: held) (ip :: locks) v k₀ k)
    (fit : Fit n start ((ip, i) :: held) v k₀.fs) (once : ip ∉ locks) :
    Ends (Sysfile.onFs (Namei.iunlockput ip)) k E fun _ k' => ∃ v', Midway held locks v' k₀ k' ∧
    Fit n start held v' k₀.fs ∧ tree v' = tree v ∧
      ∀ j, (v'.inode j).type ≠ 0 → v'.inode j = v.inode j := by
  refine (h.onFs (iunlockput_drops h.during once fit.linked.cons) fun _ s dropped => ?_).mono
    fun _ k' both => ?_
  · rcases dropped with ⟨-, t⟩ | ⟨-, v', -, t⟩
    · exact t.cwd.trans h.during.cwd.symm
    · exact t.cwd.trans h.during.cwd.symm
  · obtain ⟨⟨live, t⟩ | ⟨dead, v', run, t⟩, rest⟩ := both
    · exact ⟨v, rest _ _ _ t, fit.drop live, rfl, fun _ _ => rfl⟩
    · obtain ⟨fit', trees, same⟩ := fit.free dead run
      exact ⟨v', rest _ _ _ t, fit', trees, same⟩

/-- The links of an inode that is locked are set. -/
theorem Midway.setNlink (h : Midway held locks v k₀ k) (member : (ip, i) ∈ held)
    (locked : ip ∈ locks) (nlink : Int) :
    Ends (Sysfile.setNlink ip nlink) k E fun _ k' => Midway held locks (v.setNlink i nlink) k₀ k' := by
  refine Ends.modify ?_
  rw [h.inum member, h.volume]
  refine ⟨h.during.setVolume _ fun j linked => ?_, { h.rest with }⟩
  by_cases here : j = i
  · refine .inr fun b used inum => ?_
    have same : b = ip := h.during.unique b ip used (h.during.used (Table.mem member))
      ((inum.trans here).trans (h.during.inum member).symm)
    rw [same]
    exact h.during.valid locked
  · left
    have other : ((v.setNlink i nlink).inode j) = v.inode j := update_of_ne here ..
    rwa [other]

theorem Midway.onVolume {m : Volume → Except String (α × Volume)} {a : α} (h : Midway held locks v k₀ k)
    (run : m v = .ok (a, v'))
    (links : ∀ i, (v.inode i).nlink ≠ 0 → (v'.inode i).nlink ≠ 0) :
    Ends (Sysfile.onFs (Namei.onVolume m)) k E fun r k' => r = a ∧ Midway held locks v' k₀ k' :=
  (h.onFs (onVolume_during h.during run links) fun _ _ both =>
    both.2.cwd.trans h.during.cwd.symm).mono fun _ _ both =>
    ⟨both.1.1, both.2 _ _ _ both.1.2⟩

/-! ### Names -/

theorem Midway.dirlookup (h : Midway held locks v k₀ k) (member : (dp, d) ∈ held) (cons : v.Consistent)
    (dir : Directory v d) (name : Bytes)
    (linked : ∀ i, child v d (nameKey name) = some i → (v.inode i).nlink ≠ 0) :
    Ends (Sysfile.onFs (Namei.dirlookup dp name)) k Full fun r k' =>
      child v d (nameKey name) = none ∧ r = none ∧ Midway held locks v k₀ k' ∨
      ∃ i ip, child v d (nameKey name) = some i ∧ r = some ip ∧ Midway ((ip, i) :: held) locks v k₀ k' := by
  refine (h.onFs (dirlookup_during h.during member cons dir name linked) fun r s looked => ?_).mono
    fun r k' both => ?_
  · rcases looked with ⟨-, -, t⟩ | ⟨i, ip, -, -, t⟩
    · exact t.cwd.trans h.during.cwd.symm
    · exact t.cwd.trans h.during.cwd.symm
  · obtain ⟨⟨none, rfl, t⟩ | ⟨i, ip, some, rfl, t⟩, rest⟩ := both
    · exact .inl ⟨none, rfl, rest _ _ _ t⟩
    · exact .inr ⟨i, ip, some, rfl, rest _ _ _ t⟩

theorem Midway.dirlookupOff {m : Name → Nat} (h : Midway held locks v k₀ k) (member : (dp, d) ∈ held)
    (walk : Walkable v) (dir : IsDir v d)
    (ok : DirOk v d m) (name : Bytes) : Ends (Sysfile.onFs (Sysfile.dirlookupOff dp name)) k Full fun r k' =>
      child v d (nameKey name) = none ∧ r = none ∧ Midway held locks v k₀ k' ∨
      ∃ l ip, l < v.count d ∧ v.inum d l ≠ 0 ∧ v.name d l = nameKey name ∧
      child v d (nameKey name) = some (v.inum d l) ∧
        r = some (ip, direntSize * l) ∧ Midway ((ip, v.inum d l) :: held) locks v k₀ k' := by
  refine (h.onFs (dirlookupOff_during h.during member walk dir ok name) fun r s looked => ?_).mono
    fun r k' both => ?_
  · rcases looked with ⟨-, -, t⟩ | ⟨l, ip, -, -, -, -, -, t⟩
    · exact t.cwd.trans h.during.cwd.symm
    · exact t.cwd.trans h.during.cwd.symm
  · obtain ⟨⟨none, rfl, t⟩ | ⟨l, ip, below, live, same, some, rfl, t⟩, rest⟩ := both
    · exact .inl ⟨none, rfl, rest _ _ _ t⟩
    · exact .inr ⟨l, ip, below, live, same, some, rfl, rest _ _ _ t⟩

theorem Midway.dirlink (h : Midway held locks v k₀ k) (member : (dp, d) ∈ held) (cons : v.Consistent)
    (tight : Tight start v)
    (full : ∀ e, (v.inode e).type ≠ 0 → v.NoHoles e) (dir : Directory v d) (name : Bytes)
    (linked : ∀ i, child v d (nameKey name) = some i → (v.inode i).nlink ≠ 0) (small : 0 < j ∧ j < 65536) :
    Ends (Sysfile.onFs (Sysfile.dirlink dp name j)) k Full fun r k' =>
      child v d (nameKey name) ≠ none ∧ r = -1 ∧ Midway held locks v k₀ k' ∨
      child v d (nameKey name) = none ∧ ∃ v', addEntry v d name j = .ok (r, v') ∧
      Entered start d (nameKey name) j v r v' ∧ Midway held locks v' k₀ k' := by
  refine (h.onFs (dirlink_during h.during member cons tight full dir name linked small) fun r s made =>
    ?_).mono fun r k' both => ?_
  · rcases made with ⟨-, -, t⟩ | ⟨-, v', -, -, t⟩
    · exact t.cwd.trans h.during.cwd.symm
    · exact t.cwd.trans h.during.cwd.symm
  · obtain ⟨⟨some, rfl, t⟩ | ⟨none, v', run, entered, t⟩, rest⟩ := both
    · exact .inl ⟨some, rfl, rest _ _ _ t⟩
    · exact .inr ⟨none, v', run, entered, rest _ _ _ t⟩

/-- A path can be followed on a disk from where the process is. -/
structure Passable (v : Volume) (s : Fs) (path : List UInt8) : Prop where
  walk : Walkable v
  root : Named v ROOTINO
  cwd : 0 < (s.inode s.cwd).ref ∧ (v.inode (s.inode s.cwd).inum).type ≠ 0
  start : path.head? = some slash ∨ (v.inode (s.inode s.cwd).inum).nlink ≠ 0

theorem Midway.walk (h : Midway held [] v k₀ k) {path : Path} (passable : Passable v k₀.fs path.val)
    (nameiparent : Bool) :
    Ends (Namei.namex path.val nameiparent fun _ => 0) k.fs Full fun r s =>
      Walked nameiparent held v k₀.fs (k₀.fs.start path.val) path.val r s := by
  have same : (k.fs.inode k.fs.cwd).inum = (k₀.fs.inode k₀.fs.cwd).inum :=
    by rw [h.during.cwd, h.during.old passable.cwd.1]
  have used : 0 < (k.fs.inode k.fs.cwd).ref := by
    have some := passable.cwd.1
    rw [h.during.cwd, h.during.ref]
    omega
  have start : k.fs.start path.val = k₀.fs.start path.val := by
    unfold Fs.start
    rw [same]
  rw [← start]
  refine namex_during passable.walk path.val nameiparent (fun _ => 0) h.during path.property passable.root
    ⟨used, same ▸ passable.cwd.2⟩ ?_
  unfold Startable
  rw [same, h.during.volume]
  exact passable.start

theorem Midway.nameiparent (h : Midway held [] v k₀ k) {path : Path} (passable : Passable v k₀.fs path.val) :
    Ends (Sysfile.onFs (Namei.nameiparent path.val fun _ => 0)) k Full fun r k' =>
      r.1 = none ∧ target true v (k₀.fs.start path.val) path.val = none ∧ Midway held [] v k₀ k' ∨
      ∃ dp d, r.1 = some dp ∧ target true v (k₀.fs.start path.val) path.val = some d ∧ IsDir v d ∧
        nameKey r.2 = lastName path.val ∧ Midway ((dp, d) :: held) [] v k₀ k' := by
  refine (h.onFs (h.walk passable true) fun r s walked => ?_).mono fun r k' both => ?_
  · rcases walked with ⟨-, -, t⟩ | ⟨ip, j, -, -, -, t, -⟩
    · exact t.cwd.trans h.during.cwd.symm
    · exact t.cwd.trans h.during.cwd.symm
  · obtain ⟨⟨none, missing, t⟩ | ⟨dp, d, some, found, -, t, last⟩, rest⟩ := both
    · exact .inl ⟨none, missing, rest _ _ _ t⟩
    · exact .inr ⟨dp, d, some, found, (last rfl).1, (last rfl).2, rest _ _ _ t⟩

theorem Midway.namei (h : Midway held [] v k₀ k) {path : Path} (passable : Passable v k₀.fs path.val) :
    Ends (Sysfile.onFs (Namei.namei path.val)) k Full fun r k' =>
      r = none ∧ target false v (k₀.fs.start path.val) path.val = none ∧ Midway held [] v k₀ k' ∨
      ∃ ip i, r = some ip ∧ target false v (k₀.fs.start path.val) path.val = some i ∧ Named v i ∧
      Midway ((ip, i) :: held) [] v k₀ k' := by
  have ends : Ends (Namei.namei path.val) k.fs Full fun r s => ∃ name,
      Walked false held v k₀.fs (k₀.fs.start path.val) path.val (r, name) s :=
    (h.walk passable false).bind fun r s walked => Ends.pure ⟨r.2, walked⟩
  refine (h.onFs ends fun r s walked => ?_).mono fun r k' both => ?_
  · obtain ⟨name, ⟨-, -, t⟩ | ⟨ip, j, -, -, -, t, -⟩⟩ := walked
    · exact t.cwd.trans h.during.cwd.symm
    · exact t.cwd.trans h.during.cwd.symm
  · obtain ⟨⟨name, ⟨none, missing, t⟩ | ⟨ip, i, some, found, named, t, -⟩⟩, rest⟩ := both
    · exact .inl ⟨none, missing, rest _ _ _ t⟩
    · exact .inr ⟨ip, i, some, found, named, rest _ _ _ t⟩

theorem Midway.iget_new (h : Midway held locks v k₀ k) (i : Nat) :
    Ends (Sysfile.onFs (iget i)) k Full fun ip k' => Allocated ip ((ip, i) :: held) locks v k₀ k' := by
  refine Ends.part ((Links.iget_new h.during).mono fun ip s both => ?_)
  obtain ⟨table, sure⟩ := both
  have cwd := table.cwd.trans h.during.cwd.symm
  rw [← k.setFs_fs s] at table sure
  exact ⟨table, sure, { h.rest with proc := (k.setFs_proc cwd).trans h.rest.proc }⟩

/-- An inode that has just been allocated is locked. -/
theorem Allocated.ilock (a : Allocated ip held locks v k₀ k) (member : (ip, i) ∈ held) (free : ip ∉ locks)
    (live : (v.inode i).type ≠ 0) :
    Ends (Sysfile.onFs (Namei.ilock ip)) k E fun _ k' => Midway held (ip :: locks) v k₀ k' := by
  refine Ends.part ((ilock_new a.table a.sure member free live).mono fun _ s t => ?_)
  have cwd := t.cwd.trans a.table.cwd.symm
  rw [← k.setFs_fs s] at t
  exact ⟨t, { a.rest with proc := (k.setFs_proc cwd).trans a.rest.proc }⟩

/-- `ialloc` before anything has been changed. -/
theorem Midway.ialloc (h : Midway held locks k₀.volume k₀ k) (steady : Steady n start k₀.fs)
    (ninodes : k₀.ninodes = n) (type : Nat)
    (fit : ∀ b i, (b, i) ∈ held → (k₀.volume.inode i).type ≠ 0) :
    Ends (Sysfile.ialloc type) k Full fun r k' =>
      r = none ∧ Midway held locks k₀.volume k₀ k' ∨ ∃ ip i, r = some ip ∧
        (k₀.volume.inode i).type = 0 ∧ (0 < i ∧ i < n) ∧
        Allocated ip ((ip, i) :: held) locks
        (k₀.volume.setInode i ⟨type, 0, 0, fun _ => 0⟩).logWrite k₀ k' := by
  have volume := h.volume
  unfold Sysfile.ialloc
  refine Ends.bind_run (rfl : (get : SysM Kernel) k = .ok (k, k)) ?_
  cases found : k.freeInode with
  | none => exact Ends.pure (.inl ⟨rfl, h⟩)
  | some i =>
    have free := freeInode_free found
    have inside : 0 < i ∧ i < n := by
      unfold Kernel.freeInode at found
      have positive := List.find?_some found
      have below := List.mem_of_find?_eq_some found
      rw [List.mem_range, h.rest.ninodes, ninodes] at below
      simp only [decide_eq_true_eq] at positive
      exact ⟨positive.1, below⟩
    rw [volume] at free ⊢
    -- no entry in use is for a free inode
    have unused (b : Namei.Slot) (used : 0 < (k.inode b).ref) : (k.inode b).inum ≠ i := by
      intro same
      by_cases base : 0 < (k₀.inode b).ref
      · have old : (k.inode b).inum = (k₀.inode b).inum := h.during.old base
        have live : (k₀.volume.inode (k₀.inode b).inum).type ≠ 0 := steady.used base
        rw [← old, same] at live
        exact live free
      · have count : (k.inode b).ref = (k₀.inode b).ref + _ := h.during.ref b
        obtain ⟨⟨c, j⟩, member, rfl⟩ :=
          List.mem_map.mp (List.count_pos_iff.mp (by omega : 0 < (held.map Prod.fst).count b))
        have inum : (k.inode c).inum = j := h.during.inum member
        exact fit c j member (by rw [← inum, same, free])
    have set : Midway held locks (k₀.volume.setInode i ⟨type, 0, 0, fun _ => 0⟩).logWrite k₀ { k with
        volume := (k₀.volume.setInode i ⟨type, 0, 0, fun _ => 0⟩).logWrite
        major := update k.major i 0
        minor := update k.minor i 0 } := by
      refine ⟨h.during.setVolume _ fun j linked => ?_, { h.rest with }⟩
      by_cases here : j = i
      · exact .inr fun b used same => absurd (same.trans here) (unused b used)
      · left
        have other : ((k₀.volume.setInode i ⟨type, 0, 0, fun _ => 0⟩).logWrite.inode j) =
          k₀.volume.inode j := update_of_ne here ..
        rwa [other]
    exact Ends.bind_run rfl ((set.iget_new i).bind fun ip k' new => Ends.pure
      (.inr ⟨ip, i, rfl, free, inside, new⟩))

end Midway

end Xv6.Sysfile.Links
