import Xv6.Namei.Runs
import Xv6.Sysfile.Space
import Mathlib.Data.List.Find

/-! The inode table during a call: some entries have more references than before, and some are locked. -/

namespace Xv6.Sysfile
open Function Content Namei

/-- Since `s₀` the entries in `held` have got a reference each, for the inodes there, those in `locks` have
been locked, and the disk has become `v`. -/
structure Table (held : List (Namei.Slot × Nat)) (locks : List Namei.Slot) (v : Volume)
    (s₀ s : Fs) : Prop where
  volume : s.volume = v
  cwd : s.cwd = s₀.cwd
  ref (b) : (s.inode b).ref = (s₀.inode b).ref + (held.map Prod.fst).count b
  old {b} : 0 < (s₀.inode b).ref → (s.inode b).inum = (s₀.inode b).inum
  inum {b i} : (b, i) ∈ held → (s.inode b).inum = i
  locked (b) : (s.inode b).locked = decide (b ∈ locks)
  owned {b} : b ∈ locks → b ∈ held.map Prod.fst
  valid {b} : b ∈ locks → (s.inode b).valid = true
  unique : s.Unique

/-- An inode that is not freed when the last reference to it that is not in `held` is dropped. -/
def Live (held : List (Namei.Slot × Nat)) (v : Volume) (s₀ : Fs) (i : Nat) : Prop :=
  (v.inode i).nlink ≠ 0 ∨ (∃ b, 0 < (s₀.inode b).ref ∧ (s₀.inode b).inum = i) ∨ i ∈ held.map Prod.snd

section Table

variable {s₀ s s' : Fs} {v v' : Volume} {held held' : List (Namei.Slot × Nat)}
  {locks locks' refs : List Namei.Slot} {ip dp b : Namei.Slot} {d i : Nat}

theorem Table.used (t : Table held locks v s₀ s) (member : b ∈ held.map Prod.fst) : 0 < (s.inode b).ref := by
  have more := List.count_pos_iff.mpr member
  rw [t.ref]
  omega

theorem Table.mem (member : (b, i) ∈ held) : b ∈ held.map Prod.fst := List.mem_map.mpr ⟨_, member, rfl⟩

/-- An entry is stored. -/
theorem Table.set (t : Table held locks v s₀ s) {e : Namei.Entry}
    (others : ∀ b, b ≠ ip → (held'.map Prod.fst).count b = (held.map Prod.fst).count b ∧
      (b ∈ locks' ↔ b ∈ locks) ∧
      ∀ i, (b, i) ∈ held' → (b, i) ∈ held)
    (ref : e.ref = (s₀.inode ip).ref + (held'.map Prod.fst).count ip) (old : 0 < (s₀.inode ip).ref →
      e.inum = (s₀.inode ip).inum)
    (inum : ∀ i, (ip, i) ∈ held' → e.inum = i) (locked : e.locked = decide (ip ∈ locks'))
    (mine : ip ∈ locks' → ip ∈ held'.map Prod.fst ∧ e.valid = true)
    (unique : ∀ b, b ≠ ip → 0 < (s.inode b).ref → (s.inode b).inum = e.inum → e.ref = 0) :
    Table held' locks' v s₀ { s with inode := update s.inode ip e } := by
  have owned : ∀ b ∈ locks', b ∈ held'.map Prod.fst := fun b member => by
    by_cases here : b = ip
    · rw [here] at member ⊢
      exact (mine member).1
    · have more := List.count_pos_iff.mpr (t.owned ((others b here).2.1.mp member))
      rw [← (others b here).1] at more
      exact List.count_pos_iff.mp more
  refine ⟨t.volume, t.cwd, fun b => ?_, fun {b} used => ?_, fun {b i} member => ?_, fun b => ?_,
    @owned, fun {b} member => ?_,
    t.unique.set unique⟩
  all_goals
    dsimp only
    by_cases here : b = ip
  · rw [here, update_self, ref]
  · rw [update_of_ne here, t.ref, (others b here).1]
  · rw [here] at used ⊢
    rw [update_self, old used]
  · rw [update_of_ne here, t.old used]
  · rw [here] at member ⊢
    rw [update_self, inum i member]
  · rw [update_of_ne here, t.inum ((others b here).2.2 i member)]
  · rw [here, update_self, locked]
  · rw [update_of_ne here, t.locked]
    exact decide_eq_decide.mpr (others b here).2.1.symm
  · rw [here] at member ⊢
    rw [update_self, (mine member).2]
  · rw [update_of_ne here, t.valid ((others b here).2.1.mp member)]

/-- An entry in use is stored again with other fields for the reference count, the lock and the validity. -/
theorem Table.keep (t : Table held locks v s₀ s) {e : Namei.Entry}
    (others : ∀ b, b ≠ ip → (held'.map Prod.fst).count b = (held.map Prod.fst).count b ∧
      (b ∈ locks' ↔ b ∈ locks) ∧
      ∀ i, (b, i) ∈ held' → (b, i) ∈ held)
    (ref : e.ref = (s₀.inode ip).ref + (held'.map Prod.fst).count ip) (same : e.inum = (s.inode ip).inum)
    (inum : ∀ i, (ip, i) ∈ held' → (s.inode ip).inum = i) (locked : e.locked = decide (ip ∈ locks'))
    (mine : ip ∈ locks' → ip ∈ held'.map Prod.fst ∧ e.valid = true) (used : 0 < (s.inode ip).ref) :
    Table held' locks' v s₀ { s with inode := update s.inode ip e } := by
  refine t.set others ref (fun old => same.trans (t.old old))
    (fun i member => same.trans (inum i member)) locked mine
    fun b other live eq => ?_
  exact absurd (t.unique b ip live used (eq.trans same)) other

theorem Table.refl (unlocked : ∀ b, (s.inode b).locked = false) (unique : s.Unique) :
    Table [] [] s.volume s s :=
  ⟨rfl, rfl, fun _ => rfl, fun _ => rfl, nofun, fun b => by rw [unlocked]; rfl, nofun, nofun, unique⟩

theorem Table.congr (t : Table held locks v s₀ s) (perm : held.Perm held')
    (same : ∀ b, b ∈ locks' ↔ b ∈ locks) :
    Table held' locks' v s₀ s where
  volume := t.volume
  cwd := t.cwd
  ref b := by rw [t.ref, (perm.map Prod.fst).count_eq]
  old := t.old
  inum member := t.inum (perm.mem_iff.mpr member)
  locked b := (t.locked b).trans (decide_eq_decide.mpr (same b).symm)
  owned member := (perm.map Prod.fst).mem_iff.mp (t.owned ((same _).mp member))
  valid member := t.valid ((same _).mp member)
  unique := t.unique

theorem Table.setVolume (t : Table held locks v s₀ s) (v' : Volume) :
    Table held locks v' s₀ { s with volume := v' } :=
  { t with volume := rfl }

theorem count_fst_cons {b : Namei.Slot} (other : b ≠ ip) :
    (((ip, i) :: held).map Prod.fst).count b = (held.map Prod.fst).count b := by
  rw [List.map_cons]
  exact List.count_cons_of_ne (Ne.symm other)

/-- An entry other than the first one in the list. -/
theorem mem_of_ne (other : b ≠ ip) {j : Nat} (member : (b, j) ∈ (ip, i) :: held) : (b, j) ∈ held :=
  (List.mem_cons.mp member).resolve_left fun same => other (Prod.ext_iff.mp same).1

theorem iget_gives (t : Table held locks v s₀ s) :
    Gives (iget i) s fun ip s' => Table ((ip, i) :: held) locks v s₀ s' := by
  unfold iget
  refine Gives.bind_run (rfl : (get : FsM Fs) s = .ok (s, s)) ?_
  cases found : s.lookup i with
  | some ip =>
    obtain ⟨used, inum⟩ := lookup_some found
    refine Gives.seq (Gives.modify (Gives.pure ?_))
    refine t.keep (fun b other => ⟨count_fst_cons other, Iff.rfl, fun _ => mem_of_ne other⟩) ?_ rfl
      (fun j member => ?_) (t.locked ip)
      (fun member => ⟨List.mem_cons_self .., t.valid member⟩) used
    · rw [List.map_cons, List.count_cons_self, ← Nat.add_assoc, ← t.ref]
    · rcases List.mem_cons.mp member with same | member
      · exact inum.trans (Prod.ext_iff.mp same).2.symm
      · exact t.inum member
  | none =>
    cases unused : s.empty with
    | none => exact Gives.throw _
    | some ip =>
      have zero := empty_some unused
      have count := t.ref ip
      have absent : ip ∉ held.map Prod.fst := fun member => by
        have used := t.used member
        omega
      refine Gives.seq (Gives.modify (Gives.pure ?_))
      refine t.set (fun b other => ⟨count_fst_cons other, Iff.rfl, fun _ => mem_of_ne other⟩) ?_
        (fun old => by omega)
        (fun j member => ?_) (t.locked ip) (fun member => absurd (t.owned member) absent)
        fun b other used same => absurd same (lookup_none found b used)
      · rw [List.map_cons, List.count_cons_self]
        dsimp only
        omega
      · rcases List.mem_cons.mp member with same | member
        · exact (Prod.ext_iff.mp same).2.symm
        · exact absurd (Table.mem member) absent

theorem ilock_gives (t : Table held locks v s₀ s) (member : (ip, i) ∈ held) :
    Gives (ilock ip) s fun _ s' => ip ∉ locks ∧ Table held (ip :: locks) v s₀ s' := by
  unfold ilock
  refine Gives.bind_run (rfl : (get : FsM Fs) s = .ok (s, s)) ?_
  refine Gives.ite (fun _ => Gives.throw _) fun _ => Gives.ite (fun _ => Gives.throw _) fun free =>
    Gives.ite (fun _ => Gives.throw _) fun _ => Gives.modify ?_
  rw [t.locked, decide_eq_true_eq] at free
  refine ⟨free, t.keep (fun b other => ⟨rfl, ?_, fun _ => id⟩) (t.ref ip) rfl (fun _ => t.inum) ?_
    (fun _ => ⟨Table.mem member, rfl⟩)
    (t.used (Table.mem member))⟩
  · rw [List.mem_cons]
    exact or_iff_right other
  · exact (decide_eq_true (List.mem_cons_self ..)).symm

theorem iunlock_gives (t : Table held (ip :: locks) v s₀ s) (once : ip ∉ locks) :
    Gives (iunlock ip) s fun _ s' => Table held locks v s₀ s' := by
  unfold iunlock
  refine Gives.bind_run (rfl : (get : FsM Fs) s = .ok (s, s))
    (Gives.ite (fun _ => Gives.throw _) fun _ => Gives.modify ?_)
  refine t.keep (fun b other => ⟨rfl, ?_, fun _ => id⟩) (t.ref ip) rfl (fun _ => t.inum)
    (decide_eq_false once).symm
    (fun member => absurd member once) (t.used (t.owned (List.mem_cons_self ..)))
  rw [List.mem_cons]
  exact (or_iff_right other).symm

/-- A reference to a live inode is not the last one to an inode without links. -/
theorem Live.linked (live : Live held v s₀ i) (t : Table ((ip, i) :: held) locks v s₀ s) :
    ¬((s.inode ip).ref = 1 ∧ (s.inode ip).valid ∧ (s.volume.inode (s.inode ip).inum).nlink = 0) := by
  rintro ⟨last, -, unlinked⟩
  have count := t.ref ip
  rw [List.map_cons, List.count_cons_self] at count
  have inum := t.inum (List.mem_cons_self ..)
  rw [t.volume, inum] at unlinked
  rcases live with linked | ⟨b, used, same⟩ | member
  · exact linked unlinked
  · have used' := t.ref b
    obtain rfl := t.unique b ip (by omega) (by omega) (((t.old used).trans same).trans inum.symm)
    omega
  · obtain ⟨⟨c, j⟩, listed, rfl⟩ := List.mem_map.mp member
    have used := t.used (Table.mem (List.mem_cons_of_mem _ listed))
    obtain rfl := t.unique c ip used (by omega) ((t.inum (List.mem_cons_of_mem _ listed)).trans inum.symm)
    have more := List.count_pos_iff.mpr (Table.mem listed)
    omega

/-- What `iput` leaves of the table. -/
theorem Table.drop (t : Table ((ip, i) :: held) locks v s₀ s) {e : Namei.Entry}
    (ref : e.ref = (s.inode ip).ref - 1)
    (same : e.inum = (s.inode ip).inum) (locked : e.locked = (s.inode ip).locked)
    (mine : ip ∈ locks → ip ∈ held.map Prod.fst ∧ e.valid = true) :
    Table held locks v s₀ { s with inode := update s.inode ip e } := by
  have count := t.ref ip
  rw [List.map_cons, List.count_cons_self] at count
  refine t.keep (fun b other => ⟨(count_fst_cons other).symm, Iff.rfl, fun _ => List.mem_cons_of_mem _⟩)
    ?_ same
    (fun _ member => t.inum (List.mem_cons_of_mem _ member)) (locked.trans (t.locked ip)) mine (by omega)
  omega

theorem iput_gives (t : Table ((ip, i) :: held) locks v s₀ s) (owned : ip ∈ locks → ip ∈ held.map Prod.fst)
    (live : Live held v s₀ i) :
    Gives (iput ip) s fun _ s' => Table held locks v s₀ s' := by
  unfold iput
  refine Gives.bind_run (rfl : (get : FsM Fs) s = .ok (s, s)) ?_
  dsimp only
  rw [if_neg (live.linked t)]
  exact Gives.modify (t.drop rfl rfl rfl fun member => ⟨owned member, t.valid member⟩)

theorem iunlockput_gives (t : Table ((ip, i) :: held) (ip :: locks) v s₀ s) (once : ip ∉ locks)
    (live : Live held v s₀ i) :
    Gives (iunlockput ip) s fun _ s' => Table held locks v s₀ s' :=
  (iunlock_gives t once).bind fun _ _ unlocked => iput_gives unlocked (fun member => absurd member once) live

theorem iunlock_valid (valid : (s.inode ip).valid = true) :
    Gives (iunlock ip) s fun _ s' => (s'.inode ip).valid = true := by
  unfold iunlock
  refine Gives.bind_run (rfl : (get : FsM Fs) s = .ok (s, s))
    (Gives.ite (fun _ => Gives.throw _) fun _ => Gives.modify ?_)
  dsimp only
  rw [update_self, valid]

/-- The last reference to an inode without links is dropped. -/
theorem iunlockput_frees (t : Table ((ip, i) :: held) (ip :: locks) v s₀ s) (once : ip ∉ locks)
    (alone : ip ∉ held.map Prod.fst)
    (unused : (s₀.inode ip).ref = 0) (unlinked : (v.inode i).nlink = 0) (run : v.iputFree i = .ok v') :
    Gives (iunlockput ip) s fun _ s' => Table held locks v' s₀ s' := by
  unfold iunlockput
  refine ((iunlock_gives t once).and (iunlock_valid (t.valid (List.mem_cons_self ..)))).bind
    fun _ s₁ ⟨t₁, valid⟩ => ?_
  have inum := t₁.inum (List.mem_cons_self ..)
  have last : (s₁.inode ip).ref = 1 := by
    rw [t₁.ref, unused, List.map_cons, List.count_cons_self, List.count_eq_zero.mpr alone]
  unfold iput
  refine Gives.bind_run (rfl : (get : FsM Fs) s₁ = .ok (s₁, s₁)) ?_
  dsimp only
  rw [t₁.volume, inum, if_pos ⟨last, valid, unlinked⟩]
  have freed : Gives (free ip) s₁ fun _ s₂ =>
      s₂ = { s₁ with volume := v', inode := update s₁.inode ip { s₁.inode ip with valid := false } } := by
    unfold free
    refine Gives.bind_run (rfl : (get : FsM Fs) s₁ = .ok (s₁, s₁))
      (Gives.ite (fun _ => Gives.throw _) fun _ => ?_)
    refine Gives.bind_run (?_ : _ = Except.ok ((), { s₁ with volume := v' })) (Gives.modify rfl)
    unfold onVolume zoom
    unfold Volume.iputFree at run
    rw [inum, t₁.volume]
    beta_reduce
    revert run
    cases v.itrunc i with
    | error message => nofun
    | ok v₂ =>
      rintro ⟨⟩
      rfl
  refine freed.bind ?_
  rintro _ _ rfl
  refine Gives.modify ?_
  dsimp only
  rw [update_idem, update_self]
  exact (t₁.setVolume v').drop rfl rfl rfl fun member => absurd member once

/-! ### Names -/

/-- A run on the disk that leaves the disk as `v'`. -/
theorem onVolume_gives {α : Type} {m : Volume → Except String (α × Volume)} {a : α}
    (t : Table held locks v s₀ s)
    (run : m v = .ok (a, v')) : Gives (onVolume m) s fun r s' => r = a ∧ s' = { s with volume := v' } := by
  refine Gives.of_run (?_ : _ = Except.ok (a, { s with volume := v' })) ⟨rfl, rfl⟩
  unfold onVolume zoom
  rw [t.volume, run]

/-- A directory whose entries can be looked up. -/
structure Directory (v : Volume) (d : Nat) : Prop where
  dir : (v.inode d).type = T_DIR
  full : v.NoHoles d
  aligned : (v.inode d).size % direntSize = 0

theorem dirlookup_gives (t : Table held locks v s₀ s) (member : (dp, d) ∈ held) (cons : v.Consistent)
    (dir : Directory v d)
    (name : Bytes) : Gives (dirlookup dp name) s fun r s' => child v d (nameKey name) = none ∧
    r = none ∧ s' = s ∨
      ∃ i ip, child v d (nameKey name) = some i ∧ r = some ip ∧ Table ((ip, i) :: held) locks v s₀ s' := by
  unfold dirlookup
  refine Gives.bind_run (rfl : (get : FsM Fs) s = .ok (s, s)) ?_
  rw [t.inum member]
  have found := dirlookup_child name cons dir.dir dir.full dir.aligned
  rw [← t.volume] at found ⊢
  rcases found with ⟨none, run⟩ | ⟨k, -, -, some, run⟩
  · exact Gives.bind_run (onVolume_run run) (Gives.pure (.inl ⟨none, rfl, rfl⟩))
  · refine Gives.bind_run (onVolume_run run) ((iget_gives (t.volume ▸ t)).bind fun ip s' got => Gives.pure ?_)
    exact .inr ⟨_, ip, some, rfl, got⟩

theorem dirlookupOff_gives (t : Table held locks v s₀ s) (member : (dp, d) ∈ held) (cons : v.Consistent)
    (dir : Directory v d)
    (name : Bytes) : Gives (dirlookupOff dp name) s fun r s' => r = none ∧ s' = s ∨
      ∃ i ip off, child v d (nameKey name) = some i ∧ r = some (ip, off) ∧
      Table ((ip, i) :: held) locks v s₀ s' := by
  unfold dirlookupOff
  refine Gives.bind_run (rfl : (get : FsM Fs) s = .ok (s, s)) ?_
  rw [t.inum member]
  have found := dirlookup_child name cons dir.dir dir.full dir.aligned
  rw [← t.volume] at found ⊢
  rcases found with ⟨none, run⟩ | ⟨k, -, -, some, run⟩
  · exact Gives.bind_run (onVolume_run run) (Gives.pure (.inl ⟨rfl, rfl⟩))
  · refine Gives.bind_run (onVolume_run run) ((iget_gives (t.volume ▸ t)).bind fun ip s' got => Gives.pure ?_)
    exact .inr ⟨_, ip, _, some, rfl, got⟩

/-- `dirlink` fails if the name is there, and otherwise adds an entry or fails. -/
theorem dirlink_gives (t : Table held locks v s₀ s) (member : (dp, d) ∈ held) (cons : v.Consistent)
    (dir : Directory v d)
    (name : Bytes) (inum : Nat) (live : ∀ i, child v d (nameKey name) = some i → Live held v s₀ i) :
    Gives (dirlink dp name inum) s fun r s' => child v d (nameKey name) ≠ none ∧ r = -1 ∧
    Table held locks v s₀ s' ∨
      child v d (nameKey name) = none ∧ ∃ v', addEntry v d name inum = .ok (r, v') ∧
      s' = { s with volume := v' } := by
  unfold dirlink
  refine (dirlookup_gives t member cons dir name).bind fun r s₁ looked => ?_
  rcases looked with ⟨none, rfl, rfl⟩ | ⟨i, ip, some, rfl, took⟩
  · refine Gives.bind_run (rfl : (get : FsM Fs) s₁ = .ok (s₁, s₁)) ?_
    obtain ⟨r, v', run, -⟩ := addEntry_spec name inum cons dir.full dir.aligned
    rw [t.inum member]
    refine (onVolume_gives t run).mono ?_
    rintro _ _ ⟨rfl, rfl⟩
    exact .inr ⟨none, v', run, rfl⟩
  · refine (iput_gives took t.owned (live i some)).bind fun _ s₂ dropped => Gives.pure
      (.inl ⟨?_, rfl, dropped⟩)
    rw [some]
    exact Option.some_ne_none i

/-- A path is followed while nothing is locked. -/
theorem Table.walk (t : Table held [] v s₀ s) (holds : Holds refs none s s') :
    Table (refs.map (fun b => (b, (s'.inode b).inum)) ++ held) [] v s₀ s' where
  volume := holds.volume.trans t.volume
  cwd := holds.cwd.trans t.cwd
  ref b := by
    rw [holds.ref, t.ref, List.map_append, List.count_append, List.map_map, Nat.add_assoc,
      Nat.add_comm (List.count b _)]
    congr 3
    exact (List.map_id refs).symm
  old used := (holds.inum (by rw [t.ref]; omega)).trans (t.old used)
  inum member := by
    rcases List.mem_append.mp member with found | member
    · obtain ⟨c, -, same⟩ := List.mem_map.mp found
      obtain ⟨rfl, rfl⟩ := Prod.mk.inj same
      rfl
    · exact (holds.inum (t.used (Table.mem member))).trans (t.inum member)
  locked := holds.locked
  owned := nofun
  valid := nofun
  unique := holds.unique

theorem Live.of_present (present : s.Present i) (t : Table held locks v s₀ s) : Live held v s₀ i := by
  rcases present.2 with linked | ⟨b, used, inum⟩
  · exact .inl (t.volume ▸ linked)
  · by_cases old : 0 < (s₀.inode b).ref
    · exact .inr (.inl ⟨b, old, (t.old old).symm.trans inum⟩)
    · rw [t.ref] at used
      obtain ⟨⟨c, j⟩, member, rfl⟩ :=
        List.mem_map.mp (List.count_pos_iff.mp (by omega : 0 < (held.map Prod.fst).count b))
      exact .inr (.inr (List.mem_map.mpr ⟨_, member, (t.inum member).symm.trans inum⟩))

theorem Live.mono (live : Live held v s₀ i) (nlink : (v'.inode i).nlink = (v.inode i).nlink)
    (more : held ⊆ held') :
    Live held' v' s₀ i := by
  rcases live with linked | used | member
  · exact .inl (nlink ▸ linked)
  · exact .inr (.inl used)
  · exact .inr (.inr (List.map_subset Prod.snd more member))

theorem Tree.directory (tree : Tree s) (dir : (s.volume.inode d).type = T_DIR) : Directory s.volume d :=
  ⟨dir, tree.full dir, tree.aligned dir⟩

theorem Directory.kept (dir : Directory v d) (kept : Volume.Kept d v v') : Directory v' d :=
  ⟨kept.type.trans dir.dir, kept.full, kept.size ▸ dir.aligned⟩

/-- A directory that is kept has the same names in it. -/
theorem child_kept (kept : Volume.Kept d v v') (name : Name) : child v' d name = child v d name := by
  unfold child
  rw [kept.type, kept.count]
  split
  · have entries : ∀ k ∈ List.range (v.count d), decide (v'.inum d k ≠ 0 ∧ v'.name d k = name) =
        decide (v.inum d k ≠ 0 ∧ v.name d k = name) := fun k below => by
      rw [(kept.entry (List.mem_range.mp below)).1, (kept.entry (List.mem_range.mp below)).2]
    rw [List.find?_congr entries]
    cases found : (List.range (v.count d)).find? fun k => decide (v.inum d k ≠ 0 ∧ v.name d k = name) with
    | none => rfl
    | some k =>
      rw [Option.map_some, Option.map_some,
        (kept.entry (List.mem_range.mp (List.mem_of_find?_eq_some found))).1]
  · rfl

/-- A tree stays one when the links of inodes change to which there are references. -/
theorem Tree.moved (tree : Tree s₀) (t : Table held [] v s₀ s) (cons : v.Consistent)
    (types : ∀ e, (v.inode e).type = (s₀.volume.inode e).type) (kept : ∀ e, s₀.volume.NoHoles e →
      Volume.Kept e s₀.volume v)
    (links : ∀ e, (v.inode e).nlink = (s₀.volume.inode e).nlink ∨ e ∈ held.map Prod.snd) : Tree s := by
  obtain rfl := t.volume
  have present {e : Nat} (present : s₀.Present e) : s.Present e := by
    refine ⟨by rw [types]; exact present.1, ?_⟩
    rcases links e with same | member
    · rcases present.2 with linked | ⟨b, used, inum⟩
      · exact .inl (same ▸ linked)
      · exact .inr ⟨b, by rw [t.ref]; omega, (t.old used).trans inum⟩
    · obtain ⟨⟨b, j⟩, listed, rfl⟩ := List.mem_map.mp member
      exact .inr ⟨b, t.used (Table.mem listed), t.inum listed⟩
  have old {d : Nat} (dir : (s.volume.inode d).type = T_DIR) : (s₀.volume.inode d).type = T_DIR :=
    (types d).symm.trans dir
  exact {
    cons
    full := fun dir => (kept _ (tree.full (old dir))).full
    aligned := fun dir => by
      rw [(kept _ (tree.full (old dir))).size]
      exact tree.aligned (old dir)
    entries := fun {d k} dir below live => by
      have same := kept _ (tree.full (old dir))
      rw [same.count] at below
      rw [(same.entry below).1] at live ⊢
      exact present (tree.entries (old dir) below live)
    root := present tree.root
    cwd := by
      obtain ⟨used, there⟩ := tree.cwd
      rw [t.cwd, t.old used]
      exact ⟨by rw [t.ref]; omega, present there⟩
    unlocked := fun b => t.locked b
    unique := t.unique }

end Table

end Xv6.Sysfile
