import Xv6.Sysfile.Holding

/-! `create`: when it makes an inode, and that it leaves no trace when it fails. -/

namespace Xv6.Sysfile
open Function Content Namei

/-- Allocated inodes and their contents are as they were, and no other inode has been allocated. -/
structure Unseen (v v' : Volume) : Prop where
  free {e} : (v.inode e).type = 0 → (v'.inode e).type = 0
  agrees {e} : (v.inode e).type ≠ 0 → Agrees e v v'

/-- The name that a path ends with. -/
def lastName (path : List UInt8) : Name := ((components path).getLastD []).take DIRSIZ

/-- There is a directory for a new inode with a path, in which the name is not used and there is room for it,
and an inode is free. -/
def Kernel.Fresh (k : Kernel) (path : List UInt8) : Prop :=
  ∃ d, parent k.volume (k.fs.start path) (components path) = some d ∧
    child k.volume d (lastName path) = none ∧
    k.freeInode ≠ none ∧ Room k.volume d

section Create

variable {k₀ k k' : Kernel} {v v' : Volume} {held held' : List (Namei.Slot × Nat)}
  {locks locks' : List Namei.Slot} {ip dp : Namei.Slot}
  {d i type : Nat} {name : Bytes}

theorem Unseen.refl (full : ∀ e, (v.inode e).type ≠ 0 → v.NoHoles e) : Unseen v v :=
  ⟨id, fun used => .refl (full _ used)⟩

theorem Live.of_base {s₀ : Fs} (present : s₀.Present i) : Live held s₀.volume s₀ i := present.2.imp id .inl

/-- An entry that could not be written. -/
theorem addEntry_failed {inum : Nat} {r : Int} (cons : v.Consistent) (dir : Directory v d)
    (run : addEntry v d name inum = .ok (r, v')) :
    v'.Consistent ∧ Only d v v' ∧ ((v'.inode d).type = (v.inode d).type ∧ (v'.inode d).nlink =
      (v.inode d).nlink) ∧
      (r = 0 ∨ r = -1 ∧ Agrees d v v') ∧
      (v.used 0 = true → (r = 0 ↔ Room v d)) := by
  obtain ⟨r', v₁, run', cons', only, nlink, room, k, -, -, r₁, written, answer⟩ :=
    addEntry_spec name inum cons dir.full dir.aligned
  rw [run] at run'
  cases run'
  refine ⟨cons', only, ⟨written.fields, nlink⟩, ?_, room⟩
  by_cases done : r₁ = direntSize
  · exact .inl (answer.trans (if_pos done))
  · exact .inr ⟨answer.trans (if_neg done), written.failed done, nlink⟩

theorem child_empty (empty : v.count d = 0) (name : Name) : child v d name = none :=
  (child_none name).mpr (.inr fun k below => absurd below (by omega))

/-- The entries of a new directory are made in it and nowhere else. -/
theorem dotLinks_gives (h : Holding held locks v k₀ k) (member : (ip, i) ∈ held) (cons : v.Consistent)
    (dir : (v.inode i).type = T_DIR) (empty : (v.inode i).size = 0) : Gives (dotLinks ip dp) k fun _ k' =>
      ∃ v', Holding held locks v' k₀ k' ∧ v'.Consistent ∧ Only i v v' := by
  have directory : Directory v i := ⟨dir, fun bn below => absurd below (by omega), by rw [empty]; rfl⟩
  have none : v.count i = 0 := by
    unfold Volume.count
    rw [empty]
    rfl
  unfold dotLinks
  refine Gives.bind_run (rfl : (get : SysM Kernel) k = .ok (k, k)) ?_
  refine (h.dirlink member cons directory dot _ fun j some => ?_).bind fun r k₁ linked => ?_
  · rw [child_empty none] at some
    cases some
  rcases linked with ⟨some, -⟩ | ⟨-, v₁, run, h₁⟩
  · exact absurd (child_empty none _) some
  obtain ⟨r', v', run', cons₁, only, -, -, l, at_most, -, r₁, written, answer⟩ :=
    addEntry_spec dot (k.inum ip) cons directory.full directory.aligned
  rw [run] at run'
  cases run'
  refine Gives.ite (fun _ => Gives.pure ⟨_, h₁, cons₁, only⟩) fun ok => ?_
  have done : r₁ = direntSize := by
    by_contra short
    rw [answer, if_neg short] at ok
    exact ok (by decide)
  obtain ⟨aligned, count, ⟨-, named⟩, -⟩ := written.entries done directory.aligned at_most
  have directory₁ : Directory v₁ i :=
    ⟨written.fields.trans dir, written.safe.noHoles i directory.full, aligned⟩
  have other : child v₁ i (nameKey dotdot) = .none := (child_none _).mpr (.inr fun j below _ => by
    obtain rfl : j = l := by omega
    rw [named, dirent_name]
    decide)
  refine (h₁.dirlink member cons₁ directory₁ dotdot _ fun j some => ?_).bind fun r k₂ linked => ?_
  · rw [other] at some
    cases some
  rcases linked with ⟨some, -⟩ | ⟨-, v₂, run, h₂⟩
  · exact absurd other some
  obtain ⟨cons₂, only₂, -⟩ := addEntry_failed cons₁ directory₁ run
  exact Gives.ite (fun _ => Gives.pure ⟨v₂, h₂, cons₂, only.trans only₂⟩) fun _ => Gives.pure
    ⟨v₂, h₂, cons₂, only.trans only₂⟩

/-- A new inode as `create` fills it in. -/
theorem newInode_spec (cons : v.Consistent) (i type : Nat) : ∃ v',
    (v.setInode i ⟨type, 0, 0, fun _ => 0⟩).logWrite.setNlink i 1 = v' ∧ v'.Consistent ∧ Only i v v' ∧
      v'.inode i = ⟨type, 1, 0, fun _ => 0⟩ ∧ v'.used = v.used ∧ ∀ d, d ≠ i → (Room v' d ↔ Room v d) := by
  obtain ⟨cons', only⟩ := replace_only (d := i) cons ⟨type, 0, 0, fun _ => 0⟩
    (.inl fun _ => rfl) (Nat.zero_le _)
  have only' := only.trans (setNlink_only cons' i 1)
  refine ⟨_, rfl, (Volume.setNlink_spec cons' i 1).1, only', ?_, rfl, fun d apart => Room.congr
    (only' d apart).1 rfl rfl rfl⟩
  simp [Volume.setNlink, Volume.setInode, Volume.logWrite]

/-- `create` gives a new inode back when it fails. -/
theorem giveBack_gives (ready : Ready k₀) (h : Holding [(ip, i), (dp, d)] [ip, dp] v k₀ k)
    (apart : ip ≠ dp) (other : d ≠ i)
    (cons : v.Consistent) (fresh : (k₀.volume.inode i).type = 0) (present : k₀.fs.Present d)
    (unseen : ∀ e, e ≠ i → ((k₀.volume.inode e).type = 0 → (v.inode e).type = 0) ∧
      ((k₀.volume.inode e).type ≠ 0 → Agrees e k₀.volume v)) :
    Gives (do setNlink ip 0; onFs (iunlockput ip); onFs (iunlockput dp); return none : SysM (Option
      Namei.Slot)) k fun r k' =>
      r = none ∧ ∃ v, Unseen k₀.volume v ∧ Holding [] [] v k₀ k' := by
  have alone : ip ∉ [(dp, d)].map Prod.fst := fun member => apart (List.mem_singleton.mp member)
  have once : ip ∉ [dp] := fun member => apart (List.mem_singleton.mp member)
  have unused : (k₀.inode ip).ref = 0 := by
    by_contra used
    have old := h.table.old (b := ip) (Nat.pos_of_ne_zero used)
    have inum := h.table.inum (List.mem_cons_self ..)
    exact ready.live (Nat.pos_of_ne_zero used)
      ((congrArg (fun j => (k₀.volume.inode j).type) (old.symm.trans inum)).trans fresh)
  refine (h.setNlink (List.mem_cons_self ..) 0).bind fun _ k₁ h => ?_
  have cons₁ := (Volume.setNlink_spec cons i 0).1
  obtain ⟨v', run, cons', only, free⟩ := free_only (d := i) cons₁
  have gone := (setNlink_only cons i 0).trans only
  refine (h.step (iunlockput_frees h.table once alone unused (setNlink_nlink ..) run)).bind fun _ k₂ h => ?_
  have agrees {e : Nat} (used : (k₀.volume.inode e).type ≠ 0) : Agrees e k₀.volume v' := by
    have apart : e ≠ i := by
      rintro rfl
      exact used fresh
    have first := (unseen e apart).2 used
    exact first.trans (gone.agrees apart first.kept.full)
  have live : Live [] v' k₀.fs d := (Live.of_base present).mono (agrees present.1).nlink (List.Subset.refl _)
  refine (h.iunlockput List.not_mem_nil live).bind fun _ k₃ h => Gives.pure ⟨rfl, v',
    ⟨fun {e} none => ?_, agrees⟩, h⟩
  by_cases here : e = i
  · rw [here, free]
  · rw [(gone e here).1]
    exact (unseen e here).1 none

/-- The entry for a new inode is made if there is room for it in its directory. -/
theorem linkInode_gives (h : Holding [(ip, i), (dp, d)] [ip, dp] v k₀ k) (cons : v.Consistent)
    (only : Only i k₀.volume v) (inode : v.inode i = ⟨type, 1, 0, fun _ => 0⟩) (other : d ≠ i)
    (dir : Directory k₀.volume d)
    (missing : child k₀.volume d (nameKey name) = none)
    (boot : v.used 0 = true) (room : Room v d ↔ Room k₀.volume d) :
    Gives (linkInode dp ip name type) k fun r k' => ∃ v' v'', Holding [(ip, i), (dp, d)] [ip,
      dp] v'' k₀ k' ∧ v''.Consistent ∧
      Only i k₀.volume v' ∧ Only d v' v'' ∧ (v''.inode d).nlink = (v'.inode d).nlink ∧
      (r < 0 → Agrees d v' v'') ∧
      (type = T_FILE → v''.inode i = v.inode i ∧ (r < 0 ↔ ¬Room k₀.volume d)) := by
  unfold linkInode
  have dots : Gives (if type = T_DIR then dotLinks ip dp else pure true : SysM Bool) k fun linked k' =>
      ∃ v', Holding [(ip, i), (dp, d)] [ip, dp] v' k₀ k' ∧ v'.Consistent ∧ Only i v v' ∧
        (type = T_FILE → linked = true ∧ v' = v) := by
    refine Gives.ite (fun isDir => ?_) fun _ => Gives.pure ⟨v, h, cons, fun e _ => ⟨rfl, Volume.Kept.refl⟩,
      fun _ => ⟨rfl, rfl⟩⟩
    refine (dotLinks_gives h (List.mem_cons_self ..) cons (by rw [inode, isDir]) (by rw [inode])).mono ?_
    rintro _ _ ⟨v', h', cons', only'⟩
    refine ⟨v', h', cons', only', fun isFile => ?_⟩
    rw [isDir] at isFile
    cases isFile
  refine dots.bind fun linked k₁ ⟨v₁, h₁, cons₁, only₁, file⟩ => ?_
  have before := only.trans only₁
  have dir₁ := dir.kept ((before d other).2 dir.full)
  refine Gives.ite (fun _ => ?_) fun failed => Gives.pure ⟨v₁, v₁, h₁, cons₁, before,
    fun e _ => ⟨rfl, Volume.Kept.refl⟩, rfl,
    fun _ => .refl dir₁.full, fun isFile => absurd (file isFile).1 failed⟩
  refine Gives.bind_run (rfl : (get : SysM Kernel) k₁ = .ok (k₁, k₁)) ?_
  have missing₁ : child v₁ d (nameKey name) = none :=
    (child_kept ((before d other).2 dir.full) _).trans missing
  refine (h₁.dirlink (List.mem_cons_of_mem _ (List.mem_cons_self ..)) cons₁ dir₁ name _ fun j some =>
    ?_).mono fun r k₂ entered => ?_
  · rw [missing₁] at some
    cases some
  rcases entered with ⟨some, -⟩ | ⟨-, v₂, run, h₂⟩
  · exact absurd missing₁ some
  obtain ⟨cons₂, only₂, fields, result, answer⟩ := addEntry_failed cons₁ dir₁ run
  refine ⟨v₁, v₂, h₂, cons₂, before, only₂, fields.2, fun negative => ?_, fun isFile => ⟨?_, ?_⟩⟩
  · rcases result with rfl | ⟨-, same⟩
    · cases negative
    · exact same
  · rw [(only₂ i other.symm).1, (file isFile).2]
  · obtain rfl := (file isFile).2
    rw [← room, ← answer boot]
    rcases result with rfl | ⟨rfl, -⟩ <;> decide

theorem createInode_gives (ready : Ready k₀) (major minor : Int)
    (h : Holding [(ip, i), (dp, d)] [dp] (k₀.volume.setInode i ⟨type, 0, 0, fun _ => 0⟩).logWrite k₀ k)
    (fresh : (k₀.volume.inode i).type = 0) (dir : Directory k₀.volume d) (present : k₀.fs.Present d)
    (missing : child k₀.volume d (nameKey name) = none) :
    Gives (createInode dp ip name type major minor) k fun r k' =>
      (r = none ∧ (type = T_FILE → ¬Room k₀.volume d) ∧ ∃ v, Unseen k₀.volume v ∧ Holding [] [] v k₀ k') ∨
      r = some ip ∧ (type = T_FILE → Room k₀.volume d ∧ ∃ v, (v.inode i).type = T_FILE ∧
        (v.inode i).nlink = 1 ∧
        Holding [(ip, i)] [ip] v k₀ k') := by
  have other : d ≠ i := by
    rintro rfl
    rw [dir.dir] at fresh
    cases fresh
  obtain ⟨v, filled, cons, only, inode, used, room⟩ := newInode_spec ready.tree.cons i type
  unfold createInode
  refine (h.ilock (List.mem_cons_self ..)).bind fun _ k₁ ⟨once, h⟩ => ?_
  have apart : ip ≠ dp := fun same => once (List.mem_singleton.mpr same)
  have named : Holding [(ip, i), (dp, d)] [ip, dp] (k₀.volume.setInode i ⟨type, 0, 0, fun _ => 0⟩).logWrite k₀
      { k₁ with major := update k₁.major (k₁.inum ip) major, minor := update k₁.minor (k₁.inum ip) minor } := by
    refine ⟨h.table, { h.rest with }, fun {e} used => ?_⟩
    have apart : e ≠ k₁.inum ip := by
      rw [h.inum (List.mem_cons_self ..)]
      rintro rfl
      exact used fresh
    dsimp only
    rw [update_of_ne apart, update_of_ne apart]
    exact h.device used
  refine Gives.seq (Gives.modify ?_)
  refine (named.setNlink (List.mem_cons_self ..) 1).bind fun _ k₂ h => ?_
  have h : Holding [(ip, i), (dp, d)] [ip, dp] v k₀ k₂ := filled ▸ h
  have boot : v.used 0 = true := (congrFun used 0).trans ready.boot
  refine (linkInode_gives h cons only inode other dir missing boot (room d other)).bind fun r k₃ linked => ?_
  obtain ⟨v₁, v₂, h, cons₂, first, second, nlink, failed, file⟩ := linked
  refine Gives.ite (fun negative => ?_) fun ok => ?_
  · have unseen (e : Nat) (notNew : e ≠ i) : ((k₀.volume.inode e).type = 0 → (v₂.inode e).type = 0) ∧
        ((k₀.volume.inode e).type ≠ 0 → Agrees e k₀.volume v₂) := by
      have same := (first e notNew).1
      by_cases here : e = d
      · rw [here]
        rw [here] at same
        exact ⟨fun free => absurd (dir.dir.symm.trans free) (by decide), fun _ =>
          (first.agrees other dir.full).trans (failed negative)⟩
      · refine ⟨fun free => ?_, fun used => ?_⟩
        · rw [(second e here).1, same, free]
        · have before := first.agrees notNew (ready.full used)
          exact before.trans (second.agrees here before.kept.full)
    refine (giveBack_gives ready h apart other cons₂ fresh present unseen).mono fun r k₄ ⟨nothing, back⟩ =>
      .inl ⟨nothing, ?_, back⟩
    exact fun isFile => (file isFile).2.mp negative
  · dsimp only
    refine Gives.ite (fun isDir => ?_) fun _ => ?_
    · refine Gives.bind_run rfl (Gives.any.bind fun _ k₄ _ => Gives.any.bind fun _ k₅ _ =>
        Gives.pure (.inr ⟨rfl, fun isFile => ?_⟩))
      rw [isDir] at isFile
      cases isFile
    · have live : Live [(ip, i)] v₂ k₀.fs d :=
        (Live.of_base present).mono (nlink.trans (congrArg Inode.nlink (first d other).1))
        (List.Subset.refl _)
      have swapped : Holding [(dp, d), (ip, i)] [dp, ip] v₂ k₀ k₃ := h.congr (List.Perm.swap ..) fun b => by
        rw [List.mem_cons, List.mem_cons, List.mem_cons, List.mem_cons, or_left_comm]
      have once' : dp ∉ [ip] := fun member => apart (List.mem_singleton.mp member).symm
      refine (swapped.iunlockput once' live).bind fun _ k₄ h => Gives.pure (.inr ⟨rfl, fun isFile => ?_⟩)
      obtain ⟨same, room⟩ := file isFile
      refine ⟨not_not.mp fun none => ok (room.mpr none), v₂, ?_, ?_, h⟩
      · rw [same, inode, isFile]
      · rw [same, inode]

/-- What `create` comes to. -/
theorem create_gives (ready : Ready k) (path : Path) (type : Nat) (major minor : Int) :
    Gives (create path.val type major minor) k fun r k' =>
      (r = none ∧ (type = T_FILE → ¬k.Fresh path.val) ∧ ∃ v, Unseen k.volume v ∧ Holding [] [] v k k') ∨
      ∃ ip, r = some ip ∧ ((∃ i, ¬k.Fresh path.val ∧ k.fs.Present i ∧ Holding [(ip, i)] [ip] k.volume k k') ∨
        (type = T_FILE → k.Fresh path.val ∧ ∃ i v, (k.volume.inode i).type = 0 ∧ (v.inode i).type = T_FILE ∧
        (v.inode i).nlink = 1 ∧
          Holding [(ip, i)] [ip] v k k')) := by
  have same : Unseen k.volume k.volume := .refl fun _ => ready.full
  unfold create
  refine ((Holding.refl ready.tree).nameiparent ready.tree path).bind fun ⟨r, name⟩ k₁ found => ?_
  rcases found with ⟨rfl, nowhere, h⟩ | ⟨dp, d, rfl, found, key, h⟩
  · refine Gives.pure (.inl ⟨rfl, fun _ ⟨d, found, _⟩ => ?_, _, same, h⟩)
    rw [nowhere] at found
    cases found
  obtain ⟨dir, present⟩ := parent_directory ready.tree found
  have fresh_iff : k.Fresh path.val ↔ child k.volume d (nameKey name) = none ∧ k.freeInode ≠ none ∧
    Room k.volume d := by
    rw [show nameKey name = lastName path.val from key]
    refine ⟨fun ⟨d', found', rest⟩ => ?_, fun rest => ⟨d, found, rest⟩⟩
    obtain rfl := Option.some.inj (found.symm.trans found')
    exact rest
  rw [fresh_iff]
  refine (h.ilock (List.mem_cons_self ..)).bind fun _ k₂ ⟨_, h⟩ => ?_
  refine (h.dirlookup (List.mem_cons_self ..) ready.tree.cons dir name).bind fun r k₃ looked => ?_
  rcases looked with ⟨missing, rfl, h⟩ | ⟨ip, i, there, rfl, h⟩
  · refine (h.ialloc type).bind fun r k₄ alloc => ?_
    rcases alloc with ⟨rfl, full, h⟩ | ⟨ip, i, rfl, free, h⟩
    · refine (h.iunlockput List.not_mem_nil (Live.of_base present)).bind fun _ k₅ h => Gives.pure
        (.inl ⟨rfl, fun _ fresh => ?_, _, same, h⟩)
      exact fresh.2.1 full
    · have free' := freeInode_free free
      refine (createInode_gives ready major minor h free' dir present missing).mono fun r k₅ made => ?_
      rcases made with ⟨rfl, full, v, unseen, h⟩ | ⟨rfl, file⟩
      · exact .inl ⟨rfl, fun isFile fresh => full isFile fresh.2.2, v, unseen, h⟩
      · refine .inr ⟨ip, rfl, .inr fun isFile => ?_⟩
        obtain ⟨room, v, type, nlink, h⟩ := file isFile
        exact ⟨⟨missing, by rw [free]; exact Option.some_ne_none i, room⟩, i, v, free', type, nlink, h⟩
  · have taken : ¬(child k.volume d (nameKey name) = none ∧ k.freeInode ≠ none ∧ Room k.volume d) :=
      fun fresh => by
      rw [there] at fresh
      cases fresh.1
    have present' := ready.tree.child_present there
    refine ((h.congr (List.Perm.swap ..) fun _ => Iff.rfl).iunlockput List.not_mem_nil
      (Live.of_base present)).bind fun _ k₄ h => ?_
    refine (h.ilock (List.mem_cons_self ..)).bind fun _ k₅ ⟨_, h⟩ => ?_
    refine Gives.bind_run (rfl : (get : SysM Kernel) k₅ = .ok (k₅, k₅)) ?_
    refine Gives.ite (fun _ => Gives.pure (.inr ⟨ip, rfl, .inl ⟨i, taken, present', h⟩⟩)) fun _ => ?_
    refine (h.iunlockput List.not_mem_nil (Live.of_base present')).bind fun _ k₆ h => Gives.pure
      (.inl ⟨rfl, fun _ => taken, _, same, h⟩)

end Create

end Xv6.Sysfile
