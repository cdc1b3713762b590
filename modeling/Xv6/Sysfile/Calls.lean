import Xv6.Sysfile.Create

/-! What a failing call leaves behind. -/

namespace Xv6.Sysfile
open Function Content Namei

/-- Every path leads where it has led, the allocated inodes have their links, sizes, contents and device
numbers and no other has been allocated, and the processes, the files, the references and the locks are the
same. -/
structure Unchanged (k k' : Kernel) : Prop where
  paths (d : Nat) (cs : List (List UInt8)) : follow k'.volume d cs = follow k.volume d cs
  inodes : Unseen k.volume k'.volume
  device {e} : (k.volume.inode e).type ≠ 0 → k'.major e = k.major e ∧ k'.minor e = k.minor e
  proc : k'.proc = k.proc
  file : k'.file = k.file
  ref (b) : (k'.inode b).ref = (k.inode b).ref
  inum {b} : 0 < (k.inode b).ref → (k'.inode b).inum = (k.inode b).inum
  locked (b) : (k'.inode b).locked = (k.inode b).locked
  outstanding : k'.outstanding = k.outstanding
  pipecloses : k'.pipecloses = k.pipecloses

/-- All files are in use, or all descriptors of the process. -/
def Kernel.Crowded (k : Kernel) : Prop := (∀ f, 0 < (k.file f).ref) ∨ ∀ fd, (k.proc k.myproc).ofile fd ≠ none

/-- `sys_open` makes a file for which there is no `struct file` or no descriptor. -/
def Litters (k : Kernel) : Call → Prop
  | .sysOpen (some path) omode => omode &&& O_CREATE ≠ 0 ∧ k.Fresh path.val ∧ k.Crowded
  | _ => False

section Calls

variable {k k' : Kernel} {v v' : Volume} {ip : Namei.Slot} {d i : Nat} {path : List UInt8}

theorem child_unseen (unseen : Unseen v v') (d : Nat) (name : Name) : child v' d name = child v d name := by
  by_cases free : (v.inode d).type = 0
  · rw [child_file (by rw [unseen.free free]; decide), child_file (by rw [free]; decide)]
  · exact child_kept (unseen.agrees free).kept name

theorem follow_unseen (unseen : Unseen v v') (d : Nat) (cs : List (List UInt8)) :
    follow v' d cs = follow v d cs := by
  induction cs generalizing d with
  | nil => rfl
  | cons c cs ih =>
    rw [follow, follow, child_unseen unseen]
    exact congrArg _ (funext ih)

/-- `begin_op` -/
def Kernel.begun (k : Kernel) : Kernel := { k with outstanding := k.outstanding + 1 }

theorem Ready.begun (ready : Ready k) : Ready k.begun :=
  ⟨ready.tree, ready.full, ready.live, ready.short, ready.boot, ready.closed⟩

theorem beginOp_gives {α : Type} {m : Unit → SysM α} {Q : α → Kernel → Prop} (rest : Gives (m ()) k.begun Q) :
    Gives (beginOp >>= m) k Q := Gives.seq (Gives.modify rest)

/-- A call that fails without a trace. -/
theorem fail_gives (unseen : Unseen k.volume v) (ready : Ready k) (h : Holding [] [] v k.begun k') :
    Gives (do endOp; return -1 : SysM Int) k' fun _ k'' => Unchanged k k'' := by
  refine Gives.seq (Gives.modify (Gives.pure ?_))
  have volume : k'.volume = v := h.table.volume
  refine {
    paths := fun d cs => ?_
    inodes := ?_
    device := h.device
    proc := h.rest.proc
    file := h.rest.file
    ref := h.table.ref
    inum := h.table.old
    locked := fun b => (h.table.locked b).trans (ready.tree.unlocked b).symm
    outstanding := ?_
    pipecloses := h.rest.pipecloses }
  · rw [volume]
    exact follow_unseen unseen d cs
  · rw [volume]
    exact unseen
  · have count : k'.outstanding = k.outstanding + 1 := h.rest.outstanding
    show k'.outstanding - 1 = k.outstanding
    omega

theorem Ready.unseen (ready : Ready k) : Unseen k.volume k.volume := .refl fun _ => ready.full

theorem Unchanged.refl (ready : Ready k) : Unchanged k k where
  paths _ _ := rfl
  inodes := ready.unseen
  device _ := ⟨rfl, rfl⟩
  proc := rfl
  file := rfl
  ref _ := rfl
  inum _ := rfl
  locked _ := rfl
  outstanding := rfl
  pipecloses := rfl

theorem short_back {n : Int} (fits : short n = n) : short (short (n + 1) - 1) = n := by
  unfold short at fits ⊢
  rw [Int.bmod_sub_bmod, Int.add_sub_cancel, fits]

/-- Nothing happens to an inode when the entry for a link cannot be made. -/
theorem newLink_gives {k₀ : Kernel} (h : Holding [(ip, i)] [] v k₀ k) (tree : Tree k.fs) (new : Path) :
    Gives (newLink ip new.val) k fun r k' => r < 0 → ∃ v', Holding [(ip, i)] [] v' k₀ k' ∧ v'.Consistent ∧
      ∀ e, (v'.inode e).type = (v.inode e).type ∧ (v.NoHoles e → Agrees e v v') := by
  have volume : k.volume = v := h.table.volume
  have cons : v.Consistent := volume ▸ tree.cons
  unfold newLink
  refine (h.nameiparent tree new).bind fun ⟨r, name⟩ k₁ found => ?_
  rcases found with ⟨rfl, -, h'⟩ | ⟨dp, d, rfl, found, -, h'⟩
  · exact Gives.pure fun _ => ⟨v, h', cons, fun e => ⟨rfl, .refl⟩⟩
  obtain ⟨dir, present⟩ := parent_directory tree found
  rw [volume] at dir
  refine (h'.ilock (List.mem_cons_self ..)).bind fun _ k₂ ⟨_, h'⟩ => ?_
  refine Gives.bind_run (rfl : (get : SysM Kernel) k₂ = .ok (k₂, k₂)) ?_
  have live {j : Nat} (present : k.fs.Present j) : Live [(ip, i)] v k₀.fs j := Live.of_present present h.table
  refine (h'.dirlink (List.mem_cons_self ..) cons dir name _ fun j there => ?_).bind fun r k₃ linked => ?_
  · rw [← volume] at there
    exact (live (tree.child_present there)).mono rfl (List.subset_cons_self ..)
  rcases linked with ⟨-, rfl, h'⟩ | ⟨-, v', run, h'⟩
  · refine (h'.iunlockput List.not_mem_nil (live present)).bind fun _ k₄ h' => Gives.pure fun _ => ?_
    exact ⟨v, h', cons, fun e => ⟨rfl, .refl⟩⟩
  obtain ⟨cons', only, ⟨type, nlink⟩, result, -⟩ := addEntry_failed cons dir run
  refine (h'.iunlockput List.not_mem_nil ((live present).mono nlink (List.Subset.refl _))).bind
    fun _ k₄ h' => Gives.pure fun failed => ?_
  have same : Agrees d v v' := by
    rcases result with rfl | ⟨-, same⟩
    · cases failed
    · exact same
  refine ⟨v', h', cons', fun e => ?_⟩
  by_cases here : e = d
  · rw [here]
    exact ⟨type, fun _ => same⟩
  · exact ⟨by rw [(only e here).1], only.agrees here⟩

/-- The number of links is raised, nothing else happens to any inode, and it is lowered. -/
theorem link_undone {w : Volume} (cons : v.Consistent) (full : ∀ e, (v.inode e).type ≠ 0 → v.NoHoles e)
    (fits : short (v.inode i).nlink = (v.inode i).nlink) (cons' : w.Consistent)
    (same : ∀ e, (w.inode e).type = ((v.setNlink i (short ((v.inode i).nlink + 1))).inode e).type ∧
      ((v.setNlink i (short ((v.inode i).nlink + 1))).NoHoles e →
      Agrees e (v.setNlink i (short ((v.inode i).nlink + 1))) w)) :
    Unseen v (w.setNlink i (short ((w.inode i).nlink - 1))) := by
  obtain ⟨-, raised⟩ := Volume.setNlink_spec cons i (short ((v.inode i).nlink + 1))
  obtain ⟨-, lowered⟩ := Volume.setNlink_spec cons' i (short ((w.inode i).nlink - 1))
  refine ⟨fun {e} free => ?_, fun {e} used => ?_⟩
  · rw [(lowered e).1, (same e).1, (raised e).1, free]
  · have first := (raised e).2 (full e used)
    have second := (same e).2 first.full
    refine ⟨(first.trans second.kept).trans ((lowered e).2 second.kept.full), ?_⟩
    by_cases here : e = i
    · rw [here] at second ⊢
      rw [setNlink_nlink, second.nlink, setNlink_nlink, short_back fits]
    · rw [(setNlink_only cons' i _ e here).1, second.nlink, (setNlink_only cons i _ e here).1]

theorem sysLink_gives (ready : Ready k) (old new : Option Path) :
    Gives (sysLink (old.map Subtype.val) (new.map Subtype.val)) k fun r k' => r = -1 → Unchanged k k' := by
  unfold sysLink
  cases old with
  | none => exact Gives.pure fun _ => .refl ready
  | some old =>
    cases new with
    | none => exact Gives.pure fun _ => .refl ready
    | some new =>
      refine beginOp_gives ?_
      refine ((Holding.refl ready.begun.tree).namei ready.begun.tree old).bind fun r k₁ found => ?_
      rcases found with ⟨rfl, h⟩ | ⟨ip, i, rfl, present, h⟩
      · exact (fail_gives ready.unseen ready h).mono fun _ _ done _ => done
      refine (h.ilock (List.mem_cons_self ..)).bind fun _ k₂ ⟨_, h⟩ => ?_
      refine Gives.bind_run (rfl : (get : SysM Kernel) k₂ = .ok (k₂, k₂))
        (Gives.ite (fun _ => ?_) fun _ => ?_)
      · refine (h.iunlockput List.not_mem_nil (Live.of_base present)).bind fun _ k₃ h => ?_
        exact (fail_gives ready.unseen ready h).mono fun _ _ done _ => done
      refine Gives.bind_run (rfl : (get : SysM Kernel) k₂ = .ok (k₂, k₂)) ?_
      rw [h.inode (List.mem_cons_self ..)]
      refine (h.setNlink (List.mem_cons_self ..) _).bind fun _ k₃ h => ?_
      refine (h.iunlock List.not_mem_nil).bind fun _ k₄ h => ?_
      obtain ⟨cons₁, raised⟩ := Volume.setNlink_spec ready.tree.cons i (short ((k.volume.inode i).nlink + 1))
      have tree : Tree k₄.fs := Tree.moved ready.begun.tree h.table cons₁ (fun e => (raised e).1)
        (fun e => (raised e).2) fun e => by
        by_cases here : e = i
        · exact .inr (List.mem_singleton.mpr here)
        · exact .inl (congrArg Inode.nlink (setNlink_only ready.tree.cons i _ e here).1)
      refine (newLink_gives h tree new).bind fun r k₅ linked => Gives.ite (fun failed => ?_) fun _ => ?_
      · obtain ⟨v, h, cons, same⟩ := linked failed
        have unseen : Unseen k.volume _ :=
          link_undone ready.tree.cons (fun _ => ready.full) (ready.short i) cons same
        refine (h.ilock (List.mem_cons_self ..)).bind fun _ k₆ ⟨_, h⟩ => ?_
        refine Gives.bind_run (rfl : (get : SysM Kernel) k₆ = .ok (k₆, k₆)) ?_
        rw [h.inode (List.mem_cons_self ..)]
        refine (h.setNlink (List.mem_cons_self ..) _).bind fun _ k₇ h => ?_
        have live := (Live.of_base present).mono (unseen.agrees present.1).nlink (List.nil_subset [])
        refine (h.iunlockput List.not_mem_nil live).bind fun _ k₈ h => ?_
        exact (fail_gives (k := k) unseen ready h).mono fun _ _ done _ => done
      · exact Gives.any.bind fun _ _ _ => Gives.any.bind fun _ _ _ => Gives.pure nofun

theorem sysUnlink_gives (ready : Ready k) (path : Option Path) :
    Gives (sysUnlink (path.map Subtype.val)) k fun r k' => r = -1 → Unchanged k k' := by
  unfold sysUnlink
  cases path with
  | none => exact Gives.pure fun _ => .refl ready
  | some path =>
    refine beginOp_gives ?_
    have start := Holding.refl ready.begun.tree
    refine (start.nameiparent ready.begun.tree path).bind fun ⟨r, name⟩ k₁ found => ?_
    rcases found with ⟨rfl, -, h⟩ | ⟨dp, d, rfl, found, -, h⟩
    · exact (fail_gives ready.unseen ready h).mono fun _ _ done _ => done
    obtain ⟨dir, present⟩ := parent_directory ready.begun.tree found
    refine (h.ilock (List.mem_cons_self ..)).bind fun _ k₂ ⟨_, h⟩ => ?_
    have bad {k₃ : Kernel} (h : Holding [(dp, d)] [dp] k.volume k.begun k₃) :
        Gives (do onFs (iunlockput dp); endOp; return -1 : SysM Int) k₃ fun r k' => r = -1 → Unchanged k k' :=
      (h.iunlockput List.not_mem_nil (Live.of_base present)).bind fun _ _ h =>
        (fail_gives ready.unseen ready h).mono fun _ _ done _ => done
    dsimp only
    refine Gives.ite (fun _ => bad h) fun _ => ?_
    refine (h.dirlookupOff (List.mem_cons_self ..) ready.tree.cons dir name).bind fun r k₃ looked => ?_
    rcases looked with ⟨rfl, h⟩ | ⟨ip, i, off, there, rfl, h⟩
    · exact bad h
    refine (h.ilock (List.mem_cons_self ..)).bind fun _ k₄ ⟨once, h⟩ => ?_
    refine Gives.bind_run (rfl : (get : SysM Kernel) k₄ = .ok (k₄, k₄))
      (Gives.ite (fun _ => Gives.throw _) fun _ => ?_)
    have present' := ready.begun.tree.child_present there
    have empty : Gives (if (k₄.ip ip).type = T_DIR then onFs (onVolume fun v => v.isdirempty
      (k₄.inum ip)) else pure true : SysM Bool)
        k₄ fun _ k' => Holding [(ip, i), (dp, d)] [ip, dp] k.volume k.begun k' := by
      rw [h.inode (List.mem_cons_self ..), h.inum (List.mem_cons_self ..)]
      refine Gives.ite (fun isDir => ?_) fun _ => Gives.pure h
      obtain ⟨empty, run, -⟩ := Volume.isdirempty_spec ready.tree.cons (ready.tree.full isDir)
        (ready.tree.aligned isDir)
      refine h.step ((onVolume_gives (m := fun v => v.isdirempty i) h.table run).mono ?_)
      rintro _ _ ⟨-, rfl⟩
      exact h.table.setVolume _
    refine empty.bind fun empty k₅ h => Gives.ite (fun _ => ?_) fun _ => ?_
    · exact (h.iunlockput once (Live.of_base present')).bind fun _ k₆ h => bad h
    · refine Gives.any.bind fun r k₆ _ => Gives.ite (fun _ => Gives.throw _) fun _ => ?_
      have done (k₇ : Kernel) : Gives (do
            onFs (iunlockput dp)
            setNlink ip (short (((← get).ip ip).nlink - 1))
            onFs (iunlockput ip)
            endOp
            return 0 : SysM Int) k₇ fun r k' => r = -1 → Unchanged k k' :=
        Gives.any.bind fun _ _ _ => Gives.any.bind fun _ _ _ => Gives.any.bind fun _ _ _ =>
          Gives.any.bind fun _ _ _ =>
          Gives.any.bind fun _ _ _ => Gives.pure nofun
      refine Gives.any.bind fun _ k₇ _ => Gives.ite (fun _ => ?_) fun _ => done k₇
      exact Gives.any.bind fun _ _ _ => Gives.any.bind fun _ k₈ _ => done k₈

theorem filealloc_gives : Gives filealloc k fun r k' => r = none ∧ k' = k ∧ (∀ f, 0 < (k.file f).ref) ∨
    ∃ f, r = some f ∧ (k.file f).ref = 0 ∧ k' = k.setFile f { k.file f with ref := 1 } := by
  unfold filealloc
  refine Gives.bind_run (rfl : (get : SysM Kernel) k = .ok (k, k)) ?_
  cases found : (List.finRange NFILE).find? fun f => decide ((k.file f).ref = 0) with
  | none =>
    refine Gives.pure (.inl ⟨rfl, rfl, fun f => ?_⟩)
    have used := List.find?_eq_none.mp found f (List.mem_finRange f)
    simp only [decide_eq_true_eq] at used
    omega
  | some f =>
    have free := List.find?_some found
    simp only [decide_eq_true_eq] at free
    exact Gives.bind_run rfl (Gives.pure (.inr ⟨f, rfl, free, rfl⟩))

theorem fdalloc_gives (f : Fin NFILE) : Gives (fdalloc f) k fun r k' => r = none → k' = k ∧
    ∀ fd, (k.proc k.myproc).ofile fd ≠ none := by
  unfold fdalloc
  refine Gives.bind_run (rfl : (get : SysM Kernel) k = .ok (k, k)) ?_
  dsimp only
  cases found : (List.finRange NOFILE).find? fun fd => ((k.proc k.myproc).ofile fd).isNone with
  | none =>
    refine Gives.pure fun _ => ⟨rfl, fun fd free => ?_⟩
    have used := List.find?_eq_none.mp found fd (List.mem_finRange fd)
    rw [free] at used
    exact used rfl
  | some fd => exact Gives.bind_run rfl (Gives.pure nofun)

/-- A file that has just been allocated is closed again. -/
theorem fileclose_gives {f : Fin NFILE} (free : (k.file f).ref = 0) (closed : (k.file f).type = .none) :
    Gives (fileclose f) (k.setFile f { k.file f with ref := 1 }) fun _ k' => k' = k := by
  have here : (k.setFile f { k.file f with ref := 1 }).file f = { k.file f with ref := 1 } := update_self ..
  unfold fileclose
  refine Gives.bind_run rfl ?_
  dsimp only
  rw [here, closed]
  refine Gives.ite (fun wrong => absurd wrong (by decide : ¬1 < 1)) fun _ =>
    Gives.ite (fun wrong => absurd wrong (by decide : ¬0 < 1 - 1)) fun _ => ?_
  refine Gives.bind_run rfl (Gives.pure ?_)
  have back : { k.file f with ref := 0, type := .none } = k.file f := by rw [← free, ← closed]
  unfold Kernel.setFile
  dsimp only
  rw [update_idem, back, update_eq_self]

theorem openFile_gives (closed : ∀ f, (k.file f).ref = 0 → (k.file f).type = .none) :
    Gives openFile k fun r k' => r = none → k' = k ∧ k.Crowded := by
  unfold openFile
  refine filealloc_gives.bind fun r k₁ files => ?_
  rcases files with ⟨rfl, rfl, full⟩ | ⟨f, rfl, free, rfl⟩
  · exact Gives.pure fun _ => ⟨rfl, .inl full⟩
  refine (fdalloc_gives f).bind fun r k₂ fds => ?_
  cases r with
  | none =>
    obtain ⟨rfl, full⟩ := fds rfl
    exact (fileclose_gives free (closed f free)).bind fun _ k₃ same => Gives.pure fun _ => ⟨same, .inr full⟩
  | some fd => exact Gives.pure nofun

theorem Rest.crowded (rest : Rest k k') (crowded : k'.Crowded) : k.Crowded := by
  unfold Kernel.Crowded at crowded
  rwa [rest.file, rest.proc, rest.myproc] at crowded

theorem openInode_gives (ready : Ready k) (path : Path) (omode : BitVec 32) :
    Gives (openInode path.val omode) k fun r k' =>
    (r = none ∧ (omode &&& O_CREATE ≠ 0 → ¬k.Fresh path.val) ∧ ∃ v, Unseen k.volume v ∧
      Holding [] [] v k k') ∨
    ∃ ip, r = some ip ∧ ((∃ i, (omode &&& O_CREATE ≠ 0 → ¬k.Fresh path.val) ∧ k.fs.Present i ∧
      Holding [(ip, i)] [ip] k.volume k k') ∨
      omode &&& O_CREATE ≠ 0 ∧ k.Fresh path.val ∧ ∃ i v, (k.volume.inode i).type = 0 ∧
      (v.inode i).type = T_FILE ∧
        (v.inode i).nlink = 1 ∧ Holding [(ip, i)] [ip] v k k') := by
  unfold openInode
  refine Gives.ite (fun creates => ?_) fun opens => ?_
  · refine (create_gives ready path T_FILE 0 0).mono fun r k' made => ?_
    rcases made with ⟨rfl, notFresh, back⟩ | ⟨ip, rfl, ⟨i, notFresh, old⟩ | new⟩
    · exact .inl ⟨rfl, fun _ => notFresh rfl, back⟩
    · exact .inr ⟨ip, rfl, .inl ⟨i, fun _ => notFresh, old⟩⟩
    · exact .inr ⟨ip, rfl, .inr ⟨creates, new rfl⟩⟩
  · refine ((Holding.refl ready.tree).namei ready.tree path).bind fun r k₁ found => ?_
    rcases found with ⟨rfl, h⟩ | ⟨ip, i, rfl, present, h⟩
    · exact Gives.pure (.inl ⟨rfl, fun wrong => absurd wrong opens, _, ready.unseen, h⟩)
    refine (h.ilock (List.mem_cons_self ..)).bind fun _ k₂ ⟨_, h⟩ => ?_
    refine Gives.bind_run (rfl : (get : SysM Kernel) k₂ = .ok (k₂, k₂)) (Gives.ite (fun _ => ?_) fun _ => ?_)
    · refine (h.iunlockput List.not_mem_nil (Live.of_base present)).bind fun _ k₃ h => Gives.pure ?_
      exact .inl ⟨rfl, fun wrong => absurd wrong opens, _, ready.unseen, h⟩
    · exact Gives.pure (.inr ⟨ip, rfl, .inl ⟨i, fun wrong => absurd wrong opens, present, h⟩⟩)

theorem sysOpen_gives (ready : Ready k) (path : Option Path) (omode : BitVec 32) :
    Gives (sysOpen (path.map Subtype.val) omode) k fun r k' => r = -1 →
    (Unchanged k k' ↔ ¬Litters k (.sysOpen path omode)) := by
  unfold sysOpen
  cases path with
  | none => exact Gives.pure fun _ => iff_of_true (.refl ready) id
  | some path =>
    refine beginOp_gives ((openInode_gives ready.begun path omode).bind fun r k₁ opened => ?_)
    have good {k' : Kernel} (unchanged : Unchanged k k') (notFresh : omode &&& O_CREATE ≠ 0 →
      ¬k.begun.Fresh path.val) :
        Unchanged k k' ↔ ¬Litters k (.sysOpen (some path) omode) :=
      iff_of_true unchanged fun ⟨creates, fresh, _⟩ => notFresh creates fresh
    rcases opened with ⟨rfl, notFresh, v, unseen, h⟩ | ⟨ip, rfl, old⟩
    · exact (fail_gives (k := k) unseen ready h).mono fun _ _ done _ => good done notFresh
    refine Gives.bind_run (rfl : (get : SysM Kernel) k₁ = .ok (k₁, k₁)) ?_
    have done (fd : Fin NOFILE) (k₂ : Kernel) :
      Gives (do onFs (iunlock ip); endOp; return fd.val : SysM Int) k₂ fun r k' =>
        r = -1 → (Unchanged k k' ↔ ¬Litters k (.sysOpen (some path) omode)) :=
      Gives.any.bind fun _ _ _ => Gives.any.bind fun _ _ _ => Gives.pure fun wrong => by omega
    rcases old with ⟨i, notFresh, present, h⟩ | ⟨creates, fresh, i, v, free, file, linked, h⟩
    · have close {k₂ : Kernel} (h : Holding [(ip, i)] [ip] k.volume k.begun k₂) :
          Gives (do onFs (iunlockput ip); endOp; return -1 : SysM Int) k₂ fun r k' =>
            r = -1 → (Unchanged k k' ↔ ¬Litters k (.sysOpen (some path) omode)) :=
        (h.iunlockput List.not_mem_nil (Live.of_base present)).bind fun _ k₃ h =>
          (fail_gives ready.unseen ready h).mono fun _ _ done _ => good done notFresh
      refine Gives.ite (fun _ => close h) fun _ => (openFile_gives (h.rest.file ▸ @ready.closed)).bind
        fun r k₂ full => ?_
      cases r with
      | none =>
        obtain ⟨rfl, -⟩ := full rfl
        exact close h
      | some fd => exact Gives.seq (Gives.modify
          (Gives.ite (fun _ => Gives.any.bind fun _ k₄ _ => done fd.2 k₄) fun _ => done fd.2 _))
    · refine Gives.ite (fun wrong => ?_) fun _ => (openFile_gives (h.rest.file ▸ @ready.closed)).bind
        fun r k₂ full => ?_
      · rw [h.inode (List.mem_cons_self ..), file] at wrong
        cases wrong.1
      cases r with
      | none =>
        obtain ⟨rfl, full⟩ := full rfl
        have crowded : k.Crowded := h.rest.crowded full
        refine (h.iunlockput List.not_mem_nil (.inl (by rw [linked]; decide))).bind fun _ k₃ h =>
          Gives.seq (Gives.modify (Gives.pure fun _ => ?_))
        refine iff_of_false (fun unchanged => ?_) fun clean => clean ⟨creates, fresh, crowded⟩
        have still := unchanged.inodes.free free
        have volume : k₃.volume = v := h.table.volume
        dsimp only at still
        rw [volume, file] at still
        cases still
      | some fd => exact Gives.seq (Gives.modify
          (Gives.ite (fun _ => Gives.any.bind fun _ k₄ _ => done fd.2 k₄) fun _ => done fd.2 _))

/-- A call that only makes an inode. -/
theorem make_gives (ready : Ready k) (path : Option Path) (type : Nat) (major minor : Int)
    (rest : Namei.Slot → SysM Int)
    (succeeds : ∀ ip k', Gives (rest ip) k' fun r _ => r = 0) :
    Gives (do
      match ← (match path.map Subtype.val with | none => pure none | some path => create path type major minor) with
      | none => do
        endOp
        return -1
      | some ip => rest ip : SysM Int) k.begun fun r k' => r = -1 → Unchanged k k' := by
  cases path with
  | none =>
    exact Gives.seq (Gives.pure ((fail_gives ready.unseen ready (.refl ready.begun.tree)).mono
      fun _ _ done _ => done))
  | some path =>
    refine (create_gives ready.begun path type major minor).bind fun r k₁ made => ?_
    rcases made with ⟨rfl, -, v, unseen, h⟩ | ⟨ip, rfl, -⟩
    · exact (fail_gives (k := k) unseen ready h).mono fun _ _ done _ => done
    · refine (succeeds ip k₁).mono fun r _ zero wrong => ?_
      rw [zero] at wrong
      cases wrong

theorem sysMkdir_gives (ready : Ready k) (path : Option Path) :
    Gives (sysMkdir (path.map Subtype.val)) k fun r k' => r = -1 → Unchanged k k' :=
  beginOp_gives (make_gives ready path T_DIR 0 0 _ fun _ _ => Gives.any.bind fun _ _ _ =>
    Gives.any.bind fun _ _ _ => Gives.pure rfl)

theorem sysMknod_gives (ready : Ready k) (path : Option Path) (major minor : BitVec 32) :
    Gives (sysMknod (path.map Subtype.val) major minor) k fun r k' => r = -1 → Unchanged k k' :=
  beginOp_gives (make_gives ready path T_DEVICE _ _ _ fun _ _ => Gives.any.bind fun _ _ _ =>
    Gives.any.bind fun _ _ _ => Gives.pure rfl)

theorem sysChdir_gives (ready : Ready k) (path : Option Path) :
    Gives (sysChdir (path.map Subtype.val)) k fun r k' => r = -1 → Unchanged k k' := by
  unfold sysChdir
  refine beginOp_gives ?_
  have start := Holding.refl ready.begun.tree
  cases path with
  | none => exact Gives.seq (Gives.pure ((fail_gives ready.unseen ready start).mono fun _ _ done _ => done))
  | some path =>
    refine (start.namei ready.begun.tree path).bind fun r k₁ found => ?_
    rcases found with ⟨rfl, h⟩ | ⟨ip, i, rfl, present, h⟩
    · exact (fail_gives ready.unseen ready h).mono fun _ _ done _ => done
    refine (h.ilock (List.mem_cons_self ..)).bind fun _ k₂ ⟨_, h⟩ => ?_
    refine Gives.bind_run (rfl : (get : SysM Kernel) k₂ = .ok (k₂, k₂)) (Gives.ite (fun _ => ?_) fun _ => ?_)
    · refine (h.iunlockput List.not_mem_nil (Live.of_base present)).bind fun _ k₃ h => ?_
      exact (fail_gives ready.unseen ready h).mono fun _ _ done _ => done
    · refine Gives.any.bind fun _ k₃ _ => Gives.any.bind fun _ k₄ _ => Gives.any.bind fun _ k₅ _ =>
        Gives.any.bind fun _ k₆ _ => ?_
      exact Gives.any.bind fun _ k₇ _ => Gives.pure nofun

theorem Call.run_gives (ready : Ready k) (c : Call) : Gives c.run k fun r k' => r = -1 →
    (Unchanged k k' ↔ ¬Litters k c) := by
  cases c with
  | sysLink old new => exact (sysLink_gives ready old new).mono fun _ _ done failed => iff_of_true (done failed) id
  | sysUnlink path => exact (sysUnlink_gives ready path).mono fun _ _ done failed => iff_of_true (done failed) id
  | sysOpen path omode => exact sysOpen_gives ready path omode
  | sysMkdir path => exact (sysMkdir_gives ready path).mono fun _ _ done failed => iff_of_true (done failed) id
  | sysMknod path major minor =>
    exact (sysMknod_gives ready path major minor).mono fun _ _ done failed => iff_of_true (done failed) id
  | sysChdir path => exact (sysChdir_gives ready path).mono fun _ _ done failed => iff_of_true (done failed) id

/-- A call that fails leaves everything as it was, unless it is `sys_open` with `O_CREATE` of a name that is
not there yet, for which there is an inode and room but no `struct file` or no descriptor. -/
theorem failing_calls (ready : Ready k) (c : Call) (run : c.run k = .ok (-1, k')) :
    Unchanged k k' ↔ ¬Litters k c :=
  Call.run_gives ready c (-1) k' run rfl

end Calls

theorem NFILE_pos : 0 < NFILE := by decide

/-- A process has all its descriptors for the end of a pipe that it reads. -/
def allOpen : Kernel where
  volume := oneEntry
  major _ := 0
  minor _ := 0
  ninodes := 200
  inode := (busy 1).inode
  file f := ⟨if f.val = 0 then .pipe else .none, if f.val = 0 then NOFILE else 0, true, false, 0, (busy 1).cwd, 0, 0⟩
  proc p := ⟨fun _ => if p = initproc then some ⟨0, NFILE_pos⟩ else none, (busy 1).cwd⟩
  myproc := initproc
  outstanding := 0
  pipecloses := []

theorem allOpen_ready : Ready allOpen := by
  have tree := busy_tree (by decide : 0 < 1)
  refine ⟨tree, fun {i} used => ?_, fun {b} used => ?_, fun i => ?_, rfl, fun {f} free => ?_⟩
  · by_cases root : i = 1
    · rw [root]
      exact tree.full (by decide : (oneEntry.inode 1).type = T_DIR)
    · intro bn below
      simp [allOpen, oneEntry, root] at below
  · have first : b.val < 1 := by
      by_contra other
      exact absurd used (by simp [allOpen, busy, show b.val ≠ 0 by omega])
    have inum : (allOpen.inode b).inum = 1 := by
      show b.val + 1 = 1
      omega
    rw [inum]
    decide
  · by_cases root : i = 1 <;> simp [allOpen, oneEntry, root, short, Int.bmod]
  · by_cases first : f.val = 0
    · simp [allOpen, first, NOFILE] at free
    · simp [allOpen, first]

/-- `open("b", O_CREATE)` without a free descriptor fails and leaves an empty file "b". -/
theorem open_litters : ∃ k', Ready allOpen ∧
    (Call.sysOpen (some ⟨[98], by decide +kernel⟩) O_CREATE).run allOpen = .ok (-1, k') ∧
    follow allOpen.volume ROOTINO [[98]] = none ∧ follow k'.volume ROOTINO [[98]] = some 52 ∧
    ¬Unchanged allOpen k' := by
  have before : follow allOpen.volume ROOTINO [[98]] = none := by decide +kernel
  have result : (((Call.sysOpen (some ⟨[98], by decide +kernel⟩) O_CREATE).run allOpen).map fun r =>
      (r.1, follow r.2.volume ROOTINO [[98]])) = .ok (-1, some 52) := by decide +kernel
  cases run : (Call.sysOpen (some ⟨[98], by decide +kernel⟩) O_CREATE).run allOpen with
  | error e =>
    rw [run] at result
    cases result
  | ok r =>
    rw [run] at result
    obtain ⟨value, after⟩ := Prod.mk.inj (Except.ok.inj result)
    refine ⟨r.2, allOpen_ready, by rw [← value], before, after, fun unchanged => ?_⟩
    have same := unchanged.paths ROOTINO [[98]]
    rw [before, after] at same
    cases same

/-- `unlink("b")` of a name that is not there. -/
theorem failing_calls_unlink :
    ∃ k', (Call.sysUnlink (some ⟨[98], by decide +kernel⟩)).run allOpen = .ok (-1, k') ∧
    Unchanged allOpen k' := by
  have result : (((Call.sysUnlink (some ⟨[98], by decide +kernel⟩)).run allOpen).toOption.map Prod.fst) =
    some (-1) := by
    decide +kernel
  obtain ⟨k', run⟩ := Gives.run_of_result result
  exact ⟨k', run, (failing_calls allOpen_ready _ run).mpr id⟩

end Xv6.Sysfile
