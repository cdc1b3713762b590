import Xv6.Links.Calls

/-! The calls that take or give up references for good: `sys_open`, `sys_chdir`, `fileclose`. -/

namespace Xv6.Sysfile.Links
open Function Content Content.Volume Namei

/-- A file has been put into the table of files, and has got a descriptor. -/
def opened (k : Kernel) (f : Fin NFILE) (fd : Fin NOFILE) (file : Sysfile.File) : Kernel :=
  { k with
    file := update k.file f file
    proc := update k.proc k.myproc { k.proc k.myproc with ofile := update (k.proc k.myproc).ofile fd (some f) } }

/-- A reference to an inode has been taken from its owner. -/
def lower (k : Kernel) (b : Namei.Slot) : Kernel :=
  { k with inode := update k.inode b { k.inode b with ref := (k.inode b).ref - 1 } }

/-- The process is in another directory. -/
def moved (k : Kernel) (ip : Namei.Slot) : Kernel :=
  { k with proc := update k.proc k.myproc { k.proc k.myproc with cwd := ip } }

/-- The `struct file` for an inode of some type that is opened. -/
def newFile (old : Sysfile.File) (type : Nat) (major : Int) (ip : Namei.Slot) (omode : BitVec 32) :
    Sysfile.File :=
  { (if type = T_DEVICE then { old with ref := 1, type := .device, major }
      else { old with ref := 1, type := .inode, off := 0 }) with
    ip
    readable := omode &&& O_WRONLY = 0
    writable := omode &&& O_WRONLY ≠ 0 ∨ omode &&& O_RDWR ≠ 0 }

section Opens

variable {n start d e i j type : Nat} {k₀ k k' : Kernel} {v v' : Volume} {held : List (Namei.Slot × Nat)}
  {locks : List Namei.Slot}
  {ip dp b : Namei.Slot} {f : Fin NFILE} {fd : Fin NOFILE} {file : Sysfile.File} {omode : BitVec 32}
  {E : String → Prop}

theorem opened_fs (k : Kernel) (f : Fin NFILE) (fd : Fin NOFILE) (file : Sysfile.File) :
    (opened k f fd file).fs = k.fs := by
  unfold opened Kernel.fs
  dsimp only
  rw [update_self]

theorem opened_setFile (k : Kernel) (f : Fin NFILE) (fd : Fin NOFILE) (file file' : Sysfile.File) :
    (opened k f fd file).setFile f file' = opened k f fd file' := by
  unfold opened Kernel.setFile
  dsimp only
  rw [update_idem]

theorem Midway.opened (h : Midway held locks v k₀ k) (f : Fin NFILE) (fd : Fin NOFILE) (file : Sysfile.File) :
    Midway held locks v (opened k₀ f fd file) (Links.opened k f fd file) := by
  have during : During held locks v (Links.opened k₀ f fd file).fs (Links.opened k f fd file).fs := by
    rw [opened_fs, opened_fs]
    exact h.during
  have files : (Links.opened k f fd file).file = (Links.opened k₀ f fd file).file := by
    show update k.file f file = update k₀.file f file
    rw [h.rest.file]
  have proc : (Links.opened k f fd file).proc = (Links.opened k₀ f fd file).proc := by
    show update k.proc k.myproc _ = update k₀.proc k₀.myproc _
    rw [h.rest.myproc, h.rest.proc]
  exact ⟨during, { h.rest with file := files, proc }⟩

/-! ### Files -/

theorem fileclose_ends (free : (k.file f).ref = 0) (closed : (k.file f).type = .none) :
    Ends (fileclose f) (k.setFile f { k.file f with ref := 1 }) E fun _ k' => k' = k := by
  have here : (k.setFile f { k.file f with ref := 1 }).file f = { k.file f with ref := 1 } := update_self ..
  unfold fileclose
  refine Ends.bind_run rfl ?_
  dsimp only
  rw [here, closed]
  refine Ends.ite (fun wrong => absurd wrong (by decide : ¬1 < 1)) fun _ =>
    Ends.ite (fun wrong => absurd wrong (by decide : ¬0 < 1 - 1)) fun _ => ?_
  refine Ends.bind_run rfl (Ends.pure ?_)
  have back : { k.file f with ref := 0, type := .none } = k.file f := by rw [← free, ← closed]
  unfold Kernel.setFile
  dsimp only
  rw [update_idem, back, update_eq_self]

theorem openFile_ends (closed : ∀ f, (k.file f).ref = 0 → (k.file f).type = .none) :
    Ends openFile k E fun r k' =>
    r = none ∧ k' = k ∨ ∃ f fd, r = some (f, fd) ∧ (k.file f).ref = 0 ∧ (k.proc k.myproc).ofile fd = none ∧
      k' = opened k f fd { k.file f with ref := 1 } := by
  unfold openFile filealloc
  refine Ends.bind (Q := fun r k' => r = none ∧ k' = k ∨ ∃ f, r = some f ∧ (k.file f).ref = 0 ∧
    k' = k.setFile f { k.file f with ref := 1 }) ?_ fun r k₁ files => ?_
  · refine Ends.bind_run (rfl : (get : SysM Kernel) k = .ok (k, k)) ?_
    cases found : (List.finRange NFILE).find? fun f => decide ((k.file f).ref = 0) with
    | none => exact Ends.pure (.inl ⟨rfl, rfl⟩)
    | some f =>
      have free := List.find?_some found
      simp only [decide_eq_true_eq] at free
      exact Ends.bind_run rfl (Ends.pure (.inr ⟨f, rfl, free, rfl⟩))
  rcases files with ⟨rfl, rfl⟩ | ⟨f, rfl, free, rfl⟩
  · exact Ends.pure (.inl ⟨rfl, rfl⟩)
  unfold fdalloc
  refine Ends.bind (Q := fun r k' => r = none ∧ k' = k.setFile f { k.file f with ref := 1 } ∨
    ∃ fd, r = some fd ∧
    (k.proc k.myproc).ofile fd = none ∧ k' = opened k f fd { k.file f with ref := 1 }) ?_ fun r k₂ fds => ?_
  · refine Ends.bind_run rfl ?_
    dsimp only
    cases found : (List.finRange NOFILE).find? fun fd => (((k.setFile f { k.file f with ref := 1 }).proc
        (k.setFile f { k.file f with ref := 1 }).myproc).ofile fd).isNone with
    | none => exact Ends.pure (.inl ⟨rfl, rfl⟩)
    | some fd =>
      have free := List.find?_some found
      rw [Option.isNone_iff_eq_none] at free
      exact Ends.bind_run rfl (Ends.pure (.inr ⟨fd, rfl, free, rfl⟩))
  rcases fds with ⟨rfl, rfl⟩ | ⟨fd, rfl, none, rfl⟩
  · exact (fileclose_ends free (closed f free)).bind fun _ k₃ same => Ends.pure (.inl ⟨rfl, same⟩)
  · exact Ends.pure (.inr ⟨f, fd, rfl, free, none, rfl⟩)

/-! ### open -/

/-- An inode that is not a directory gets other contents. -/
theorem Fit.contents (fit : Fit n start held v k.fs) (file : (v.inode i).type ≠ T_DIR)
    (cons : v'.Consistent) (tight : Tight start v')
    (only : Only i v v') (type : (v'.inode i).type = (v.inode i).type)
    (nlink : (v'.inode i).nlink = (v.inode i).nlink) (full : v'.NoHoles i) :
    Fit n start held v' k.fs ∧ tree v' = tree v ∧ ∀ e, (v'.inode e).type = (v.inode e).type ∧
    (v'.inode e).nlink = (v.inode e).nlink := by
  have same (e : Nat) : (v'.inode e).type = (v.inode e).type ∧ (v'.inode e).nlink = (v.inode e).nlink := by
    by_cases here : e = i
    · exact here ▸ ⟨type, nlink⟩
    · rw [(only e here).1]
      exact ⟨rfl, rfl⟩
  obtain ⟨fit', trees⟩ := fit.same tight cons (fun e => (same e).1) (fun e => (same e).2) (fun e used => by
    by_cases here : e = i
    · exact here ▸ full
    · exact ((only e here).2 (fit.linked.full used)).full) fun e dir => by
    have apart : e ≠ i := by
      rintro rfl
      exact file dir
    exact (only e apart).2 (fit.linked.full (by rw [dir]; decide))
  exact ⟨fit', trees, same⟩

theorem itrunc_fit (fit : Fit n start held v k.fs) (file : (v.inode i).type ≠ T_DIR) :
    ∃ v', v.itrunc i = .ok v' ∧
    Fit n start held v' k.fs ∧ tree v' = tree v ∧ ∀ e, (v'.inode e).type = (v.inode e).type ∧
    (v'.inode e).nlink = (v.inode e).nlink := by
  obtain ⟨v', run, truncated⟩ := itrunc_spec (i := i) fit.linked.cons
  obtain ⟨type, nlink, size⟩ := truncated.fields
  have only : Only i v v' := .of_others truncated.othersKept fun e apart => (truncated.others e apart).1
  exact ⟨v', run, fit.contents file truncated.cons (fit.tight.itrunc fit.linked.cons run) only type nlink
    (full_empty size)⟩

/-- The inode that is opened; it is not a directory unless it is only read. -/
theorem openInode_ends (caller : Caller n start k₀) {path : Path} (starts : Starts k₀ (some path))
    (omode : BitVec 32) :
    Ends (openInode path.val omode) k₀ Full fun r k' =>
      r = none ∧ (∃ v, Midway [] [] v k₀ k' ∧ Fit n start [] v k₀.fs ∧ tree v = tree k₀.volume) ∨
      ∃ ip i v, r = some ip ∧ Midway [(ip, i)] [ip] v k₀ k' ∧ Fit n start [(ip, i)] v k₀.fs ∧
      ((v.inode i).type = T_DIR → omode = 0) ∧
        (tree v = tree k₀.volume ∧ leads k₀ false path = some i ∨ omode &&& O_CREATE ≠ 0 ∧
          Adds k₀ T_FILE path (tree v)) := by
  have fit := caller.fit
  unfold openInode
  refine Ends.ite (fun creates => ?_) fun _ => ?_
  · refine (create_ends caller starts (by decide) 0 0).mono fun r k' made => ?_
    rcases made with back | ⟨ip, i, v, rfl, h, fit', made⟩
    · exact .inl back
    · rcases made with ⟨-, file, trees, found⟩ | ⟨file, d, there, dir, absent, free, trees⟩
      · exact .inr ⟨ip, i, v, rfl, h, fit', fun isDir => absurd isDir file, .inl ⟨trees, found⟩⟩
      · refine .inr ⟨ip, i, v, rfl, h, fit', fun isDir => ?_,
          .inr ⟨creates, caller.adds there dir absent free trees⟩⟩
        exact absurd (file.symm.trans isDir) (by decide)
  · refine ((Midway.refl caller.steady).namei (caller.passable starts)).bind fun r k₁ found => ?_
    rcases found with ⟨rfl, -, h⟩ | ⟨ip, i, rfl, found, named, h⟩
    · exact Ends.pure (.inl ⟨rfl, _, h, fit, rfl⟩)
    refine (h.ilock (List.mem_cons_self ..) List.not_mem_nil named.1).bind fun _ k₂ h => ?_
    refine Ends.bind_run (rfl : (get : SysM Kernel) k₂ = .ok (k₂, k₂)) ?_
    rw [h.inode (List.mem_cons_self ..)]
    refine Ends.ite (fun _ => ?_) fun other => ?_
    · exact (h.iunlockput List.not_mem_nil (.inl named.2)).bind fun _ k₃ h => Ends.pure
        (.inl ⟨rfl, _, h, fit, rfl⟩)
    · refine Ends.pure (.inr ⟨ip, i, k₀.volume, rfl, h, fit.take named.1, fun isDir => ?_, .inl ⟨rfl, found⟩⟩)
      by_contra some
      exact other ⟨isDir, some⟩

theorem newFile_fields (old : Sysfile.File) (type : Nat) (major : Int) (ip : Namei.Slot) (omode : BitVec 32) :
    (newFile old type major ip omode).ref = 1 ∧
    ((newFile old type major ip omode).type = .inode ∨ (newFile old type major ip omode).type = .device) ∧
    (newFile old type major ip omode).ip = ip ∧ ((newFile old type major ip omode).writable =
      true → omode ≠ 0) := by
  refine ⟨?_, ?_, rfl, fun writes => ?_⟩
  · unfold newFile
    split <;> rfl
  · unfold newFile
    split
    · exact .inr rfl
    · exact .inl rfl
  · have writes : decide (omode &&& O_WRONLY ≠ 0 ∨ omode &&& O_RDWR ≠ 0) = true := writes
    rintro rfl
    revert writes
    decide

/-- The assignments of `sys_open` to the new file. -/
theorem storeFile (k : Kernel) (f : Fin NFILE) (fd : Fin NOFILE) (major : Int) (ip : Namei.Slot)
    (omode : BitVec 32) :
    (fun k : Kernel =>
      let file := k.file f
      let file := if (k.ip ip).type = T_DEVICE then { file with type := .device, major } else { file with
        type := .inode, off := 0 }
      k.setFile f { file with
        ip
        readable := omode &&& O_WRONLY = 0
        writable := omode &&& O_WRONLY ≠ 0 ∨ omode &&& O_RDWR ≠ 0 }) (opened k f fd { k.file f with
          ref := 1 }) =
      opened k f fd (newFile (k.file f) (k.ip ip).type major ip omode) := by
  have self : (opened k f fd { k.file f with ref := 1 }).file f = { k.file f with ref := 1 } := update_self ..
  have same : (opened k f fd { k.file f with ref := 1 }).ip ip = k.ip ip := rfl
  simp only [self, same, opened_setFile]
  rfl

/-- What `sys_open` gives: a descriptor for a new file, or an error after which nothing has changed but that a
file may have been made. -/
def Opened (n start : Nat) (k : Kernel) (path : Option Path) (omode : BitVec 32) (r : Int)
    (k' : Kernel) : Prop :=
  (r = -1 ∧ ∃ t, Settled n start [] k k' t ∧ (t = tree k.volume ∨ omode &&& O_CREATE ≠ 0 ∧
    ∃ p, path = some p ∧ Adds k T_FILE p t)) ∨
  ∃ f fd file ip i v, r = fd.val ∧ (k.file f).ref = 0 ∧ (k.proc k.myproc).ofile fd = none ∧
    file.ref = 1 ∧ (file.type = .inode ∨ file.type = .device) ∧ file.ip = ip ∧
    (file.writable = true → (v.inode i).type ≠ T_DIR) ∧
    Midway [(ip, i)] [] v (opened k f fd file) k' ∧ Fit n start [(ip, i)] v k.fs ∧
    (tree v = tree k.volume ∧ (∃ p, path = some p ∧ leads k false p = some i) ∨
      omode &&& O_CREATE ≠ 0 ∧ ∃ p, path = some p ∧ Adds k T_FILE p (tree v))

theorem sysOpen_ends (caller : Caller n start k) (closed : ∀ f, (k.file f).ref = 0 →
      (k.file f).type = .none) {path : Option Path}
    (starts : Starts k path) (omode : BitVec 32) :
    Ends (sysOpen (path.map Subtype.val) omode) k Full (Opened n start k path omode) := by
  unfold sysOpen
  cases path with
  | none => exact Ends.pure (.inl ⟨rfl, _, caller.settled, .inl rfl⟩)
  | some path =>
    refine beginOp_ends ((openInode_ends caller.begun starts omode).bind fun r k₁ found => ?_)
    rcases found with ⟨rfl, v, h, fit, trees⟩ | ⟨ip, i, v, rfl, h, fit, readOnly, made⟩
    · exact (done_ends h fit trees (-1)).mono fun _ _ done => .inl ⟨done.1, _, done.2, .inl rfl⟩
    have named : tree v = tree k.volume ∧ (∃ p, some path = some p ∧ leads k false p = some i) ∨
        omode &&& O_CREATE ≠ 0 ∧ ∃ p, some path = some p ∧ Adds k T_FILE p (tree v) :=
      made.imp (fun both => ⟨both.1, path, rfl, both.2⟩) fun both => ⟨both.1, path, rfl, both.2⟩
    have made : tree v = tree k.volume ∨ omode &&& O_CREATE ≠ 0 ∧ ∃ p, some path = some p ∧
      Adds k T_FILE p (tree v) :=
      named.imp And.left id
    have close {k' : Kernel} (h : Midway [(ip, i)] [ip] v k.begun k') :
        Ends (do onFs (iunlockput ip); endOp; return -1 : SysM Int) k' Full
        (Opened n start k (some path) omode) := by
      refine (h.unlockput fit List.not_mem_nil).bind fun _ k'' dropped => ?_
      obtain ⟨v', h, fit', trees, -⟩ := dropped
      refine (done_ends h fit' trees (-1)).mono fun _ _ done => .inl ⟨done.1, _, done.2, made⟩
    refine Ends.bind_run (rfl : (get : SysM Kernel) k₁ = .ok (k₁, k₁)) ?_
    dsimp only
    refine Ends.ite (fun _ => close h) fun _ => (openFile_ends (h.rest.file ▸ closed)).bind
      fun r k₂ files => ?_
    rcases files with ⟨rfl, rfl⟩ | ⟨f, fd, rfl, unused, free, rfl⟩
    · exact close h
    rw [h.rest.file] at unused
    rw [h.rest.proc, h.rest.myproc] at free
    refine Ends.seq (Ends.modify (Eq.mpr (congrArg (fun k => Ends _ k Full _) (storeFile k₁ f fd _ ip omode)) ?_))
    rw [h.inode (List.mem_cons_self ..), h.inum (List.mem_cons_self ..), h.rest.file]
    generalize value : newFile (k.begun.file f) (v.inode i).type (k₁.major i) ip omode = file
    obtain ⟨ref, kind, here, writes⟩ := newFile_fields (k.begun.file f) (v.inode i).type (k₁.major i) ip omode
    rw [value] at ref kind here writes
    have finish {w : Volume} {k' : Kernel} (h : Midway [(ip, i)] [ip] w (opened k f fd file).begun k')
        (fit : Fit n start [(ip, i)] w k.fs)
        (type : (w.inode i).type = (v.inode i).type) (trees : tree w = tree v) :
        Ends (do onFs (iunlock ip); endOp; return fd.val : SysM Int) k' Full
        (Opened n start k (some path) omode) := by
      refine (h.iunlock List.not_mem_nil).bind fun _ k₃ h => endOp_ends h fun k₄ h => Ends.pure (.inr ?_)
      refine ⟨f, fd, file, ip, i, w, rfl, unused, free, ref, kind, here, fun writable isDir => ?_,
        h, fit, trees ▸ named⟩
      exact writes writable (readOnly (type.symm.trans isDir))
    have h : Midway [(ip, i)] [ip] v (opened k f fd file).begun (opened k₁ f fd file) := h.opened f fd file
    refine Ends.ite (fun truncates => ?_) fun _ => finish h fit rfl rfl
    have regular : (v.inode i).type ≠ T_DIR := by
      rw [truncates.2]
      decide
    obtain ⟨w, run, fit', trees, same⟩ := itrunc_fit fit regular
    have truncated : (do return ((), ← v.itrunc i) : Except String (Unit × Volume)) = .ok ((), w) := by
      simp only [run, bind, Except.bind]
      rfl
    exact (h.onVolume (m := fun v => do return ((), ← v.itrunc i)) truncated fun e some =>
      (same e).2.trans_ne some).bind fun _ k₃ done =>
      finish done.2 fit' (same i).1 trees

/-! ### References that are given up -/

theorem Midway.lower (h : Midway held locks v k₀ k) (used : 0 < (k₀.inode b).ref) :
    Midway ((b, k₀.inum b) :: held) locks v (Links.lower k₀ b) k := by
  have t := h.during
  have less (c : Namei.Slot) : ((Links.lower k₀ b).fs.inode c).ref + (if c = b then 1 else 0) =
    (k₀.fs.inode c).ref := by
    show (update k₀.inode b _ c).ref + _ = (k₀.inode c).ref
    by_cases here : c = b
    · rw [here, update_self, if_pos rfl]
      dsimp only
      omega
    · rw [update_of_ne here, if_neg here]
      rfl
  have same (c : Namei.Slot) : ((Links.lower k₀ b).fs.inode c).inum = (k₀.fs.inode c).inum := by
    show (update k₀.inode b _ c).inum = (k₀.inode c).inum
    by_cases here : c = b
    · rw [here, update_self]
    · rw [update_of_ne here]
  have inum : (k.fs.inode b).inum = k₀.inum b := t.old used
  refine ⟨⟨⟨t.volume, t.cwd, fun c => ?_, fun {c} base => ?_, fun {c i} member => ?_, t.locked,
    fun member => ?_, t.valid, t.unique⟩, t.sure⟩,
    { h.rest with }⟩
  · have count := less c
    rw [t.ref, List.map_cons, List.count_cons]
    by_cases here : c = b
    · subst here
      rw [if_pos rfl] at count
      rw [if_pos (beq_self_eq_true _)]
      omega
    · rw [if_neg here] at count
      rw [if_neg fun same => here (eq_of_beq same).symm]
      omega
  · have count := less c
    rw [same]
    exact t.old (by omega)
  · rcases List.mem_cons.mp member with first | member
    · obtain ⟨rfl, rfl⟩ := Prod.mk.inj first
      exact inum
    · exact t.inum member
  · exact List.mem_cons_of_mem _ (t.owned member)

theorem Fit.lower (fit : Fit n start held v k₀.fs) (used : 0 < (k₀.inode b).ref) :
    Fit n start ((b, k₀.inum b) :: held) v (Links.lower k₀ b).fs := by
  have apart {c : Namei.Slot} (here : c ≠ b) : (Links.lower k₀ b).fs.inode c = k₀.fs.inode c :=
    update_of_ne here ..
  have self : (Links.lower k₀ b).fs.inode b = { k₀.inode b with ref := (k₀.inode b).ref - 1 } :=
    update_self ..
  refine ⟨fit.linked, fit.tight, fun {i} live => ?_, fun {c} base => ?_, fun {c i} member => ?_⟩
  · rcases fit.live live with linked | ⟨c, base, inum⟩ | member
    · exact .inl linked
    · by_cases here : c = b
      · subst here
        exact .inr (.inr (List.mem_map.mpr ⟨_, List.mem_cons_self .., inum⟩))
      · exact .inr (.inl ⟨c, by rw [apart here]; exact base, by rw [apart here]; exact inum⟩)
    · exact .inr (.inr (List.mem_cons_of_mem _ member))
  · by_cases here : c = b
    · subst here
      rw [self]
      exact fit.types used
    · rw [apart here] at base ⊢
      exact fit.types base
  · rcases List.mem_cons.mp member with same | member
    · obtain ⟨rfl, rfl⟩ := Prod.mk.inj same
      exact (fit.types used).2
    · exact fit.used member

/-! ### chdir -/

theorem Midway.moved (h : Midway held locks v k₀ k) (ip : Namei.Slot) :
    Midway held locks v (Links.moved k₀ ip) (Links.moved k ip) := by
  have cwd : (Links.moved k ip).fs.cwd = (Links.moved k₀ ip).fs.cwd := by
    show (update k.proc k.myproc _ k.myproc).cwd = (update k₀.proc k₀.myproc _ k₀.myproc).cwd
    rw [update_self, update_self]
  have proc : (Links.moved k ip).proc = (Links.moved k₀ ip).proc := by
    show update k.proc k.myproc _ = update k₀.proc k₀.myproc _
    rw [h.rest.proc, h.rest.myproc]
  exact ⟨{ h.during with cwd }, { h.rest with proc }⟩

/-- `sys_chdir` exchanges the reference to one directory for one to another. -/
theorem sysChdir_ends (caller : Caller n start k) {path : Option Path} (starts : Starts k path) :
    Ends (sysChdir (path.map Subtype.val)) k Full fun r k' =>
      (r = -1 ∧ Settled n start [] k k' (tree k.volume)) ∨
      r = 0 ∧ ∃ ip i v, (v.inode i).type = T_DIR ∧ Midway [(ip, i)] [] v (moved (lower k k.fs.cwd) ip) k' ∧
        Fit n start [(ip, i)] v (lower k k.fs.cwd).fs ∧ tree v = tree k.volume := by
  have fit := caller.fit
  unfold sysChdir
  refine beginOp_ends ?_
  have fail {k' : Kernel} (h : Midway [] [] k.volume k.begun k') :
      Ends (do endOp; return -1 : SysM Int) k' Full fun r k' =>
      (r = -1 ∧ Settled n start [] k k' (tree k.volume)) ∨
      r = 0 ∧ ∃ ip i v, (v.inode i).type = T_DIR ∧
      Midway [(ip, i)] [] v (Links.moved (Links.lower k k.fs.cwd) ip) k' ∧
        Fit n start [(ip, i)] v (Links.lower k k.fs.cwd).fs ∧ tree v = tree k.volume :=
    (done_ends h fit rfl (-1)).mono fun _ _ done => .inl done
  cases path with
  | none => exact Ends.seq (Ends.pure (fail caller.first))
  | some path =>
    refine (caller.first.namei (caller.passable starts)).bind fun r k₁ found => ?_
    rcases found with ⟨rfl, -, h⟩ | ⟨ip, i, rfl, -, named, h⟩
    · exact fail h
    refine (h.ilock (List.mem_cons_self ..) List.not_mem_nil named.1).bind fun _ k₂ h => ?_
    refine Ends.bind_run (rfl : (get : SysM Kernel) k₂ = .ok (k₂, k₂)) ?_
    rw [h.inode (List.mem_cons_self ..)]
    refine Ends.ite (fun _ => (h.iunlockput List.not_mem_nil (.inl named.2)).bind fun _ k₃ h =>
      fail h) fun isDir => ?_
    refine (h.iunlock List.not_mem_nil).bind fun _ k₃ h => ?_
    refine Ends.bind_run (rfl : (get : SysM Kernel) k₃ = .ok (k₃, k₃)) ?_
    have cwd : (k₃.proc k₃.myproc).cwd = k.fs.cwd := by
      rw [h.rest.proc, h.rest.myproc]
      rfl
    have used : 0 < (k.inode k.fs.cwd).ref := caller.cwd
    have h : Midway [(k.fs.cwd, k.inum k.fs.cwd), (ip, i)] [] k.volume (Links.lower k k.fs.cwd).begun k₃ :=
      h.lower used
    have fit' : Fit n start [(k.fs.cwd, k.inum k.fs.cwd), (ip, i)] k.volume (Links.lower k k.fs.cwd).fs :=
      (fit.take named.1).lower used
    rw [cwd]
    refine (h.put fit' List.not_mem_nil).bind fun _ k₄ dropped => ?_
    obtain ⟨v, h, fit₁, trees, same⟩ := dropped
    refine endOp_ends h fun k₅ h => Ends.seq
      (Ends.modify (Ends.pure (.inr ⟨rfl, ip, i, v, ?_, h.moved ip, fit₁, trees⟩)))
    rw [same i (fit₁.used (List.mem_cons_self ..))]
    exact not_not.mp isDir

end Opens

end Xv6.Sysfile.Links
