import Xv6.Lib.Shares
import Xv6.Links.Machine
import Xv6.Links.Opens

/-! The owners of references: open files and processes own those to inodes, descriptors those
to open files. -/

namespace Xv6.Sysfile.Links
open Function Content Content.Volume Namei

/-- Whether a `struct file` is open on an inode. -/
def OnInode (file : Sysfile.File) : Prop := file.type = .inode ∨ file.type = .device

instance (file : Sysfile.File) : Decidable (OnInode file) := inferInstanceAs (Decidable (_ ∨ _))

/-- The references to an entry of the inode table that a file has, and that a process has. -/
def fileHolds (b : Namei.Slot) (file : Sysfile.File) : Nat := if OnInode file ∧ file.ip = b then 1 else 0
def cwdHolds (b : Namei.Slot) (process : Bool × Namei.Slot) : Nat :=
  if process.1 = true ∧ process.2 = b then 1 else 0

def holders (live : ProcId → Bool) (k : Kernel) (b : Namei.Slot) : Nat :=
  ∑ f, fileHolds b (k.file f) + ∑ p, cwdHolds b (live p, (k.proc p).cwd)

def points (f : Fin NFILE) (fd : Option (Fin NFILE)) : Nat := if fd = some f then 1 else 0

/-- The descriptors for a file. -/
def descriptors (k : Kernel) (f : Fin NFILE) : Nat :=
  ∑ q : ProcId × Fin NOFILE, points f ((k.proc q.1).ofile q.2)

/-- An entry that has an owner is for an inode of some type: one that was there at first, or one that a call
has got. -/
def Typed (k : Kernel) (held : List (Namei.Slot × Nat)) (v : Volume) (b : Namei.Slot)
    (P : Nat → Prop) : Prop :=
  (0 < (k.inode b).ref ∧ P (k.volume.inode (k.inum b)).type) ∨ ∃ i, (b, i) ∈ held ∧ P (v.inode i).type

/-- The reference counts of the table of files. -/
structure Counted (k : Kernel) : Prop where
  refs (f) : (k.file f).ref = descriptors k f
  closed {f} : (k.file f).ref = 0 ↔ (k.file f).type = .none

/-- Every reference has one owner, when those in `held` are counted too. -/
structure Owned (n : Nat) (live : ProcId → Bool) (held : List (Namei.Slot × Nat)) (v : Volume)
    (k : Kernel) : Prop where
  ninodes : k.ninodes = n
  idle : k.outstanding = 0
  counted : Counted k
  shares (b) : holders live k b = (k.inode b).ref + (held.map Prod.fst).count b
  cwd {p} : live p = true → Typed k held v (k.proc p).cwd (· = T_DIR)
  writable {f} : OnInode (k.file f) → (k.file f).writable = true → Typed k held v (k.file f).ip (· ≠ T_DIR)

/-- A file and a descriptor are stored. -/
def store (k : Kernel) (f : Fin NFILE) (file : Sysfile.File) (p : ProcId) (fd : Fin NOFILE)
    (x : Option (Fin NFILE)) : Kernel :=
  { k with
    file := update k.file f file
    proc := update k.proc p { k.proc p with ofile := update (k.proc p).ofile fd x } }

/-- A process has got a directory. -/
def entered (k : Kernel) (p : ProcId) (ip : Namei.Slot) : Kernel :=
  { k with proc := update k.proc p { k.proc p with cwd := ip } }

section Owned

variable {n start i : Nat} {live : ProcId → Bool} {k k' : Kernel} {v : Volume}
  {held : List (Namei.Slot × Nat)} {b ip : Namei.Slot}
  {f g : Fin NFILE} {file : Sysfile.File} {p q : ProcId} {fd : Fin NOFILE}
  {x : Option (Fin NFILE)} {P : Nat → Prop}

/-! ### Owners -/

theorem fileHolds_of (open' : OnInode file) : fileHolds b file = if file.ip = b then 1 else 0 := by
  unfold fileHolds
  simp only [open', true_and]

theorem fileHolds_congr {file' : Sysfile.File} (opens : OnInode file' ↔ OnInode file)
    (same : file'.ip = file.ip) : fileHolds b file' = fileHolds b file :=
  if_congr (and_congr opens (same ▸ Iff.rfl)) rfl rfl

theorem fileHolds_none (none : file.type = .none) : fileHolds b file = 0 := by
  refine if_neg fun both => ?_
  rcases both.1 with inode | device
  · exact absurd (none.symm.trans inode) (by decide)
  · exact absurd (none.symm.trans device) (by decide)

theorem cwdHolds_dead : cwdHolds b (false, ip) = 0 := if_neg fun both => Bool.noConfusion both.1

theorem cwdHolds_live : cwdHolds b (true, ip) = if ip = b then 1 else 0 := by
  unfold cwdHolds
  simp only [true_and]

theorem points_self : points f (some f) = 1 := if_pos rfl

theorem points_none : points f none = 0 := if_neg fun wrong => Option.some_ne_none f wrong.symm

theorem holders_file (opens : OnInode (k.file f)) : 0 < holders live k (k.file f).ip := by
  have one : fileHolds (k.file f).ip (k.file f) = 1 := if_pos ⟨opens, rfl⟩
  have part := Shares.le_sum (fileHolds (k.file f).ip) k.file f
  unfold holders
  omega

theorem holders_cwd (alive : live p = true) : 0 < holders live k (k.proc p).cwd := by
  have one : cwdHolds (k.proc p).cwd (live p, (k.proc p).cwd) = 1 := if_pos ⟨alive, rfl⟩
  have part := Shares.le_sum (cwdHolds (k.proc p).cwd) (fun q => (live q, (k.proc q).cwd)) p
  unfold holders
  omega

theorem Counted.used (counted : Counted k) (here : (k.proc p).ofile fd = some f) : 0 < (k.file f).ref := by
  have one : points f ((k.proc p).ofile fd) = 1 := if_pos here
  have part := Shares.le_sum (points f) (fun q : ProcId × Fin NOFILE => (k.proc q.1).ofile q.2) (p, fd)
  have count := counted.refs f
  dsimp only at part
  unfold descriptors at count
  omega

theorem count_cons_fst (b ip : Namei.Slot) : (((ip, i) :: held).map Prod.fst).count b =
    (held.map Prod.fst).count b + if ip = b then 1 else 0 := by
  rw [List.map_cons, List.count_cons]
  simp only [beq_iff_eq]

theorem Typed.mono {held' : List (Namei.Slot × Nat)} (typed : Typed k held v b P)
    (inode : k'.inode b = k.inode b) (volume : k'.volume = k.volume)
    (more : ∀ i, (b, i) ∈ held → (b, i) ∈ held') : Typed k' held' v b P := by
  rcases typed with base | ⟨i, member, holds⟩
  · refine .inl ?_
    unfold Kernel.inum
    rw [inode, volume]
    exact base
  · exact .inr ⟨i, more i member, holds⟩

theorem Typed.holds (typed : Typed k [] v b P) : P (k.volume.inode (k.inum b)).type := by
  rcases typed with ⟨-, holds⟩ | ⟨i, member, -⟩
  · exact holds
  · exact absurd member List.not_mem_nil

theorem Typed.grow {w : Volume} (typed : Typed k [] v b P) (inode : k'.inode b = k.inode b)
    (volume : k'.volume = k.volume) : Typed k' held w b P := by
  rcases typed with ⟨used, holds⟩ | ⟨i, member, -⟩
  · refine .inl ?_
    unfold Kernel.inum
    rw [inode, volume]
    exact ⟨used, holds⟩
  · exact absurd member List.not_mem_nil

theorem Owned.count (o : Owned n live [] v k) (b : Namei.Slot) : holders live k b = (k.inode b).ref :=
  o.shares b

/-- A call has ended, and the references that it has got have found their owners. -/
theorem Owned.settle (o : Owned n live held v k) (h : Midway held [] v k k')
    (fit : Fit n start held v k.fs) : Owned n live [] k'.volume k' := by
  have t := h.during
  have volume := h.volume
  have typed {b : Namei.Slot} {P : Nat → Prop} (typed : Typed k held v b P) : Typed k' [] k'.volume b P := by
    refine .inl ?_
    rw [volume]
    rcases typed with ⟨used, holds⟩ | ⟨i, member, holds⟩
    · have inum : k'.inum b = k.inum b := t.old used
      have ref : (k'.inode b).ref = (k.inode b).ref + _ := t.ref b
      refine ⟨by omega, ?_⟩
      rw [inum]
      have types : (v.inode (k.inum b)).type = (k.volume.inode (k.inum b)).type := (fit.types used).1
      rwa [types]
    · exact ⟨t.used (Table.mem member), (h.inum member).symm ▸ holds⟩
  refine ⟨h.rest.ninodes.trans o.ninodes, h.rest.outstanding.trans o.idle, ⟨fun f => ?_, fun {f} => ?_⟩,
    fun b => ?_, fun {p} alive => ?_,
    fun {f} opens writes => ?_⟩
  · unfold descriptors
    rw [h.rest.file, h.rest.proc]
    exact o.counted.refs f
  · rw [h.rest.file]
    exact o.counted.closed
  · have same : holders live k' b = holders live k b := by
      unfold holders
      rw [h.rest.file, h.rest.proc]
    have ref : (k'.inode b).ref = (k.inode b).ref + (held.map Prod.fst).count b := t.ref b
    have count := o.shares b
    rw [same, count, ref]
    rfl
  · rw [h.rest.proc]
    exact typed (o.cwd alive)
  · rw [h.rest.file] at opens writes ⊢
    exact typed (o.writable opens writes)

/-! ### Files -/

theorem store_proc (q : ProcId) : ((store k f file p fd x).proc q).cwd = (k.proc q).cwd := by
  show (update k.proc p _ q).cwd = _
  by_cases here : q = p
  · subst here
    rw [update_self]
  · rw [update_of_ne here]

theorem store_self : (store k f file p fd x).file f = file := update_self ..

theorem store_other (other : g ≠ f) : (store k f file p fd x).file g = k.file g := update_of_ne other ..

theorem descriptors_store : descriptors (store k f file p fd x) g + points g ((k.proc p).ofile fd) =
    descriptors k g + points g x := by
  have here : ((store k f file p fd x).proc p).ofile fd = x := by
    show (update k.proc p _ p).ofile fd = x
    rw [update_self]
    exact update_self ..
  have change := Shares.change (c := points g) (g := fun q : ProcId × Fin NOFILE => (k.proc q.1).ofile q.2)
    (h := fun q => ((store k f file p fd x).proc q.1).ofile q.2) (i := (p, fd)) fun q apart => ?_
  · dsimp only at change
    rwa [here] at change
  · obtain ⟨q, e⟩ := q
    refine congrArg (points g) ?_
    show (update k.proc p _ q).ofile e = _
    by_cases same : q = p
    · subst same
      rw [update_self]
      exact update_of_ne (fun same => apart (by rw [same])) ..
    · rw [update_of_ne same]

theorem points_other {o : Option (Fin NFILE)} (other : ∀ g, o = some g → g = f) (apart : g ≠ f) :
    points g o = 0 := if_neg fun same => apart (other g same)

/-- A file gets or loses a descriptor, or keeps those it has. -/
theorem Counted.store (counted : Counted k) (old : ∀ g, (k.proc p).ofile fd = some g → g = f)
    (new : ∀ g, x = some g → g = f)
    (refs : file.ref + points f ((k.proc p).ofile fd) = (k.file f).ref + points f x)
    (closed : file.ref = 0 ↔ file.type = .none) :
    Counted (store k f file p fd x) := by
  refine ⟨fun g => ?_, fun {g} => ?_⟩
  · have change : descriptors (Links.store k f file p fd x) g + _ = _ := descriptors_store
    have count := counted.refs g
    by_cases here : g = f
    · subst here
      rw [store_self]
      omega
    · rw [store_other here]
      rw [points_other old here, points_other new here] at change
      omega
  · by_cases here : g = f
    · rw [here, store_self]
      exact closed
    · rw [store_other here]
      exact counted.closed

theorem holders_store (b : Namei.Slot) :
    holders live (store k f file p fd x) b + fileHolds b (k.file f) = holders live k b + fileHolds b file := by
  have change := Shares.change (c := fileHolds b) (g := k.file) (h := (store k f file p fd x).file)
    (i := f) fun g apart => by rw [store_other apart]
  rw [store_self] at change
  unfold holders
  simp only [store_proc]
  omega

/-- What a file is open on stays. -/
theorem Owned.stored (o : Owned n live held v k) (counted : Counted (store k f file p fd x))
    (same : ∀ b, fileHolds b file = fileHolds b (k.file f))
    (writes : OnInode file → file.writable = true → OnInode (k.file f) ∧ (k.file f).writable = true ∧
      file.ip = (k.file f).ip) :
    Owned n live held v (store k f file p fd x) := by
  refine ⟨o.ninodes, o.idle, counted, fun b => ?_, fun {q} alive => ?_, fun {g} opens writable => ?_⟩
  · have change : holders live (Links.store k f file p fd x) b + _ = _ := holders_store b
    have count := o.shares b
    rw [same] at change
    exact (Nat.add_right_cancel change).trans count
  · rw [store_proc]
    exact (o.cwd alive).mono rfl rfl fun _ => id
  · by_cases here : g = f
    · subst here
      rw [store_self] at opens writable ⊢
      obtain ⟨opens, writable, same⟩ := writes opens writable
      rw [same]
      exact (o.writable opens writable).mono rfl rfl fun _ => id
    · rw [store_other here] at opens writable ⊢
      exact (o.writable opens writable).mono rfl rfl fun _ => id

/-- A file that was not in use is open on an inode that has been got for it. -/
theorem Owned.opened (o : Owned n live [] k.volume k) (unused : (k.file f).ref = 0)
    (free : (k.proc k.myproc).ofile fd = none) (ref : file.ref = 1)
    (opens : OnInode file) (here : file.ip = ip) (writes : file.writable = true → (v.inode i).type ≠ T_DIR) :
    Owned n live [(ip, i)] v (opened k f fd file) := by
  have closed : (k.file f).type = .none := o.counted.closed.mp unused
  have counted : Counted (store k f file k.myproc fd (some f)) := by
    refine o.counted.store (fun g wrong => ?_) (fun g same => (Option.some.inj same).symm) ?_ ?_
    · rw [free] at wrong
      exact absurd wrong.symm (Option.some_ne_none g)
    · rw [free, points_self, points_none, ref, unused]
    · rw [ref]
      refine ⟨fun wrong => absurd wrong (by decide), fun none => ?_⟩
      rcases opens with inode | device
      · exact absurd (none.symm.trans inode) (by decide)
      · exact absurd (none.symm.trans device) (by decide)
  refine ⟨o.ninodes, o.idle, counted, fun b => ?_, fun {q} alive => ?_, fun {g} open' writable => ?_⟩
  · have change : holders live (store k f file k.myproc fd (some f)) b + _ = _ := holders_store b
    rw [fileHolds_none closed, fileHolds_of opens, here] at change
    have count := o.count b
    rw [count_cons_fst]
    show holders live (store k f file k.myproc fd (some f)) b = (k.inode b).ref + (0 + _)
    omega
  · have same : ((Links.opened k f fd file).proc q).cwd = (k.proc q).cwd := store_proc q
    rw [same]
    exact (o.cwd alive).grow rfl rfl
  · by_cases this : g = f
    · subst this
      have self : (Links.opened k g fd file).file g = file := update_self ..
      rw [self] at writable ⊢
      exact .inr ⟨i, here ▸ List.mem_singleton_self _, writes writable⟩
    · have other : (Links.opened k f fd file).file g = k.file g := update_of_ne this ..
      rw [other] at open' writable ⊢
      exact (o.writable open' writable).grow rfl rfl

/-- A reference is given up that nobody has any more. -/
theorem Owned.lower (o : Owned n live [] v k) (counted : Counted k') (rest : k'.ninodes = k.ninodes ∧
      k'.outstanding = k.outstanding)
    {live' : ProcId → Bool} (inode : k'.inode = (lower k b).inode) (volume : k'.volume = k.volume)
    (less : ∀ c, holders live' k' c + (if b = c then 1 else 0) = holders live k c)
    (cwds : ∀ {q}, live' q = true → live q = true ∧
      (k'.proc q).cwd = (k.proc q).cwd)
    (files : ∀ {g}, OnInode (k'.file g) → (k'.file g).writable = true → OnInode (k.file g) ∧
      (k.file g).writable = true ∧
      (k'.file g).ip = (k.file g).ip) : Owned n live' [] v k' := by
  have count (c : Namei.Slot) : holders live' k' c = (k'.inode c).ref := by
    have before := o.count c
    have change := less c
    rw [inode]
    show _ = (update k.inode b _ c).ref
    by_cases here : b = c
    · subst here
      rw [if_pos rfl] at change
      rw [update_self]
      dsimp only
      omega
    · rw [if_neg here] at change
      rw [update_of_ne fun same => here same.symm]
      omega
  have inums (c : Namei.Slot) : k'.inum c = k.inum c := by
    unfold Kernel.inum
    rw [inode]
    show (update k.inode b _ c).inum = _
    by_cases here : c = b
    · rw [here, update_self]
    · rw [update_of_ne here]
  have typed {c : Namei.Slot} {P : Nat → Prop} (owned : 0 < holders live' k' c) (typed : Typed k [] v c P) :
    Typed k' [] v c P := by
    refine .inl ⟨count c ▸ owned, ?_⟩
    rw [volume, inums]
    exact typed.holds
  refine ⟨rest.1.trans o.ninodes, rest.2.trans o.idle, counted, count, fun {q} alive => ?_,
    fun {g} opens writes => ?_⟩
  · obtain ⟨before, same⟩ := cwds alive
    exact typed (holders_cwd alive) (same ▸ o.cwd before)
  · obtain ⟨before, writable, same⟩ := files opens writes
    exact typed (holders_file opens) (same ▸ o.writable before writable)

/-! ### Directories of processes -/

/-- A process gives up its directory. -/
theorem Owned.leave (o : Owned n live [] v k) (alive : live p = true) :
    Owned n (update live p false) [] v (Links.lower k (k.proc p).cwd) := by
  have counted : Counted (Links.lower k (k.proc p).cwd) := ⟨o.counted.refs, o.counted.closed⟩
  refine o.lower counted ⟨rfl, rfl⟩ rfl rfl (fun c => ?_) (fun {q} alive => ?_) fun opens writes =>
    ⟨opens, writes, rfl⟩
  · have change := Shares.change (c := cwdHolds c) (g := fun q => (live q, (k.proc q).cwd))
      (h := fun q => (update live p false q, (k.proc q).cwd)) (i := p) fun q apart => by
        rw [update_of_ne apart]
    rw [update_self, alive, cwdHolds_dead, cwdHolds_live] at change
    show ∑ f, fileHolds c (k.file f) + ∑ q, cwdHolds c (update live p false q, (k.proc q).cwd) + _ = _
    unfold holders
    omega
  · by_cases here : q = p
    · subst here
      rw [update_self] at alive
      exact Bool.noConfusion alive
    · rw [update_of_ne here] at alive
      exact ⟨alive, rfl⟩

/-- A process that had no directory gets one. -/
theorem Owned.enter (o : Owned n live [] v k) (dead : live p = false) {w : Volume}
    (dir : (w.inode i).type = T_DIR) :
    Owned n (update live p true) [(ip, i)] w (entered k p ip) := by
  have counted : Counted (entered k p ip) := by
    refine ⟨fun f => (o.counted.refs f).trans (Finset.sum_congr rfl fun q _ => ?_), o.counted.closed⟩
    refine congrArg (points f) ?_
    show _ = (update k.proc p _ q.1).ofile q.2
    by_cases here : q.1 = p
    · rw [here, update_self]
    · rw [update_of_ne here]
  refine ⟨o.ninodes, o.idle, counted, fun b => ?_, fun {q} alive => ?_, fun {f} opens writes =>
    (o.writable opens writes).grow rfl rfl⟩
  · have change := Shares.change (c := cwdHolds b) (g := fun q => (live q, (k.proc q).cwd))
      (h := fun q => (update live p true q, ((entered k p ip).proc q).cwd)) (i := p) fun q apart => by
        show cwdHolds b (_, (update k.proc p _ q).cwd) = _
        rw [update_of_ne apart, update_of_ne apart]
    have self : ((entered k p ip).proc p).cwd = ip := by
      show (update k.proc p _ p).cwd = ip
      rw [update_self]
    rw [update_self, self, dead, cwdHolds_dead, cwdHolds_live] at change
    have count := o.count b
    rw [count_cons_fst]
    unfold holders at count ⊢
    show ∑ f, fileHolds b (k.file f) + _ = (k.inode b).ref + (0 + _)
    omega
  · by_cases here : q = p
    · subst here
      have self : ((entered k q ip).proc q).cwd = ip := by
        show (update k.proc q _ q).cwd = ip
        rw [update_self]
      rw [self]
      exact .inr ⟨i, List.mem_singleton_self _, dir⟩
    · have same : ((entered k p ip).proc q).cwd = (k.proc q).cwd := by
        show (update k.proc p _ q).cwd = _
        rw [update_of_ne here]
      rw [update_of_ne here] at alive
      rw [same]
      exact (o.cwd alive).grow rfl rfl

end Owned

end Xv6.Sysfile.Links
