import Xv6.Fs.Balance
import Mathlib.Data.Finset.Card
import Mathlib.Data.Fintype.Card

namespace Xv6.Fs
open Threads Function

/-- The entries of the inode table to which a process has a reference. -/
def FsState.inUse (s : FsState) : Finset Slot := Finset.univ.filter fun b => s.users b ≠ []

/-- The entries that are the directory of a process or an open file. -/
def FsState.kept (s : FsState) : Finset Slot :=
  Finset.univ.filter fun b => ∃ t ∈ Finset.range NPROC, 0 < keeps (s.cwd t) (s.ofile t) b

/-- There is code to run. -/
def busy : FsProg Unit → Bool
  | .ret _ => false
  | .act .. => true

/-- The processes that are in a call. -/
def calling (x : Config Pid FsState FsAct FsAct.Resp) : Finset Pid :=
  (Finset.range NPROC).filter fun t => busy (x.code t)

/-- There is an entry for the inode, or fewer than `NINODE` inodes are in use. -/
def FsState.RoomFor (s : FsState) (inum : Nat) : Prop :=
  (∃ b ∈ s.inUse, (s.inode b).inum = inum) ∨ s.inUse.card < NINODE

/-- The inode that a step calls `iget` for. -/
def FsState.wants (s : FsState) : FsAct → Option Nat
  | .iget inum => some inum
  | .dirlookup dp name => (scan name 0 (s.dinode dp).dents).map Prod.snd
  | _ => none

/-- The call of `iget`, if the step makes one, finds room. -/
def Roomy (_ : Pid) (a : FsAct) (s : FsState) : Prop := ∀ inum, s.wants a = some inum → s.RoomFor inum

/-- Nobody is in a call, and the processes have references to their directories and open files only. -/
structure Settled (x : Config Pid FsState FsAct FsAct.Resp) : Prop where
  code (t) : x.code t = pure ()
  refs (b) : (x.shared.inode b).ref = (x.shared.users b).length
  idle (t) : Idle t (x.shared.hands t)

abbrev Leads : Config Pid FsState FsAct FsAct.Resp → Config Pid FsState FsAct FsAct.Resp → Prop :=
  Reach fsMachine (fun _ _ _ => True) fsCalls

section Room

variable {s : FsState} {t : Pid} {inum : Nat} {a : FsAct} {room : Bool}
  {x y : Config Pid FsState FsAct FsAct.Resp}

theorem Counted.mem_inUse (counted : Counted s) {b : Slot} : b ∈ s.inUse ↔ 0 < (s.inode b).ref := by
  rw [FsState.inUse, Finset.mem_filter, counted.refs, List.length_pos_iff]
  exact and_iff_right (Finset.mem_univ b)

theorem Counted.lookup_eq_none (counted : Counted s) : s.lookup inum = none ↔
    ¬ ∃ b ∈ s.inUse, (s.inode b).inum = inum := by
  unfold FsState.lookup
  simp only [List.find?_eq_none, List.mem_finRange, true_implies, Bool.and_eq_true, decide_eq_true_eq,
    beq_iff_eq, not_and,
    not_exists, counted.mem_inUse]

theorem Counted.empty_eq_none (counted : Counted s) : s.empty = none ↔ s.inUse.card = NINODE := by
  have all : s.inUse.card = NINODE ↔ s.inUse = Finset.univ := by
    rw [← Finset.card_eq_iff_eq_univ, Fintype.card_fin]
  rw [all, FsState.empty, List.find?_eq_none, Finset.eq_univ_iff_forall]
  simp only [List.mem_finRange, true_implies, beq_iff_eq, counted.mem_inUse, Nat.pos_iff_ne_zero]

theorem FsState.iget_panics : s.iget t inum = .panic "iget: no inodes" ↔ s.lookup inum = none ∧
    s.empty = none := by
  unfold FsState.iget
  cases s.lookup inum <;> cases s.empty <;> simp

/-- `iget` stops the machine exactly if there is no room for the inode. -/
theorem Counted.iget_panics_iff (counted : Counted s) : s.iget t inum = .panic "iget: no inodes" ↔
    ¬ s.RoomFor inum := by
  have most : s.inUse.card ≤ NINODE := (Finset.card_le_univ _).trans_eq (Fintype.card_fin _)
  rw [FsState.iget_panics, counted.lookup_eq_none, counted.empty_eq_none, FsState.RoomFor, not_or]
  exact and_congr_right fun _ => by omega

theorem Settled.holds (settled : Settled x) : handsOutline.Holds fsMachine Idle x := by
  refine ⟨⟨settled.refs, fun t => (settled.idle t).has.walk_le⟩, fun t => ?_⟩
  rw [settled.code]
  exact settled.idle t

theorem Settled.reach (settled : Settled x) (run : Leads x y) : handsOutline.Holds fsMachine Idle y :=
  settled.holds.reach handsOutline_isolated (fun _ _ k _ idle small => k.keeps_idle small idle) run

/-- There are no other processes. -/
theorem Settled.outside (settled : Settled x) (run : Leads x y) (out : NPROC ≤ t) : y.code t = pure () := by
  induction run with
  | refl => exact settled.code t
  | tail _ move ih =>
    cases move with
    | @call u k _ small =>
      have other : t ≠ u := Nat.ne_of_gt (Nat.lt_of_lt_of_le small out)
      rw [← ih]
      exact update_of_ne other ..
    | @act u a next c answer s' code =>
      have other : t ≠ u := by
        rintro rfl
        cases code.symm.trans ih
      rw [← ih]
      exact update_of_ne other ..

/-- A process that is in no call has references to its directory and its open files. -/
theorem Idle.count (idle : Idle t (s.hands t)) (b : Slot) :
    (s.users b).count t = keeps (s.cwd t) (s.ofile t) b := by
  have mine := idle.has.mine b
  rwa [List.count_nil, Nat.add_zero, Nat.add_zero] at mine

theorem Idle.none (idle : Idle t (s.hands t)) (out : NPROC ≤ t) (b : Slot) : (s.users b).count t = 0 := by
  obtain ⟨cwd, ofile⟩ := idle.outside out
  have cwd : s.cwd t = Option.none := cwd
  have ofile (fd : Nat) : s.ofile t fd = Option.none := ofile fd
  rw [idle.count, keeps_closed ofile, cwd]
  rfl

theorem idle_of (holds : handsOutline.Holds fsMachine Idle y) (code : y.code t = pure ()) :
    Idle t (y.shared.hands t) := by
  have ends := holds.code t
  rwa [code] at ends

theorem inUse_le (holds : handsOutline.Holds fsMachine Idle y) (outside : ∀ t, NPROC ≤ t →
      y.code t = pure ()) :
    y.shared.inUse.card ≤ y.shared.kept.card + 3 * (calling y).card := by
  -- the entries that a process refers to by a variable
  let walked (t : Pid) : Finset Slot :=
    Finset.univ.filter fun b => keeps (y.shared.cwd t) (y.shared.ofile t) b < (y.shared.users b).count t
  have few (t : Pid) : (walked t).card ≤ 3 := by
    refine (?_ : _ ≤ (y.shared.hands t).walk).trans (holds.inv.few t)
    rw [Finset.card_filter]
    refine Finset.sum_le_sum fun b _ => ?_
    show _ ≤ (y.shared.users b).count t - keeps (y.shared.cwd t) (y.shared.ofile t) b
    split <;> omega
  have cover : y.shared.inUse ⊆ y.shared.kept ∪ (calling y).biUnion walked := by
    intro b used
    obtain ⟨t, member⟩ := List.exists_mem_of_ne_nil _ (Finset.mem_filter.mp used).2
    have some := List.count_pos_iff.mpr member
    have inside : t < NPROC := by
      by_contra out
      have idle := idle_of holds (outside t (Nat.le_of_not_lt out))
      have none := idle.none (Nat.le_of_not_lt out) b
      omega
    by_cases kept : 0 < keeps (y.shared.cwd t) (y.shared.ofile t) b
    · refine Finset.mem_union_left _ (Finset.mem_filter.mpr ⟨Finset.mem_univ b, t,
        Finset.mem_range.mpr inside, kept⟩)
    · refine Finset.mem_union_right _
        (Finset.mem_biUnion.mpr ⟨t, Finset.mem_filter.mpr ⟨Finset.mem_range.mpr inside, ?_⟩,
        Finset.mem_filter.mpr ⟨Finset.mem_univ b, by omega⟩⟩)
      cases code : y.code t with
      | ret value =>
        have same := (idle_of holds code).count b
        omega
      | act a next => rfl
  calc y.shared.inUse.card
    _ ≤ (y.shared.kept ∪ (calling y).biUnion walked).card := Finset.card_le_card cover
    _ ≤ y.shared.kept.card + ((calling y).biUnion walked).card := Finset.card_union_le ..
    _ ≤ y.shared.kept.card + ∑ t ∈ calling y, (walked t).card := Nat.add_le_add_left Finset.card_biUnion_le _
    _ ≤ y.shared.kept.card + (calling y).card * 3 :=
      Nat.add_le_add_left (Finset.sum_le_card_nsmul _ _ 3 fun t _ => few t) _
    _ = y.shared.kept.card + 3 * (calling y).card := by rw [Nat.mul_comm]

/-- Only `iget` stops the machine for want of an inode. -/
theorem panic_wants (stop : fsMachine t room a s = .panic "iget: no inodes") :
    ∃ inum, s.wants a = some inum ∧ s.iget t inum = .panic "iget: no inodes" := by
  cases a with
  | iget inum => exact ⟨inum, rfl, stop⟩
  | dirlookup dp name =>
    simp only [fsMachine] at stop
    split at stop
    · simp at stop
    · split at stop
      · cases stop
      · next off inum found =>
        refine ⟨inum, by simp [FsState.wants, found], ?_⟩
        split at stop
        · cases stop
        · cases stop
        · next message eq => rw [eq, Outcome.panic.inj stop]
  | iput ip =>
    simp only [fsMachine, FsState.iput] at stop
    split at stop
    · split at stop <;> cases stop
    · cases stop
  | acquiresleep ip =>
    simp only [fsMachine] at stop
    split at stop
    · simp at stop
    · split at stop <;> cases stop
  | load ip =>
    simp only [fsMachine] at stop
    split at stop
    · cases stop
    · split at stop <;> simp at stop
  | releasesleep ip =>
    simp only [fsMachine] at stop
    split at stop <;> simp at stop
  | checkLinked ip =>
    simp only [fsMachine] at stop
    split at stop <;> simp at stop
  | claim inum type =>
    simp only [fsMachine] at stop
    split at stop <;> cases stop
  | writeDirent dp name inum =>
    simp only [fsMachine] at stop
    split at stop
    · cases stop
    · split at stop <;> cases stop
  | cwd =>
    simp only [fsMachine] at stop
    split at stop <;> cases stop
  | fdalloc ip =>
    simp only [fsMachine] at stop
    split at stop
    · cases stop
    · split at stop <;> cases stop
  | _ => cases stop

end Room

/-- As long as each `iget` is for an inode in use or finds fewer than `NINODE` inodes in use, no system call
runs out of entries of the inode table; `iget` stops the machine only if that fails. In use are the
directories of the processes, their open files and at most three more inodes for each call under way, so it
cannot fail while these are fewer than `NINODE`. -/
theorem iget_finds_entry {x : Config Pid FsState FsAct FsAct.Resp} (settled : Settled x) :
    (∀ y, Reach fsMachine Roomy fsCalls x y → ¬ Panics fsMachine Roomy y "iget: no inodes") ∧
    ∀ y, Leads x y →
      (∀ t inum, y.shared.iget t inum = .panic "iget: no inodes" ↔ ¬ y.shared.RoomFor inum) ∧
      (∀ t, y.code t = pure () → ∀ b, (y.shared.users b).count t = keeps (y.shared.cwd t)
        (y.shared.ofile t) b) ∧
      y.shared.inUse.card ≤ y.shared.kept.card + 3 * (calling y).card ∧
      (y.shared.kept.card + 3 * (calling y).card < NINODE →
        ¬ Panics fsMachine (fun _ _ _ => True) y "iget: no inodes") := by
  refine ⟨fun y run => ?_, fun y run => ?_⟩
  · have holds := settled.reach (run.weaken fun _ _ _ _ => trivial)
    rintro ⟨t, a, next, room, _, roomy, stop⟩
    obtain ⟨inum, wants, panics⟩ := panic_wants stop
    exact holds.inv.iget_panics_iff.mp panics (roomy inum wants)
  · have holds := settled.reach run
    have bound := inUse_le holds fun t out => settled.outside run out
    refine ⟨fun t inum => holds.inv.iget_panics_iff, fun t code => (idle_of holds code).count,
      bound, fun few => ?_⟩
    rintro ⟨t, a, next, room, _, -, stop⟩
    obtain ⟨inum, wants, panics⟩ := panic_wants stop
    exact holds.inv.iget_panics_iff.mp panics (.inr (Nat.lt_of_le_of_lt bound few))

/-! ### As many working directories as there are entries -/

/-- The name of a directory: a letter and a digit. -/
def dirName (k : Nat) : List Char := [Char.ofNat (97 + k / 10), Char.ofNat (48 + k % 10)]

def rootAttr : Attr := ⟨.dir, 0, 0, 51⟩

def dirAttr : Attr := ⟨.dir, 0, 0, 1⟩

/-- A root directory with fifty directories, the inodes from 2 on. -/
def manyDirs (i : Nat) : Dinode :=
  if i = ROOTINO then
    ⟨rootAttr, ⟨ROOTINO, dot⟩ :: ⟨ROOTINO, dotdot⟩ :: (List.range 50).map fun k => ⟨k + 2, dirName k⟩⟩
  else if i < 52 then ⟨dirAttr, [⟨i, dot⟩, ⟨ROOTINO, dotdot⟩]⟩
  else ⟨⟨.free, 0, 0, 0⟩, []⟩

def nthSlot (n : Nat) : Slot := ⟨n % NINODE, Nat.mod_lt _ (by decide)⟩

/-- The inode table when each of the first `k` processes has gone to a directory of its own. -/
def spread (k : Nat) (b : Slot) : MemInode :=
  if b.val = 0 then ⟨ROOTINO, NPROC - k, none, true, rootAttr⟩
  else if b.val ≤ k then ⟨b.val + 1, 1, none, true, dirAttr⟩
  else ⟨0, 0, none, false, ⟨.free, 0, 0, 0⟩⟩

def spreadCwd (k : Nat) (t : Pid) : Option Slot :=
  if t < k then some (nthSlot (t + 1)) else if t < NPROC then some firstSlot else none

/-- All processes are in the root directory. -/
def atRoot : FsState where
  ninodes := 200
  disk := manyDirs
  inode := spread 0
  cwd := spreadCwd 0
  ofile _ _ := none
  users b := if b.val = 0 then List.range NPROC else []

/-- What an atomic step makes of the inode table and the working directories, on the disk above. -/
def Does (t : Pid) (a : FsAct) (I : Slot → MemInode) (C : Pid → Option Slot) (answer : a.Resp)
    (I' : Slot → MemInode)
    (C' : Pid → Option Slot) : Prop :=
  ∀ s : FsState, s.inode = I → s.cwd = C → s.disk = manyDirs →
    ∃ s', fsMachine t true a s = .ok answer s' ∧ s'.inode = I' ∧ s'.cwd = C' ∧ s'.disk = manyDirs

/-- One process has code to run, the others none. -/
structure At (t : Pid) (code : FsProg Unit) (I : Slot → MemInode) (C : Pid → Option Slot)
    (x : Config Pid FsState FsAct FsAct.Resp) : Prop where
  code : x.code = update (fun _ => pure ()) t code
  inode : x.shared.inode = I
  cwd : x.shared.cwd = C
  disk : x.shared.disk = manyDirs

section Spread

variable {t : Pid} {I I' : Slot → MemInode} {C C' : Pid → Option Slot} {b c : Slot} {k off inum : Nat}
  {x : Config Pid FsState FsAct FsAct.Resp} {name : Name}

theorem At.step (allowed : Pid → FsAct → FsState → Prop) {a : FsAct}
    {next : a.Resp → FsProg Unit} {answer : a.Resp}
    (here : At t (.act a next) I C x) (does : Does t a I C answer I' C') (ok : allowed t a x.shared) :
    ∃ y, Step fsMachine allowed fsCalls x y ∧ At t (next answer) I' C' y := by
  obtain ⟨s', run, inode, cwd, disk⟩ := does x.shared here.inode here.cwd here.disk
  have code : x.code t = .act a next := by rw [here.code, update_self]
  refine ⟨_, .act code ok run, ?_, inode, cwd, disk⟩
  simp only [here.code, update_idem]

theorem At.act {a : FsAct} {next : a.Resp → FsProg Unit} {answer : a.Resp} (here : At t (.act a next) I C x)
    (does : Does t a I C answer I' C') : ∃ y, Leads x y ∧ At t (next answer) I' C' y := by
  obtain ⟨y, step, there⟩ := here.step (fun _ _ _ => True) does trivial
  exact ⟨y, .single step, there⟩

theorem At.call (rest : At t (pure ()) I C x) {u : Pid} (legal : u < NPROC) (c : Syscall) :
    ∃ y, Leads x y ∧ At u c.code I C y := by
  have idle : x.code = fun _ => pure () := by rw [rest.code]; exact update_eq_self t _
  refine ⟨_, .single (.call (k := .syscall c) (t := u) (by rw [idle]) legal), ?_, rest.inode,
    rest.cwd, rest.disk⟩
  simp only [idle]
  rfl

theorem does_beginOp : Does t .beginOp I C () I C := fun _ inode cwd disk => ⟨_, rfl, inode, cwd, disk⟩

theorem does_endOp : Does t .endOp I C () I C := fun _ inode cwd disk => ⟨_, rfl, inode, cwd, disk⟩

theorem does_cwd (at' : C t = some b) : Does t .cwd I C b I C := fun s inode cwd disk =>
  ⟨s, by simp only [fsMachine, cwd, at'], inode, cwd, disk⟩

theorem does_setCwd : Does t (.setCwd (some b)) I C () I (update C t (some b)) := fun _ inode cwd disk =>
  ⟨_, rfl, inode, by simp only [cwd], disk⟩

theorem does_attr : Does t (.attr b) I C (I b).attr I C := fun s inode cwd disk =>
  ⟨s, by simp only [fsMachine, inode], inode, cwd, disk⟩

theorem does_idup : Does t (.idup b) I C () (update I b { I b with ref := (I b).ref + 1 }) C :=
  fun s inode cwd disk => ⟨_, rfl, by simp only [FsState.hit, FsState.put, inode], cwd, disk⟩

theorem does_acquiresleep (used : 0 < (I b).ref) (free : (I b).locked = none) :
    Does t (.acquiresleep b) I C () (update I b { I b with locked := some t }) C := fun s inode cwd disk => by
  refine ⟨s.lock b (some t), ?_, by simp only [FsState.lock, FsState.put, inode], cwd, disk⟩
  simp only [fsMachine, inode, free]
  rw [if_neg (by omega)]
  rfl

theorem does_load_valid (valid : (I b).valid = true) : Does t (.load b) I C () I C := fun s inode cwd disk =>
  ⟨s, by simp only [fsMachine, inode, valid, if_true], inode, cwd, disk⟩

theorem does_load (invalid : (I b).valid = false) (used : (manyDirs (I b).inum).attr.type ≠ .free) :
    Does t (.load b) I C () (update I b { I b with attr := (manyDirs (I b).inum).attr, valid := true }) C :=
  fun s inode cwd disk => by
  refine ⟨s.load b, ?_, by simp only [FsState.load, FsState.put, FsState.dinode, inode, disk], cwd, disk⟩
  simp only [fsMachine, FsState.dinode, inode, disk, invalid, used]
  rfl

theorem does_releasesleep (used : 0 < (I b).ref) (own : (I b).locked = some t) :
    Does t (.releasesleep b) I C () (update I b { I b with locked := none }) C := fun s inode cwd disk => by
  refine ⟨s.lock b none, ?_, by simp only [FsState.lock, FsState.put, inode], cwd, disk⟩
  simp only [fsMachine, inode, own]
  rw [if_neg (by simp; omega)]

theorem does_iput (linked : (I b).attr.nlink ≠ 0) :
    Does t (.iput b) I C false (update I b { I b with ref := (I b).ref - 1 }) C := fun s inode cwd disk => by
  refine ⟨s.drop t b, ?_, by simp only [FsState.drop, FsState.put, inode], cwd, disk⟩
  simp only [fsMachine, FsState.iput, inode]
  rw [if_neg fun last => linked last.2.2]

theorem does_dirlookup (dir : (I b).attr.type = .dir)
    (found : scan name 0 (manyDirs (I b).inum).dents = some (off, inum))
    (absent : ∀ c, 0 < (I c).ref → (I c).inum ≠ inum) (free : ∀ c, (I c).ref = 0 ↔
      k < c.val) (room : k < 49) :
    Does t (.dirlookup b name) I C (some (off, nthSlot (k + 1)))
      (update I (nthSlot (k + 1)) { I (nthSlot (k + 1)) with inum, ref := 1, valid := false }) C :=
  fun s inode cwd disk => by
  have first : ∀ k < 49, (List.finRange NINODE).find? (fun c => decide (k < c.val)) =
    some (nthSlot (k + 1)) := by
    decide +kernel
  have none : s.lookup inum = none := by
    refine List.find?_eq_none.mpr fun c _ found => ?_
    rw [Bool.and_eq_true, decide_eq_true_eq, beq_iff_eq, inode] at found
    exact absent c found.1 found.2
  have empty : s.empty = some (nthSlot (k + 1)) := by
    have same : (fun c => (s.inode c).ref == 0) = fun c => decide (k < c.val) := funext fun c => by
      rw [inode, Bool.eq_iff_iff, beq_iff_eq, decide_eq_true_eq, free c]
    rw [FsState.empty, same, first k room]
  refine ⟨s.recycle t (nthSlot (k + 1)) inum, ?_, by simp only [FsState.recycle, FsState.put,
    inode], cwd, disk⟩
  simp only [fsMachine, FsState.dinode, inode, disk, dir, found, FsState.iget, none, empty]
  rfl

/-- `chdir` to a directory in the working directory. -/
def chdirTo (name : Name) : FsProg Unit := do
  FsAct.beginOp.run
  let ip ← FsAct.cwd.run
  (FsAct.idup ip).run
  match ← namexFrom false ip [name] with
  | none => FsAct.endOp.run
  | some (ip, _) => do
    ilock ip
    if (← (FsAct.attr ip).run).type ≠ .dir then do
      iunlockput ip
      FsAct.endOp.run
    else do
      iunlock ip
      iput (← FsAct.cwd.run)
      FsAct.endOp.run
      (FsAct.setCwd (some ip)).run

theorem sysChdir_dirName (small : k < 50) : sysChdir (some (dirName k)) = chdirTo (dirName k) := by
  have relative : ∀ k < 50, (dirName k).head? ≠ some '/' := by decide +kernel
  have single : ∀ k < 50, elements (dirName k).length (dirName k) = [dirName k] := by decide +kernel
  unfold sysChdir namei namex
  simp only [if_neg (relative k small), single k small]
  rfl

theorem scan_dirName (small : k < 50) : scan (dirName k) 0 (manyDirs ROOTINO).dents = some (k + 2, k + 2) := by
  have all : ∀ k < 50, scan (dirName k) 0 (manyDirs ROOTINO).dents = some (k + 2, k + 2) := by decide +kernel
  exact all k small

theorem val_ne_zero (other : b ≠ firstSlot) : b.val ≠ 0 := fun zero => other (Fin.ext zero)

/-- The entries other than that of the root directory. -/
theorem spread_other (other : b ≠ firstSlot) : spread k b =
    if b.val ≤ k then ⟨b.val + 1, 1, none, true, dirAttr⟩ else ⟨0, 0, none, false, ⟨.free, 0, 0, 0⟩⟩ :=
  if_neg (val_ne_zero other)

/-- The table while a process looks at the root directory. -/
theorem rooted_free {m : MemInode} (used : 0 < m.ref) :
    (update (spread k) firstSlot m c).ref = 0 ↔ k < c.val := by
  by_cases root : c = firstSlot
  · subst root
    rw [update_self]
    show m.ref = 0 ↔ k < 0
    omega
  · rw [update_of_ne root, spread_other root]
    split <;> simp <;> omega

theorem rooted_absent {m : MemInode} (inum : m.inum = ROOTINO)
    (used : 0 < (update (spread k) firstSlot m c).ref) :
    (update (spread k) firstSlot m c).inum ≠ k + 2 := by
  by_cases root : c = firstSlot
  · subst root
    rw [update_self, inum]
    unfold ROOTINO
    omega
  · rw [update_of_ne root, spread_other root] at used ⊢
    split at used
    · next low =>
      rw [if_pos low]
      show c.val + 1 ≠ k + 2
      omega
    · exact absurd used (lt_irrefl 0)

theorem nthSlot_val (small : k < 49) : (nthSlot (k + 1)).val = k + 1 :=
  Nat.mod_eq_of_lt (by unfold NINODE; omega)

theorem nthSlot_ne (small : k < 49) : nthSlot (k + 1) ≠ firstSlot := fun same => by
  have := congrArg Fin.val same
  rw [nthSlot_val small] at this
  exact absurd this (Nat.succ_ne_zero k)

/-- A process goes from the root directory to one that nobody uses. -/
theorem chdir_spread (small : k < 49) (here : At k (sysChdir (some (dirName k))) (spread k) (spreadCwd k) x) :
    ∃ y, Leads x y ∧ At k (pure ()) (spread (k + 1)) (spreadCwd (k + 1)) y := by
  rw [sysChdir_dirName (by omega)] at here
  have root : spread k firstSlot = ⟨ROOTINO, NPROC - k, none, true, rootAttr⟩ := rfl
  have at' : spreadCwd k k = some firstSlot := (if_neg (lt_irrefl k)).trans (if_pos (small.trans (by decide)))
  have apart := nthSlot_ne small
  have disk : (manyDirs (k + 2)).attr = dirAttr := by
    unfold manyDirs
    rw [if_neg (by unfold ROOTINO; omega), if_pos (by omega)]
  obtain ⟨x₁, r₁, h₁⟩ := here.act does_beginOp
  obtain ⟨x₂, r₂, h₂⟩ := h₁.act (does_cwd at')
  obtain ⟨x₃, r₃, h₃⟩ := h₂.act does_idup
  obtain ⟨x₄, r₄, h₄⟩ := h₃.act (does_acquiresleep (by simp) (by simp [root]))
  obtain ⟨x₅, r₅, h₅⟩ := h₄.act (does_load_valid (by simp [root]))
  rw [update_idem, update_self, root] at h₅
  obtain ⟨x₆, r₆, h₆⟩ := h₅.act does_attr
  rw [update_self] at h₆
  obtain ⟨x₇, r₇, h₇⟩ := h₆.act (does_dirlookup (by rw [update_self]; rfl)
    (by rw [update_self]; exact scan_dirName (by omega)) (fun c used => rooted_absent rfl used)
    (fun c => rooted_free (Nat.succ_pos _)) small)
  obtain ⟨x₈, r₈, h₈⟩ := h₇.act (does_releasesleep (by simp [apart.symm]) (by simp [apart.symm]))
  obtain ⟨x₉, r₉, h₉⟩ := h₈.act (does_iput (by simp [apart.symm, rootAttr]))
  -- The root directory is free again, and the other one is locked.
  have shape : x₉.shared.inode = update (update (spread k) firstSlot ⟨ROOTINO, NPROC - k,
      none, true, rootAttr⟩)
      (nthSlot (k + 1)) ⟨k + 2, 1, none, false, (spread k (nthSlot (k + 1))).attr⟩ := by
    rw [h₉.inode]
    funext c
    by_cases atRoot : c = firstSlot
    · subst atRoot
      simp [apart.symm]
    · by_cases atNew : c = nthSlot (k + 1)
      · subst atNew
        simp [apart, spread_other apart, nthSlot_val small]
      · simp [atRoot, atNew]
  have opened : At k _ _ (spreadCwd k) x₉ := ⟨h₉.code, shape, h₉.cwd, h₉.disk⟩
  obtain ⟨y₁, q₁, g₁⟩ := opened.act (does_acquiresleep (b := nthSlot (k + 1)) (by simp) (by simp))
  obtain ⟨y₂, q₂, g₂⟩ := g₁.act (does_load (by simp) (by simp [disk, dirAttr]))
  obtain ⟨y₃, q₃, g₃⟩ := g₂.act does_attr
  rw [update_self] at g₃
  simp only [update_self, update_idem, disk] at g₃
  obtain ⟨y₄, q₄, g₄⟩ := g₃.act (does_releasesleep (by simp) (by simp))
  obtain ⟨y₅, q₅, g₅⟩ := g₄.act (does_cwd at')
  obtain ⟨y₆, q₆, g₆⟩ := g₅.act (does_iput (by simp [apart.symm, rootAttr]))
  obtain ⟨y₇, q₇, g₇⟩ := g₆.act does_endOp
  obtain ⟨y₈, q₈, g₈⟩ := g₇.act does_setCwd
  refine ⟨y₈, r₁.trans <| r₂.trans <| r₃.trans <| r₄.trans <| r₅.trans <| r₆.trans <| r₇.trans <| r₈.trans <|
    r₉.trans <| q₁.trans <| q₂.trans <| q₃.trans <| q₄.trans <| q₅.trans <| q₆.trans <|
    q₇.trans q₈, g₈.code, ?_, ?_,
    g₈.disk⟩
  · rw [g₈.inode]
    funext c
    by_cases atRoot : c = firstSlot
    · subst atRoot
      simp [apart.symm]
      rfl
    · rw [spread_other atRoot]
      by_cases atNew : c = nthSlot (k + 1)
      · subst atNew
        simp [apart, nthSlot_val small]
      · have far : c.val ≠ k + 1 := fun same => atNew (Fin.ext (same.trans (nthSlot_val small).symm))
        have same : c.val ≤ k + 1 ↔ c.val ≤ k := by omega
        simp only [update_of_ne atRoot, update_of_ne atNew, spread_other atRoot, same]
  · rw [g₈.cwd]
    funext t
    by_cases self : t = k
    · subst self
      rw [update_self]
      exact (if_pos (Nat.lt_succ_self _)).symm
    · rw [update_of_ne self]
      unfold spreadCwd
      by_cases below : t < k
      · rw [if_pos below, if_pos (Nat.lt_succ_of_lt below)]
      · rw [if_neg below, if_neg fun least => (Nat.lt_succ_iff_lt_or_eq.mp least).elim below self]

/-- The first processes have gone to directories of their own. -/
theorem reach_spread (small : k < 50) :
    ∃ x, Leads ⟨atRoot, fun _ => pure ()⟩ x ∧ At k (pure ()) (spread k) (spreadCwd k) x := by
  induction k with
  | zero => exact ⟨_, .refl, (update_eq_self 0 _).symm, rfl, rfl, rfl⟩
  | succ k ih =>
    obtain ⟨x, run, here⟩ := ih (by omega)
    have process : k < NPROC := (Nat.lt_of_succ_lt small).trans (by decide)
    obtain ⟨y, call, there⟩ := here.call (u := k) process (.chdir (some (dirName k)))
    obtain ⟨z, steps, gone⟩ := chdir_spread (by omega) there
    refine ⟨z, run.trans (call.trans steps), ?_, gone.inode, gone.cwd, gone.disk⟩
    rw [gone.code]
    exact (update_eq_self k _).trans (update_eq_self (k + 1) _).symm

end Spread

theorem atRoot_settled : Settled ⟨atRoot, fun _ => pure ()⟩ := by
  refine ⟨fun _ => rfl, fun b => ?_, fun t => ⟨⟨rfl, rfl, fun b => ?_, Nat.zero_le 3⟩,
    fun _ _ => rfl, fun out => ?_⟩⟩
  · by_cases root : b.val = 0
    · simp [atRoot, spread, root]
    · simp [atRoot, spread, root]
  · show (atRoot.users b).count t + 0 = keeps (atRoot.cwd t) (atRoot.ofile t) b + 0
    rw [keeps_closed (F := atRoot.ofile t) fun _ => rfl]
    by_cases root : b.val = 0
    · obtain rfl : b = firstSlot := Fin.ext root
      by_cases small : t < NPROC <;> simp [atRoot, spreadCwd, firstSlot, small, List.count_range]
    · have other : firstSlot ≠ b := fun same => root (congrArg Fin.val same.symm)
      by_cases small : t < NPROC <;> simp [atRoot, spreadCwd, root, small, other]
  · refine ⟨?_, fun _ => rfl⟩
    show spreadCwd 0 t = none
    rw [spreadCwd, if_neg (Nat.not_lt_zero t), if_neg (Nat.not_lt_of_le out)]

/-- The first process calls `chdir` and comes to the `iget` for its new directory, with one inode in use. -/
theorem iget_finds_entry_chdir : ∃ y next, Reach fsMachine Roomy fsCalls ⟨atRoot, fun _ => pure ()⟩ y ∧
    y.code 0 = .act (.dirlookup firstSlot (dirName 0)) next ∧
    y.shared.wants (.dirlookup firstSlot (dirName 0)) = some 2 ∧
    Roomy 0 (.dirlookup firstSlot (dirName 0)) y.shared ∧ ¬ Panics fsMachine Roomy y "iget: no inodes" := by
  have start : At 0 (sysChdir (some (dirName 0))) (spread 0) (spreadCwd 0) ⟨atRoot,
    update (fun _ => pure ()) 0 (sysChdir (some (dirName 0)))⟩ :=
    ⟨rfl, rfl, rfl, rfl⟩
  rw [sysChdir_dirName (by decide)] at start
  have call : Step fsMachine Roomy fsCalls ⟨atRoot, fun _ => pure ()⟩ ⟨atRoot,
    update (fun _ => pure ()) 0 (sysChdir (some (dirName 0)))⟩ :=
    .call (k := FsCall.syscall (.chdir (some (dirName 0)))) (t := 0) rfl (show 0 < NPROC by decide)
  obtain ⟨x₁, r₁, h₁⟩ := start.step Roomy does_beginOp nofun
  obtain ⟨x₂, r₂, h₂⟩ := h₁.step Roomy (does_cwd (b := firstSlot) rfl) nofun
  obtain ⟨x₃, r₃, h₃⟩ := h₂.step Roomy does_idup nofun
  obtain ⟨x₄, r₄, h₄⟩ := h₃.step Roomy (does_acquiresleep (by simp) rfl) nofun
  obtain ⟨x₅, r₅, h₅⟩ := h₄.step Roomy (does_load_valid rfl) nofun
  rw [update_idem, update_self] at h₅
  obtain ⟨x₆, r₆, h₆⟩ := h₅.step Roomy does_attr nofun
  rw [update_self] at h₆
  have run : Reach fsMachine Roomy fsCalls ⟨atRoot, fun _ => pure ()⟩ x₆ :=
    (((((Relation.ReflTransGen.single call).tail r₁).tail r₂).tail r₃).tail r₄).tail r₅ |>.tail r₆
  have counted := (atRoot_settled.reach (run.weaken fun _ _ _ _ => trivial)).inv
  have found : x₆.shared.wants (.dirlookup firstSlot (dirName 0)) = some 2 := by
    show (scan (dirName 0) 0 (x₆.shared.dinode firstSlot).dents).map Prod.snd = _
    rw [FsState.dinode, h₆.inode, h₆.disk, update_self]
    exact congrArg (Option.map Prod.snd) (scan_dirName (by decide))
  refine ⟨x₆, _, run, by rw [h₆.code, update_self]; rfl, found, fun inum _ => .inr ?_, (iget_finds_entry
    atRoot_settled).1 x₆ run⟩
  have one : x₆.shared.inUse ⊆ {firstSlot} := by
    intro b used
    rw [counted.mem_inUse, h₆.inode] at used
    by_contra other
    rw [update_of_ne (Finset.mem_singleton.not.mp other),
      spread_other (Finset.mem_singleton.not.mp other)] at used
    split at used
    · next low => exact val_ne_zero (Finset.mem_singleton.not.mp other) (Nat.le_zero.mp low)
    · cases used
  exact Nat.lt_of_le_of_lt (Finset.card_le_card one) (by decide)

/-- Fifty processes that go to fifty directories, with no file open: the fiftieth stops the machine. -/
theorem chdir_no_inodes : ∃ y, Leads ⟨atRoot, fun _ => pure ()⟩ y ∧
    Panics fsMachine (fun _ _ _ => True) y "iget: no inodes" := by
  obtain ⟨x, run, here⟩ := reach_spread (k := 49) (by decide)
  obtain ⟨x₀, call, h₀⟩ := here.call (u := 49) (by decide) (.chdir (some (dirName 49)))
  rw [Syscall.code, sysChdir_dirName (by decide)] at h₀
  obtain ⟨x₁, r₁, h₁⟩ := h₀.act does_beginOp
  obtain ⟨x₂, r₂, h₂⟩ := h₁.act (does_cwd (b := firstSlot) rfl)
  obtain ⟨x₃, r₃, h₃⟩ := h₂.act does_idup
  obtain ⟨x₄, r₄, h₄⟩ := h₃.act (does_acquiresleep (by simp) rfl)
  obtain ⟨x₅, r₅, h₅⟩ := h₄.act (does_load_valid rfl)
  rw [update_idem, update_self] at h₅
  obtain ⟨x₆, r₆, h₆⟩ := h₅.act does_attr
  refine ⟨x₆, run.trans <| call.trans <| r₁.trans <| r₂.trans <| r₃.trans <| r₄.trans <| r₅.trans r₆, 49,
    .dirlookup firstSlot (dirName 49), _, true, by rw [h₆.code, update_self]; rfl, trivial, ?_⟩
  rw [update_self] at h₆
  have panics : x₆.shared.iget 49 51 = .panic "iget: no inodes" := by
    refine FsState.iget_panics.mpr ⟨List.find?_eq_none.mpr fun c _ found => ?_,
      List.find?_eq_none.mpr fun c _ => ?_⟩
    · rw [Bool.and_eq_true, decide_eq_true_eq, beq_iff_eq, h₆.inode] at found
      exact rooted_absent rfl found.1 found.2
    · rw [h₆.inode, beq_iff_eq, rooted_free (by simp)]
      exact Nat.not_lt.mpr (Nat.le_of_lt_succ c.isLt)
  have dir : (x₆.shared.inode firstSlot).attr.type = .dir := by
    rw [h₆.inode, update_self]
    rfl
  have found : scan (dirName 49) 0 (x₆.shared.dinode firstSlot).dents = some (51, 51) := by
    rw [FsState.dinode, h₆.inode, h₆.disk, update_self]
    exact scan_dirName (by decide)
  simp only [fsMachine, dir, found, panics]
  rfl

end Xv6.Fs
