import Xv6.Links.Events

/-! What holds whenever no call is under way, however the processes have called, forked and exited before. -/

namespace Xv6.Sysfile.Links
open Function Content Content.Volume Namei

/-- An event comes from a process that has been created, and the first one does not exit, which would stop the
kernel; a call on names does not start in a directory that has been removed, and no inode has as many links as
a `short` can count. The log and the buffers are left out, and what stops the kernel there with them. -/
def Event.Allowed (w : World) : Event → Prop
  | .call p (.name c) => w.live p = true ∧ (∀ i, (w.kernel.volume.inode i).nlink <
      32767) ∧ ∀ path ∈ paths c, Starts (scheduled w.kernel p) path
  | .call p _ => w.live p = true
  | .fork p np => w.live p = true ∧ w.live np = false
  | .exit p => w.live p = true ∧ p ≠ initproc

/-- What an event does to the tree of directories. -/
def Event.Does (w w' : World) : Event → Prop
  | .call p (.name c) => ∃ r, c.run (scheduled w.kernel p) = .ok (r,
      w'.kernel) ∧ Acted (scheduled w.kernel p) r (tree w'.kernel.volume) c
  | _ => tree w'.kernel.volume = tree w.kernel.volume

inductive Reach (w₀ : World) : World → Prop where
  | start : Reach w₀ w₀
  | next {w w' : World} {e : Event} : Reach w₀ w → e.Allowed w → e.run w = .ok w' → Reach w₀ w'

/-- The first process is in the root of a disk on which every file has a name, and nothing is open. -/
structure Booted (n start : Nat) (w : World) : Prop where
  small : n ≤ 65536
  ninodes : w.kernel.ninodes = n
  idle : w.kernel.outstanding = 0
  linked : Linked n w.kernel.volume
  tight : Tight start w.kernel.volume
  named {i} : (w.kernel.volume.inode i).type ≠ 0 → (w.kernel.volume.inode i).nlink ≠ 0
  live (p) : w.live p = decide (p = initproc)
  root : (w.kernel.inode (w.kernel.proc initproc).cwd).ref = 1 ∧
    w.kernel.inum (w.kernel.proc initproc).cwd = ROOTINO
  empty {b} : b ≠ (w.kernel.proc initproc).cwd → (w.kernel.inode b).ref = 0
  unlocked (b) : (w.kernel.inode b).locked = false
  files (f) : (w.kernel.file f).ref = 0 ∧ (w.kernel.file f).type = .none
  closed (p fd) : (w.kernel.proc p).ofile fd = none

section Runs

variable {n start : Nat} {w w₀ w' : World} {e : Event} {k k' : Kernel} {p : ProcId} {live : ProcId → Bool}

theorem Booted.sound (boot : Booted n start w) : Sound n start w := by
  have only {b : Namei.Slot} (used : 0 < (w.kernel.inode b).ref) : b = (w.kernel.proc initproc).cwd := by
    by_contra other
    have free := boot.empty other
    omega
  have top := boot.linked.root
  have inum {b : Namei.Slot} (used : 0 < (w.kernel.inode b).ref) : (w.kernel.inode b).inum = ROOTINO :=
    only used ▸ boot.root.2
  have unopened (f : Fin NFILE) : ¬OnInode (w.kernel.file f) := not_onInode (.inr (boot.files f).2)
  refine ⟨boot.small, ⟨boot.linked, boot.tight, boot.unlocked, fun b c used used' _ =>
    (only used).trans (only used').symm, fun b used => ?_,
    fun {b} used => ?_, fun {i} used none => absurd none (boot.named used)⟩,
    ⟨boot.ninodes, boot.idle, ⟨fun f => ?_, fun {f} => ?_⟩, fun b => ?_,
    fun {p} alive => ?_, fun {f} opens => absurd opens (unopened f)⟩, fun {p} _ => boot.closed p⟩
  · refine .inr ?_
    have here : (w.kernel.fs.inode b).inum = ROOTINO := inum used
    rw [here]
    exact top.2
  · have here : (w.kernel.fs.inode b).inum = ROOTINO := inum used
    rw [here]
    exact top.used
  · rw [(boot.files f).1]
    refine (Finset.sum_eq_zero fun q _ => ?_).symm
    rw [boot.closed]
    exact points_none
  · rw [(boot.files f).1, (boot.files f).2]
    exact ⟨fun _ => rfl, fun _ => rfl⟩
  · have files : ∑ f, fileHolds b (w.kernel.file f) = 0 :=
      Finset.sum_eq_zero fun f _ => fileHolds_none (boot.files f).2
    have cwds : ∑ p, cwdHolds b (w.live p, (w.kernel.proc p).cwd) =
      cwdHolds b (true, (w.kernel.proc initproc).cwd) := by
      rw [Finset.sum_eq_single initproc]
      · rw [boot.live, decide_eq_true rfl]
      · intro p _ other
        rw [boot.live, decide_eq_false other]
        exact if_neg fun both => Bool.noConfusion both.1
      · exact fun missing => absurd (Finset.mem_univ _) missing
    unfold holders
    rw [files, cwds, cwdHolds_live, Nat.zero_add]
    show _ = (w.kernel.inode b).ref
    by_cases here : (w.kernel.proc initproc).cwd = b
    · rw [if_pos here, ← here, boot.root.1]
    · rw [if_neg here, boot.empty fun same => here same.symm]
  · have first : p = initproc := by
      rw [boot.live, decide_eq_true_eq] at alive
      exact alive
    rw [first]
    refine .inl ⟨by rw [boot.root.1]; decide, ?_⟩
    rw [boot.root.2]
    exact top.1

/-- A step in which a program is run. -/
theorem outcome {α : Type} {m : SysM α} {Q : α → Kernel → Prop}
    (ends : Ends m k Full fun r k' => Sound n start ⟨k', live⟩ ∧ Q r k')
    {run : Except String World} (same : run = (m k).map fun r => ⟨r.2, live⟩) :
    (∀ w', run = .ok w' → Sound n start w' ∧ ∃ r, m k = .ok (r, w'.kernel) ∧ Q r w'.kernel) ∧
    ∀ e, run = .error e → Full e := by
  subst same
  unfold Ends at ends
  cases run : m k with
  | ok r =>
    rw [run] at ends
    refine ⟨fun w' done => ?_, fun e wrong => ?_⟩
    · cases done
      exact ⟨ends.1, r.1, rfl, ends.2⟩
    · cases wrong
  | error e =>
    rw [run] at ends
    refine ⟨fun w' wrong => ?_, fun e' done => ?_⟩
    · cases wrong
    · cases done
      exact ends

/-- An event leads to a sound state, or it ends with the only panic that there is. -/
theorem Event.run_ends (sound : Sound n start w) (allowed : e.Allowed w) :
    (∀ w', e.run w = .ok w' → Sound n start w' ∧ e.Does w w') ∧ ∀ m, e.run w = .error m → Full m := by
  obtain ⟨k, live⟩ := w
  have keeps {α : Type} {m : SysM α} (k₀ : Kernel) {live' : ProcId → Bool} (volume : k₀.volume = k.volume)
      (ends : Ends m k₀ Full fun _ k' => Keeps n start k₀ live' k') {run : Except String World}
      (same : run = (m k₀).map fun r => ⟨r.2, live'⟩) :
      (∀ w', run = .ok w' → Sound n start w' ∧ tree w'.kernel.volume = tree k.volume) ∧
      ∀ e, run = .error e → Full e := by
    obtain ⟨done, wrong⟩ := outcome ends same
    refine ⟨fun w' run => ?_, wrong⟩
    obtain ⟨sound, r, -, trees⟩ := done w' run
    exact ⟨sound, trees.trans (by rw [volume])⟩
  have mapped {α : Type} (m : SysM α) (k₀ : Kernel) (live' : ProcId → Bool) :
      (m k₀ >>= fun r => pure (⟨r.2, live'⟩ : World)) = (m k₀).map fun r => ⟨r.2, live'⟩ := by
    cases m k₀ with
    | ok r => rfl
    | error e => rfl
  cases e with
  | call p c =>
    have at' := sound.scheduled p
    cases c with
    | name c => exact outcome (call_ends at' allowed.1 allowed.2.1 allowed.2.2) (mapped c.run
        (scheduled k p) live)
    | read fd limit m other => exact keeps (scheduled k p) rfl (sysRead_ends at') (mapped _
        (scheduled k p) live)
    | write fd src limit m other =>
      exact keeps (scheduled k p) rfl (sysWrite_ends at') (mapped _ (scheduled k p) live)
    | dup fd => exact keeps (scheduled k p) rfl (sysDup_ends at' allowed) (mapped _ (scheduled k p) live)
    | close fd => exact keeps (scheduled k p) rfl (sysClose_ends at' allowed) (mapped _ (scheduled k p) live)
  | fork p np =>
    have ends := forkFiles_ends (sound.scheduled p) allowed.1 allowed.2
    exact keeps (scheduled k p) rfl ends (mapped _ (scheduled k p) _)
  | exit p =>
    have ends := exitFiles_ends (sound.scheduled p) allowed.1 allowed.2
    exact keeps (scheduled k p) rfl ends (mapped _ (scheduled k p) _)

theorem Reach.sound (boot : Booted n start w₀) (reach : Reach w₀ w) : Sound n start w := by
  induction reach with
  | start => exact boot.sound
  | next _ allowed run ih => exact ((Event.run_ends ih allowed).1 _ run).1

/-- A data block is marked just if it has a place in an inode; it has one place, and the inode
is allocated. -/
theorem block_owners (boot : Booted n start w₀) (reach : Reach w₀ w) {b : Nat}
    (inside : start ≤ b ∧ b < w.kernel.volume.size) :
    (w.kernel.volume.used b = true ↔ ∃ i l, l < NSLOT ∧ w.kernel.volume.slot i l = b) ∧
    ∀ i l j m, l < NSLOT → m < NSLOT → w.kernel.volume.slot i l = b → w.kernel.volume.slot j m = b →
      i = j ∧ l = m ∧ (w.kernel.volume.inode i).type ≠ 0 := by
  have sound := reach.sound boot
  have tight : Tight start w.kernel.volume := sound.steady.tight
  have cons : w.kernel.volume.Consistent := sound.steady.linked.cons
  have positive : b ≠ 0 := by
    have low := tight.low.1
    omega
  refine ⟨⟨fun marked => tight.owner inside.1 inside.2 marked, fun place => ?_⟩,
    fun i l j m first second here there => ?_⟩
  · obtain ⟨i, l, below, here⟩ := place
    rw [← here]
    exact cons.used i l below (here.trans_ne positive)
  · obtain ⟨rfl, rfl⟩ := cons.distinct i l j m first second (here.trans there.symm) (here.trans_ne positive)
    refine ⟨rfl, rfl, fun free => positive ?_⟩
    rw [← here, tight.clear free first]

/-- An inode that is allocated has as many links as names and directories right below it, and one without
links is in use; every name is for an inode that is allocated. -/
theorem link_counts (boot : Booted n start w₀) (reach : Reach w₀ w) :
    (∀ i, (w.kernel.volume.inode i).type ≠ 0 → (w.kernel.volume.inode i).nlink =
      (tree w.kernel.volume).links i) ∧
    (∀ i, (w.kernel.volume.inode i).type ≠ 0 → (w.kernel.volume.inode i).nlink = 0 →
      ∃ b, 0 < (w.kernel.inode b).ref ∧ w.kernel.inum b = i) ∧
    ∀ d x i, (tree w.kernel.volume).entry d x = some i → (w.kernel.volume.inode i).type ≠ 0 ∧
    (w.kernel.volume.inode i).nlink ≠ 0 := by
  have steady : Steady n start w.kernel.fs := (reach.sound boot).steady
  have linked : Linked n w.kernel.volume := steady.linked
  refine ⟨fun i used => linked.nlink used, fun i used none => steady.kept used none, fun d x i here => ?_⟩
  have used := linked.present here
  have count := linked.sound.links_pos here
  have nlink := linked.nlink used
  refine ⟨used, ?_⟩
  omega

/-- The directories form a tree: the root has no name, each other one has one name, in the directory that its
".." is for, and all are reached from the root. -/
theorem directory_tree (boot : Booted n start w₀) (reach : Reach w₀ w) {d : Nat}
    (dir : IsDir w.kernel.volume d) :
    child w.kernel.volume d dotKey = some d ∧ (tree w.kernel.volume).Reached d ∧
    (d = ROOTINO → child w.kernel.volume d dotdotKey = some d ∧
      ∀ p x, (tree w.kernel.volume).entry p x ≠ some d) ∧
    (d ≠ ROOTINO → (∃! p : Nat × Name, (tree w.kernel.volume).entry p.1 p.2 = some d) ∧
      ∀ p x, (tree w.kernel.volume).entry p x = some d → child w.kernel.volume d dotdotKey = some p) := by
  have steady : Steady n start w.kernel.fs := (reach.sound boot).steady
  have linked : Linked n w.kernel.volume := steady.linked
  have sound := linked.sound
  have up := linked.above.mpr dir
  have same : (tree w.kernel.volume).above d = child w.kernel.volume d dotdotKey := names_dir dir _
  refine ⟨?_, sound.reached up, fun top => ⟨?_, fun p x here => ?_⟩, fun other => ⟨?_, fun p x here => ?_⟩⟩
  · obtain ⟨m, ok, dots⟩ := linked.dirs dir
    rw [child_eq ok, dots, if_neg (by have := linked.inside dir.used; omega)]
  · rw [← same, top]
    exact sound.root
  · exact (sound.above here up).2 top
  · exact sound.one_name up other
  · rw [← same]
    exact (sound.above here up).1

/-- Nothing but a full inode table stops the kernel. -/
theorem no_other_panic (boot : Booted n start w₀) (reach : Reach w₀ w) (allowed : e.Allowed w) :
    (∃ w', e.run w = .ok w') ∨ e.run w = .error "iget: no inodes" := by
  have ends := (Event.run_ends (reach.sound boot) allowed).2
  cases run : e.run w with
  | ok w' => exact .inl ⟨w', rfl⟩
  | error m => exact .inr (congrArg Except.error (ends m run))

/-- An entry of the inode table has a reference for each open file and each process in it, and a file has one
for each descriptor; the processes are in directories, and no file writes to one. -/
theorem reference_counts (boot : Booted n start w₀) (reach : Reach w₀ w) :
    (∀ b, (w.kernel.inode b).ref = holders w.live w.kernel b) ∧
    (∀ f, (w.kernel.file f).ref = descriptors w.kernel f) ∧
    (∀ p, w.live p = true → (w.kernel.volume.inode (w.kernel.inum (w.kernel.proc p).cwd)).type = T_DIR) ∧
    ∀ f, OnInode (w.kernel.file f) → (w.kernel.file f).writable = true →
      (w.kernel.volume.inode (w.kernel.inum (w.kernel.file f).ip)).type ≠ T_DIR := by
  obtain ⟨k, live⟩ := w
  have sound := reach.sound boot
  have owned : Owned n live [] k.volume k := sound.owned
  exact ⟨fun b => (sound.shares b).symm, owned.counted.refs, fun p alive => (owned.cwd alive).holds,
    fun f opens writes =>
    (owned.writable opens writes).holds⟩

/-- An inode is allocated only while names lead to it from the root, or a process has it open or is in it. -/
theorem nothing_lost (boot : Booted n start w₀) (reach : Reach w₀ w) {i : Nat}
    (used : (w.kernel.volume.inode i).type ≠ 0) :
    (tree w.kernel.volume).Reached i ∨
    (∃ p fd f, w.live p = true ∧ (w.kernel.proc p).ofile fd = some f ∧ OnInode (w.kernel.file f) ∧
      w.kernel.inum (w.kernel.file f).ip = i) ∨
    ∃ p, w.live p = true ∧ w.kernel.inum (w.kernel.proc p).cwd = i := by
  obtain ⟨k, live⟩ := w
  have sound := reach.sound boot
  have owned : Owned n live [] k.volume k := sound.owned
  have steady : Steady n start k.fs := sound.steady
  have linked : Linked n k.volume := steady.linked
  by_cases unlinked : (k.volume.inode i).nlink = 0
  · right
    obtain ⟨b, ref, inum⟩ := steady.kept used unlinked
    have inum : k.inum b = i := inum
    have owners : 0 < holders live k b := owned.count b ▸ ref
    unfold holders at owners
    rcases Nat.add_pos_iff_pos_or_pos.mp owners with files | cwds
    · obtain ⟨f, holds⟩ := Shares.pos_of_sum files
      have opens : OnInode (k.file f) ∧ (k.file f).ip = b := by
        by_contra closed
        exact absurd holds (by rw [fileHolds, if_neg closed]; decide)
      have used : (k.file f).ref ≠ 0 := fun zero => not_onInode (.inr (owned.counted.closed.mp zero)) opens.1
      rw [owned.counted.refs] at used
      obtain ⟨⟨p, fd⟩, one⟩ := Shares.pos_of_sum (c := points f) (Nat.pos_of_ne_zero used)
      have here : (k.proc p).ofile fd = some f := by
        by_contra other
        exact absurd one (by rw [points, if_neg other]; decide)
      refine .inl ⟨p, fd, f, ?_, here, opens.1, opens.2 ▸ inum⟩
      by_contra gone
      have closed := sound.dead (Bool.eq_false_of_not_eq_true gone) fd
      exact Option.some_ne_none f (here.symm.trans closed)
    · obtain ⟨p, holds⟩ := Shares.pos_of_sum cwds
      have lives : live p = true ∧ (k.proc p).cwd = b := by
        by_contra other
        exact absurd holds (by rw [cwdHolds, if_neg other]; decide)
      exact .inr ⟨p, lives.1, lives.2 ▸ inum⟩
  · left
    by_cases dir : (tree k.volume).above i = none
    · by_cases named : ∃ d x, (tree k.volume).entry d x = some i
      · obtain ⟨d, x, here⟩ := named
        exact (linked.sound.reached (linked.sound.named here)).tail ⟨x, here⟩
      · have zero := linked.sound.no_links dir fun d x here => named ⟨d, x, here⟩
        have count := linked.nlink used
        rw [zero] at count
        exact absurd count unlinked
    · exact linked.sound.reached dir

/-- Calls on names change the tree of directories as their results say, and nothing else changes it. -/
theorem tree_steps (boot : Booted n start w₀) (reach : Reach w₀ w) (allowed : e.Allowed w)
    (run : e.run w = .ok w') : e.Does w w' :=
  ((Event.run_ends (reach.sound boot) allowed).1 w' run).2

end Runs

/-! ### A run -/

/-- A disk with nothing but the root. -/
def rootOnly : Volume where
  size := 2000
  used b := b < 47
  block b := if b = 46 then (dirent 1 dot).splice 16 16 (dirent 1 dotdot) else fun _ => 0
  inode i := if i = 1 then ⟨T_DIR, 1, 32, fun k => if k = 0 then 46 else 0⟩ else ⟨0, 0, 0, fun _ => 0⟩
  ballocs := 0
  logWrites := 0

theorem rootOnly_slot {i l : Nat} (place : rootOnly.slot i l ≠ 0) : i = 1 ∧ l = 0 := by
  by_cases root : i = 1
  · by_cases first : l = 0
    · exact ⟨root, first⟩
    · exact absurd (by simp [Volume.slot, rootOnly, root, first, NDIRECT]) place
  · exact absurd (by simp [Volume.slot, rootOnly, root]) place

theorem rootOnly_free {i : Nat} (other : i ≠ 1) : rootOnly.inode i = ⟨0, 0, 0, fun _ => 0⟩ := if_neg other

theorem rootOnly_dir {d : Nat} (dir : IsDir rootOnly d) : d = 1 := by
  by_contra other
  have type := dir.1
  rw [rootOnly_free other] at type
  cases type

theorem rootOnly_consistent : rootOnly.Consistent := by
  refine ⟨fun i l j m _ _ same place => ?_, fun i l _ place => ?_,
    (by decide : rootOnly.size ≤ 2 ^ 32), fun i => ?_⟩
  · obtain ⟨rfl, rfl⟩ := rootOnly_slot place
    obtain ⟨rfl, rfl⟩ := rootOnly_slot (same ▸ place)
    exact ⟨rfl, rfl⟩
  · obtain ⟨rfl, rfl⟩ := rootOnly_slot place
    decide
  · by_cases root : i = 1
    · subst root
      decide
    · rw [rootOnly_free root]
      exact Nat.zero_le _

theorem rootOnly_dirOk : DirOk rootOnly 1 (dots 1 1) where
  dir := by decide
  full bn inside := by
    have size : (rootOnly.inode 1).size = 32 := rfl
    have first : bn = 0 := by
      rw [size] at inside
      unfold BSIZE at inside
      omega
    subst first
    decide
  aligned := by decide
  dots := by decide
  unique := by
    have all : ∀ j < 2, ∀ k < 2, rootOnly.name 1 j = rootOnly.name 1 k → j = k := by decide
    exact fun j k first second _ _ => all j first k second
  map := by
    have all : ∀ k < 2, dots 1 1 (rootOnly.name 1 k) = rootOnly.inum 1 k := by decide +kernel
    exact fun k below _ => all k below
  only key some := by
    by_cases second : key = nameKey dotdot
    · exact ⟨1, by decide, by decide, second ▸ by decide⟩
    · by_cases first : key = nameKey dot
      · exact ⟨0, by decide, by decide, first ▸ by decide⟩
      · exact absurd (by rw [dots, update_of_ne second, update_of_ne first]) some

theorem rootOnly_entry (d : Nat) (x : Name) : (tree rootOnly).entry d x = none := by
  rw [tree_entry]
  split
  next => rfl
  next other =>
    by_cases root : d = 1
    · subst root
      have dir : IsDir rootOnly 1 := ⟨by decide, by decide⟩
      rw [names_eq dir rootOnly_dirOk]
      refine if_pos ?_
      show update (update (fun _ => 0) dotKey 1) dotdotKey 1 x = 0
      rw [update_of_ne fun same => other (.inr same), update_of_ne fun same => other (.inl same)]
    · exact names_file (fun dir => root (rootOnly_dir dir)) _

theorem rootOnly_linked : Linked 200 rootOnly := by
  have dir : IsDir rootOnly 1 := ⟨by decide, by decide⟩
  have root {i : Nat} (used : (rootOnly.inode i).type ≠ 0) : i = 1 := by
    by_contra other
    exact used (by rw [rootOnly_free other])
  have above {d e : Nat} (upward : (tree rootOnly).above d = some e) : d = 1 ∧ e = 1 := by
    have same := rootOnly_dir (names_some upward)
    subst same
    have here : (tree rootOnly).above 1 = some 1 := by
      show names rootOnly 1 dotdotKey = some 1
      rw [names_eq dir rootOnly_dirOk]
      decide
    exact ⟨rfl, Option.some.inj (upward.symm.trans here)⟩
  have top : (tree rootOnly).above 1 = some 1 := by
    show names rootOnly 1 dotdotKey = some 1
    rw [names_eq dir rootOnly_dirOk]
    decide
  have only {d : Nat} (some : (tree rootOnly).above d ≠ none) : d = 1 := by
    obtain ⟨e, upward⟩ := Option.ne_none_iff_exists'.mp some
    exact (above upward).1
  have none {d i : Nat} {x : Name} (here : (tree rootOnly).entry d x = some i) : False := by
    rw [rootOnly_entry] at here
    cases here
  refine ⟨rootOnly_consistent, fun used => ?_, fun used => ?_, fun dir => ?_, ?_, fun here =>
    (none here).elim, fun {i} used => ?_⟩
  · rw [root used]
    decide
  · rw [root used]
    exact rootOnly_dirOk.full
  · rw [rootOnly_dir dir]
    exact ⟨_, rootOnly_dirOk, by decide⟩
  · refine ⟨top, fun here => (none here).elim, fun here => (none here).elim, fun here => (none here).elim,
      fun upward other => ?_, fun some => ?_, ?_, ?_⟩
    · exact absurd (above upward).1 other
    · rw [only some]
      exact Relation.ReflTransGen.refl
    · exact (Set.finite_singleton 1).subset fun d some => only some
    · exact Set.finite_empty.subset fun p some => some (rootOnly_entry ..)
  · rw [root used]
    have places : (tree rootOnly).places 1 = ∅ := Set.eq_empty_of_forall_notMem fun p here => none here
    have below : (tree rootOnly).below 1 = {1} :=
      Set.ext fun d => ⟨fun upward => (above upward).1, fun same => by
      rw [Set.mem_singleton_iff.mp same]
      exact top⟩
    unfold Hierarchy.links
    rw [places, below, Set.ncard_empty, Set.ncard_singleton]
    decide

theorem rootOnly_tight : Tight 46 rootOnly := by
  refine ⟨⟨by decide, fun b lower => ?_⟩, fun {i l} _ place => ?_, fun {b} lower _ marked => ?_,
    fun {i l} none _ => ?_⟩
  · exact decide_eq_true (by omega : b < 47)
  · obtain ⟨rfl, rfl⟩ := rootOnly_slot place
    decide
  · have below : b < 47 := of_decide_eq_true marked
    obtain rfl : b = 46 := by omega
    exact ⟨1, 0, by decide, by decide⟩
  · by_contra place
    obtain ⟨rfl, rfl⟩ := rootOnly_slot place
    revert none
    decide

/-- The first process has been made. -/
def first : World where
  kernel := {
    volume := rootOnly
    major _ := 0
    minor _ := 0
    ninodes := 200
    inode b := if b = ⟨0, NINODE_pos⟩ then ⟨1, 1, false, false⟩ else ⟨0, 0, false, false⟩
    file _ := ⟨.none, 0, false, false, 0, ⟨0, NINODE_pos⟩, 0, 0⟩
    proc _ := ⟨fun _ => none, ⟨0, NINODE_pos⟩⟩
    myproc := initproc
    outstanding := 0
    pipecloses := [] }
  live p := decide (p = initproc)

theorem first_booted : Booted 200 46 first where
  small := by decide
  ninodes := rfl
  idle := rfl
  linked := rootOnly_linked
  tight := rootOnly_tight
  named {i} used := by
    by_cases root : i = 1
    · rw [root]
      decide
    · exact absurd (congrArg Inode.type (rootOnly_free root)) used
  live _ := rfl
  root := ⟨by decide, by decide⟩
  empty {b} other := congrArg Namei.Entry.ref (if_neg other)
  unlocked b := by
    show (if b = _ then _ else _ : Namei.Entry).locked = false
    split <;> rfl
  files _ := ⟨rfl, rfl⟩
  closed _ _ := rfl

/-- The state after an event that does not stop the kernel. -/
def Event.then (e : Event) (w : World) : World :=
  match e.run w with
  | .ok w' => w'
  | .error _ => w

theorem Event.then_run {e : Event} {w : World} (fine : (e.run w).isOk = true) : e.run w = .ok (e.then w) := by
  unfold Event.then
  cases run : e.run w with
  | ok w' => rfl
  | error m =>
    rw [run] at fine
    cases fine

theorem no_nul {l : List UInt8} (all : (l.all fun b => b != 0) = true) : ∀ b ∈ l, b ≠ 0 :=
  fun b member => bne_iff_ne.mp (List.all_eq_true.mp all b member)

/-- "/a" -/
def pathA : Path := ⟨[slash, 97], no_nul rfl⟩

/-- The file is made. -/
def opens : Event := .call initproc (.name (.sysOpen (some pathA) (O_CREATE ||| O_RDWR)))

theorem one_below : 1 < NPROC := by decide

def second : ProcId := ⟨1, one_below⟩

/-- The process that has made it makes another one, which writes three bytes. -/
def forks : Event := .fork initproc second
def writes : Event := .call second (.write 0 (fun _ => 7) none 3 0)

/-- A directory is made instead. -/
def makes : Event := .call initproc (.name (.sysMkdir (some pathA)))

/-- Calls on paths from the root are allowed at first. -/
theorem first_allowed {c : Sysfile.Call} (absolute : ∀ path ∈ paths c, ∀ p ∈ path, p.val.head? = some slash) :
    Event.Allowed first (.call initproc (.name c)) := by
  refine ⟨rfl, fun i => ?_, fun path member p same => .inl (absolute path member p same)⟩
  by_cases root : i = 1
  · rw [root]
    decide
  · have none : first.kernel.volume.inode i = ⟨0, 0, 0, fun _ => 0⟩ := rootOnly_free root
    rw [none]
    decide

theorem opens_allowed : opens.Allowed first := first_allowed fun path member p same => by
  obtain rfl := List.mem_singleton.mp member
  exact Option.some.inj same ▸ rfl

theorem makes_allowed : makes.Allowed first := first_allowed fun path member p same => by
  obtain rfl := List.mem_singleton.mp member
  exact Option.some.inj same ▸ rfl

def written : World := writes.then (forks.then (opens.then first))

/-- The run, evaluated. -/
theorem written_values : ((opens.run first).isOk = true ∧ (forks.run (opens.then first)).isOk = true ∧
      (writes.run (forks.then (opens.then first))).isOk = true) ∧
    (((opens.then first).live initproc = true ∧ (opens.then first).live second = false) ∧
      (forks.then (opens.then first)).live second = true) ∧
    ((46 ≤ 47 ∧ 47 < written.kernel.volume.size) ∧ written.kernel.volume.used 47 = true) ∧
    ((makes.run first).isOk = true ∧
      ((makes.then first).kernel.volume.inode 2).type = T_DIR ∧
      ((makes.then first).kernel.volume.inode 2).nlink ≠ 0) ∧
    (written.kernel.volume.inode 2).type ≠ 0 := by
  decide +kernel

theorem opens_run : opens.run first = .ok (opens.then first) := Event.then_run written_values.1.1

theorem written_reach : Reach first written := by
  obtain ⟨⟨-, forks_fine, writes_fine⟩, ⟨two, alive⟩, -⟩ := written_values
  have forked : forks.run (opens.then first) = .ok (forks.then (opens.then first)) :=
    Event.then_run forks_fine
  have done : writes.run (forks.then (opens.then first)) = .ok written := Event.then_run writes_fine
  exact ((Reach.start.next opens_allowed opens_run).next (e := forks) two forked).next
    (e := writes) alive done

def Event.panic (e : Event) (w : World) : Option String :=
  match e.run w with
  | .ok _ => none
  | .error m => some m

/-- Directories "/a" and "/a/b" are made, entered and removed. -/
def removes : List Call :=
  let b : Path := ⟨[slash, 97, slash, 98], no_nul rfl⟩
  [.sysMkdir (some pathA), .sysMkdir (some b), .sysChdir (some b), .sysUnlink (some b),
    .sysUnlink (some pathA)]

def removed : World := removes.foldl (fun w c => (Event.call initproc (.name c)).then w) first

/-- From a directory that has been removed ".." may lead to an inode that is free, which is why
`Event.Allowed` excludes it. -/
theorem removed_panics : (Event.call initproc (.name (.sysChdir (some ⟨dotdotKey, no_nul rfl⟩)))).panic
    removed = some "ilock: no type" := by
  decide +kernel

theorem block_owners_written : written.kernel.volume.used 47 = true ∧
    (∃ i l, l < NSLOT ∧ written.kernel.volume.slot i l = 47) ∧
    ∀ i l j m, l < NSLOT → m < NSLOT → written.kernel.volume.slot i l = 47 →
    written.kernel.volume.slot j m = 47 →
      i = j ∧ l = m ∧ (written.kernel.volume.inode i).type ≠ 0 := by
  obtain ⟨range, marked⟩ := written_values.2.2.1
  have owners := block_owners first_booted written_reach range
  exact ⟨marked, owners.1.mp marked, owners.2⟩

theorem link_counts_written :
    (∀ i, (written.kernel.volume.inode i).type ≠ 0 → (written.kernel.volume.inode i).nlink =
      (tree written.kernel.volume).links i) ∧
    (∀ i, (written.kernel.volume.inode i).type ≠ 0 → (written.kernel.volume.inode i).nlink = 0 →
      ∃ b, 0 < (written.kernel.inode b).ref ∧ written.kernel.inum b = i) ∧
    ∀ d x i, (tree written.kernel.volume).entry d x = some i → (written.kernel.volume.inode i).type ≠ 0 ∧
    (written.kernel.volume.inode i).nlink ≠ 0 :=
  link_counts first_booted written_reach

theorem directory_tree_made : child (makes.then first).kernel.volume 2 dotKey = some 2 ∧
    (tree (makes.then first).kernel.volume).Reached 2 ∧
    (∃! p : Nat × Name, (tree (makes.then first).kernel.volume).entry p.1 p.2 = some 2) ∧
    ∀ p x, (tree (makes.then first).kernel.volume).entry p x = some 2 →
      child (makes.then first).kernel.volume 2 dotdotKey = some p := by
  obtain ⟨fine, dir⟩ := written_values.2.2.2.1
  have made : Reach first (makes.then first) := Reach.start.next makes_allowed (Event.then_run fine)
  obtain ⟨dot, reached, -, below⟩ := directory_tree first_booted made dir
  exact ⟨dot, reached, below (by decide)⟩

theorem reference_counts_written :
    (∀ b, (written.kernel.inode b).ref = holders written.live written.kernel b) ∧
    (∀ f, (written.kernel.file f).ref = descriptors written.kernel f) ∧
    (∀ p, written.live p = true → (written.kernel.volume.inode
      (written.kernel.inum (written.kernel.proc p).cwd)).type = T_DIR) ∧
    ∀ f, OnInode (written.kernel.file f) → (written.kernel.file f).writable = true →
      (written.kernel.volume.inode (written.kernel.inum (written.kernel.file f).ip)).type ≠ T_DIR :=
  reference_counts first_booted written_reach

theorem no_other_panic_opens : (∃ w', opens.run first = .ok w') ∨
    opens.run first = .error "iget: no inodes" :=
  no_other_panic first_booted .start opens_allowed

theorem nothing_lost_written : (tree written.kernel.volume).Reached 2 ∨
    (∃ p fd f, written.live p = true ∧ (written.kernel.proc p).ofile fd = some f ∧
      OnInode (written.kernel.file f) ∧
      written.kernel.inum (written.kernel.file f).ip = 2) ∨
    ∃ p, written.live p = true ∧ written.kernel.inum (written.kernel.proc p).cwd = 2 :=
  nothing_lost first_booted written_reach written_values.2.2.2.2

theorem tree_steps_opens : opens.Does first (opens.then first) :=
  tree_steps first_booted .start opens_allowed opens_run

end Xv6.Sysfile.Links
