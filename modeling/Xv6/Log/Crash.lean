import Xv6.Log.Pins

namespace Xv6
open Threads

/-- The disks agree outside the log area. -/
def SameHome (start size : Nat) (d e : Nat → Block) : Prop :=
  ∀ n, n ≠ start → n < start ∨ start + size ≤ n → d n = e n

/-- What `recover_from_log` makes of a disk. -/
def recovered (start : Nat) (disk : Nat → Block) : Nat → Block :=
  Redo.replay start (getHead (disk start)) disk

/-- Whatever is on the disk, recovery will give the home blocks one of two contents. -/
structure Recoverable (start size : Nat) (old new disk : Nat → Block) : Prop where
  header : HeaderOk start size (getHead (disk start))
  contents : SameHome start size (recovered start disk) old ∨ SameHome start size (recovered start disk) new

section Disks

variable {start size : Nat} {lh : List Nat} {disk old new logged : Nat → Block}

theorem SameHome.refl : SameHome start size disk disk := fun _ _ _ => rfl

theorem SameHome.trans {d e f : Nat → Block} (first : SameHome start size d e)
    (second : SameHome start size e f) : SameHome start size d f :=
  fun n head home => (first n head home).trans (second n head home)

theorem SameHome.symm {d e : Nat → Block} (same : SameHome start size d e) : SameHome start size e d :=
  fun n head home => (same n head home).symm

theorem getHead_setHead (ok : HeaderOk start size lh) : getHead (setHead start lh disk start) = lh := by
  rw [setHead, Function.update_self]
  refine getHead_putHead _ (Nat.lt_of_le_of_lt ok.short (by decide)) fun n member => (ok.home n member).2

@[simp] theorem getHead_clear : getHead (setHead start [] disk start) = [] :=
  getHead_setHead (headerOk_nil : HeaderOk start 0 [])

theorem setHead_home : SameHome start size (setHead start lh disk) disk :=
  fun _ head _ => Function.update_of_ne head _ _

theorem fillLog_head {k : Nat} : fillLog start lh logged disk k start = disk start :=
  Redo.fill_outside (.inl (Nat.le_refl _))

theorem fillLog_home {k : Nat} (ok : HeaderOk start size lh) (bound : k ≤ lh.length) :
    SameHome start size (fillLog start lh logged disk k) disk := fun n head home => by
  refine Redo.fill_outside ?_
  by_cases none : k = 0
  · omega
  · have := ok.slots (lh.length - 1) (by omega)
    omega

/-- The home blocks with the logged ones replaced by their new contents. -/
def overlay (lh : List Nat) (logged disk : Nat → Block) : Nat → Block :=
  fun n => if n ∈ lh then logged n else disk n

/-- At the commit point the transaction is on disk as a whole. -/
theorem replay_commitPoint (ok : HeaderOk start size lh) :
    SameHome start size (Redo.replay start lh (commitPoint start lh logged disk))
    (overlay lh logged disk) := by
  intro n head home
  by_cases member : n ∈ lh
  · obtain ⟨i, bound, rfl⟩ := List.getElem_of_mem member
    rw [Redo.replay_getElem ok.nodup ok.apart bound, commitPoint_slot bound, overlay, if_pos member]
  · rw [Redo.replay_of_notMem member, overlay, if_neg member, commitPoint, setHead_home n head home,
      fillLog_home ok (Nat.le_refl _) n head home]

theorem recoverable_of_empty (empty : getHead (disk start) = []) (same : SameHome start size disk old) :
    Recoverable start size old new disk where
  header := by rw [empty]; exact headerOk_nil
  contents := .inl (by rwa [recovered, empty, Redo.replay_nil])

/-- A recovery that is interrupted leaves a disk that recovers to the same contents. -/
theorem recoverable_install {k : Nat} (ok : HeaderOk start size lh) (head : getHead (disk start) = lh)
    (bound : k ≤ lh.length) (same : SameHome start size (Redo.replay start lh disk) new) :
    Recoverable start size old new (Redo.install start lh k disk) := by
  have head' : getHead (Redo.install start lh k disk start) = lh := by
    rw [Redo.install_of_notMem bound ok.apart.head, head]
  refine ⟨by rw [head']; exact ok, .inr ?_⟩
  rwa [recovered, head', Redo.replay_install ok.nodup ok.apart bound]

theorem recoverable_cleared (same : SameHome start size disk new) :
    Recoverable start size old new (setHead start [] disk) := by
  refine ⟨by rw [getHead_clear]; exact headerOk_nil, .inr ?_⟩
  rw [recovered, getHead_clear]
  exact setHead_home.trans same

/-- Every disk that `commit` passes through recovers to the old or to the new contents. -/
theorem commitSafe_recoverable (ok : HeaderOk start size lh) (empty : getHead (disk start) = [])
    (same : SameHome start size (overlay lh logged disk) new) :
    CommitSafe (Recoverable start size disk new) start lh logged disk where
  filling k bound := recoverable_of_empty (by rw [fillLog_head, empty]) (fillLog_home ok bound)
  installing k bound :=
    recoverable_install ok (getHead_setHead ok) bound ((replay_commitPoint ok).trans same)
  cleared := recoverable_cleared ((replay_commitPoint ok).trans same)

end Disks

/-- The block writes of a transaction. -/
abbrev Writes := List (Nat × Block)

def applyWrites : Writes → (Nat → Block) → Nat → Block
  | [], disk => disk
  | (n, data) :: rest, disk => applyWrites rest (Function.update disk n data)

/-- A transaction: each block is read, overwritten and logged. -/
def transaction (start : Nat) (writes : Writes) : BufProg Unit := do
  BufAct.beginOp.run
  .forEach (fun (n, data) => do
    let b ← bread n
    (BufAct.modify b data).run
    (BufAct.logWrite b).run
    brelse b) writes
  endOp start

/-- What the process knows between two transactions. -/
structure Settled (start size : Nat) (disk : Nat → Block) (v : BufView) : Prop where
  resting : Resting start size v
  unlocked : ∀ b, v.held b = none
  empty : getHead (disk start) = []
  sees : ∃ logged, v.sees = some ⟨disk, [], [], logged, []⟩

section Transactions

variable {start size : Nat} {t : Pid} {disk : Nat → Block} {v : BufView} {crashable : (Nat → Block) → Prop}

/-- What the process knows inside a transaction that has done these writes. -/
structure Writing (t : Pid) (disk : Nat → Block) (done : Writes) (c : Seen) : Prop where
  unwritten : c.disk = disk
  pinned : c.pinned = c.lh
  ops : c.ops = [t]
  content : c.content = applyWrites done disk

theorem applyWrites_append {xs ys : Writes} :
    applyWrites (xs ++ ys) disk = applyWrites ys (applyWrites xs disk) := by
  induction xs generalizing disk with
  | nil => rfl
  | cons w rest ih => exact ih

theorem Writing.logWrite {done : Writes} {c : Seen} {n : Nat} {d : Block} (h : Writing t disk done c) :
    Writing t disk (done ++ [(n, d)]) (c.logWrite n d) := by
  refine ⟨h.unwritten, ?_, h.ops, ?_⟩
  · simp only [Seen.logWrite, h.pinned]
  · rw [applyWrites_append, ← h.content]
    funext m
    by_cases same : m = n
    · subst same
      simp [Seen.content, Seen.logWrite, applyWrites, h.pinned]
      grind
    · simp [Seen.content, Seen.logWrite, applyWrites, h.pinned, same]
      grind

/-- After `commit` the disk holds the whole transaction and an empty header. -/
theorem Writing.commit {writes : Writes} {c : Seen} (h : Writing t disk writes c)
    (ok : HeaderOk start size c.lh) (empty : getHead (disk start) = []) :
    ∃ disk', { c with ops := c.ops.erase t }.commit start = ⟨disk', [], [], c.logged, []⟩ ∧
      getHead (disk' start) = [] ∧ SameHome start size disk' (applyWrites writes disk) := by
  have overlaid : overlay c.lh c.logged c.disk = applyWrites writes disk := by
    funext n
    rw [← h.content, overlay, Seen.content, h.pinned]
  have noOps : c.ops.erase t = [] := by simp [h.ops]
  rw [noOps, Seen.commit]
  by_cases none : c.lh = []
  · have unpinned : c.pinned = [] := h.pinned.trans none
    refine ⟨c.disk, by simp [none, unpinned], h.unwritten ▸ empty, ?_⟩
    rw [← overlaid, none]
    exact fun _ _ _ => by simp [overlay]
  · refine ⟨_, by rw [if_neg none], getHead_clear, ?_⟩
    rw [← overlaid]
    exact setHead_home.trans (replay_commitPoint ok)

theorem Writing.safe {writes : Writes} {c : Seen} (h : Writing t disk writes c)
    (ok : HeaderOk start size c.lh) (empty : getHead (disk start) = []) :
    CommitSafe (Recoverable start size disk (applyWrites writes disk)) start c.lh c.logged c.disk := by
  rw [h.unwritten]
  refine commitSafe_recoverable ok empty fun n _ _ => ?_
  rw [← h.content, overlay, Seen.content, h.pinned, h.unwritten]

/-- One write of a transaction. -/
theorem write_wp {Q : Unit → BufView → Prop} {c : Seen} {n : Nat} {d : Block} (op : 0 < v.op)
    (sees : v.sees = some c) (home : Home v.start v.size n) (h : Q () (v.see (c.logWrite n d))) :
    wp bufMachine (bufOutline true crashable) t (do
      let b ← bread n
      (BufAct.modify b d).run
      (BufAct.logWrite b).run
      brelse b) Q v := by
  refine wp_bind (bread_wp fun b old free key _ => ?_)
  refine wp_bind (modify_wp old false (by simp) (.inl op) ?_)
  rw [BufView.get_hold]
  refine wp_bind (logWrite_wp true (n := n) (d := d) op (by simp) (by simp) home ?_)
  rw [BufView.get_hold]
  have after : { v.get b n d false with sees := (v.get b n d true).sees.map fun c => c.logWrite n d } =
      (v.see (c.logWrite n d)).get b n d false := by
    rw [← BufView.get_see, BufView.see]
    simp [sees]
  rw [after]
  refine brelse_wp true (d := d) (by simp) (by simp) ?_
  rw [BufView.get_release (by simp [free]) (by simp [key])]
  exact h

theorem transaction_wp {writes : Writes} (settled : Settled start size disk v)
    (home : ∀ w ∈ writes, Home start size w.1) :
    wp bufMachine (bufOutline true (Recoverable start size disk (applyWrites writes disk))) t
      (transaction start writes) (fun _ v => ∃ disk', Settled start size disk' v ∧
        SameHome start size disk' (applyWrites writes disk)) v := by
  obtain ⟨rest, unlocked, empty, logged, sees⟩ := settled
  obtain ⟨rfl, rfl⟩ := rest.area
  refine wp_bind (beginOp_wp rest.owner (wp_bind (wp_mono ?_ (wp_forEach
    (J := fun todo v' => ∃ done c, writes = done ++ todo ∧ Writing t disk done c ∧
      v' = { v with op := v.op + 1, sees := some c }) ?_ ?_))))
  · rintro _ _ ⟨done, c, rfl, writing, rfl⟩
    rw [List.append_nil] at *
    refine endOp_wp (v := { v with op := v.op + 1, sees := some c }) rest.recovering (Nat.succ_pos _)
      rest.owner (by simp [unlocked]) ?_ ?_
    · rintro c' ok - same
      obtain rfl := same c rfl
      exact writing.safe ok empty
    · rintro last c' ok - lastIff same
      obtain rfl := same c rfl
      obtain ⟨disk', committed, empty', contents⟩ := writing.commit ok empty
      have last : last = true := lastIff.mpr (by simp [writing.ops])
      rw [if_pos last, if_pos rfl, committed]
      exact ⟨disk', ⟨rest.congr ⟨rfl, rfl, rfl, rfl, rfl⟩, unlocked, empty', c.logged, rfl⟩, contents⟩
  · rintro ⟨n, d⟩ todo v' ⟨done, c, rfl, writing, rfl⟩
    refine write_wp (v := { v with op := v.op + 1, sees := some c }) (Nat.succ_pos _) rfl
      (home (n, d) (by simp)) ⟨done ++ [(n, d)], c.logWrite n d, by simp, writing.logWrite, rfl⟩
  · refine ⟨[], ⟨disk, [], [], logged, [t]⟩, rfl, ⟨rfl, rfl, rfl, ?_⟩, by simp [sees]⟩
    funext n
    simp [Seen.content, applyWrites]

/-- A recovery keeps, at every step, what the disk recovers to. -/
theorem boot_wp {target : Nat → Block} (recoverable : Recoverable start size target target disk) :
    wp bufMachine (bufOutline true (Recoverable start size target target)) t (initlog start)
      (fun _ v => ∃ disk', Settled start size disk' v ∧ SameHome start size disk' target)
      ((LogState.boot start size t disk).view true t) := by
  have same : SameHome start size (Redo.replay start (getHead (disk start)) disk) target :=
    recoverable.contents.elim id id
  refine initlog_wp (v := (LogState.boot start size t disk).view true t)
    (c := (LogState.boot start size t disk).seen) ?_ ?_ ?_ ?_ rfl recoverable.header
    (fun k bound => recoverable_install recoverable.header rfl bound same) (recoverable_cleared same) ?_
  rotate_left 4
  · exact ⟨_, ⟨⟨rfl, rfl, ⟨rfl, rfl⟩, by simp [LogState.view, LogState.boot]⟩,
      by simp [LogState.view, LogState.boot], getHead_clear, _, rfl⟩,
      setHead_home.trans same⟩
  all_goals simp [LogState.view, LogState.boot]

end Transactions

/-! ## Lives of a disk -/

/-- Steps of the one process that runs. -/
abbrev Runs (t : Pid) (p : BufProg Unit) (s : LogState) (p' : BufProg Unit) (s' : LogState) : Prop :=
  Relation.ReflTransGen (Alone bufMachine Scheduled t) (p, s) (p', s')

/-- Boots from a disk until `initlog` returns, each earlier boot crashing somewhere in it. -/
inductive Recovers (start size : Nat) (t : Pid) : (Nat → Block) → LogState → Prop
  | done {disk s} : Runs t (initlog start) (.boot start size t disk) (pure ()) s →
      Recovers start size t disk s
  | crash {disk p s s'} : Runs t (initlog start) (.boot start size t disk) p s →
      Recovers start size t s.disk s' → Recovers start size t disk s'

/-- A boot, then transactions, latest first, each marked whether its `end_op` has returned; a
crash between any two steps of a transaction is followed by a recovery. -/
inductive Life (start size : Nat) (t : Pid) (disk : Nat → Block) : List (Writes × Bool) → LogState → Prop
  | boot {s} : Recovers start size t disk s → Life start size t disk [] s
  | done {earlier s writes s'} : Life start size t disk earlier s → (∀ w ∈ writes, Home start size w.1) →
      Runs t (transaction start writes) s (pure ()) s' → Life start size t disk ((writes, true) :: earlier) s'
  | crash {earlier s writes p s' s''} : Life start size t disk earlier s →
      (∀ w ∈ writes, Home start size w.1) → Runs t (transaction start writes) s p s' →
      Recovers start size t s'.disk s'' → Life start size t disk ((writes, false) :: earlier) s''

/-- The home blocks hold every completed transaction, and each interrupted one either as a whole
or not at all. -/
def Survives (start size : Nat) (old : Nat → Block) : List (Writes × Bool) → (Nat → Block) → Prop
  | [], now => SameHome start size old now
  | (writes, completed) :: earlier, now => ∃ before, Survives start size old earlier before ∧
      (SameHome start size (applyWrites writes before) now ∨ completed = false ∧
        SameHome start size before now)

section Lives

variable {start size : Nat} {t : Pid} {disk : Nat → Block}

theorem Settled.disk_eq {s : LogState} (settled : Settled start size disk (s.view true t)) :
    s.disk = disk := by
  obtain ⟨logged, sees⟩ := settled.sees
  exact congrArg Seen.disk (LogState.view_sees sees).symm

/-- Recovery, crashes included, gives the home blocks what the disk recovers to. -/
theorem Recovers.settled {target : Nat → Block} {s : LogState} (run : Recovers start size t disk s)
    (recoverable : Recoverable start size target target disk) :
    BufInv s ∧ Settled start size s.disk (s.view true t) ∧ SameHome start size s.disk target := by
  induction run with
  | done run =>
    obtain ⟨inv, disk', settled, same⟩ :=
      alone_sound (P := bufOutline true (Recoverable start size target target))
        ⟨boot_inv, recoverable⟩ (boot_wp recoverable) run
    obtain rfl := settled.disk_eq
    exact ⟨inv.1, settled, same⟩
  | crash run _ ih =>
    obtain ⟨inv, _⟩ := alone_sound (P := bufOutline true (Recoverable start size target target))
        ⟨boot_inv, recoverable⟩ (boot_wp recoverable) run
    exact ih inv.2

theorem Recoverable.choose {old new : Nat → Block} (h : Recoverable start size old new disk) :
    Recoverable start size old old disk ∨ Recoverable start size new new disk :=
  h.contents.imp (fun same => ⟨h.header, .inl same⟩) fun same => ⟨h.header, .inl same⟩

/-- Crash atomicity. Whatever transactions ran and wherever the machine crashed, in `commit` or in
a recovery, after each recovery the header on disk is empty, every completed transaction is
installed and each interrupted one is there as a whole or not at all. -/
theorem crash_atomicity {txs : List (Writes × Bool)} {s : LogState}
    (header : HeaderOk start size (getHead (disk start))) (life : Life start size t disk txs s) :
    getHead (s.disk start) = [] ∧ Survives start size (recovered start disk) txs s.disk := by
  suffices BufInv s ∧ Settled start size s.disk (s.view true t) ∧
      Survives start size (recovered start disk) txs s.disk from ⟨this.2.1.empty, this.2.2⟩
  induction life with
  | boot run =>
    have recoverable : Recoverable start size (recovered start disk) (recovered start disk) disk :=
      ⟨header, .inl .refl⟩
    obtain ⟨inv, settled, same⟩ := run.settled recoverable
    exact ⟨inv, settled, same.symm⟩
  | @done earlier s writes s' _ home run ih =>
    obtain ⟨inv, settled, survives⟩ := ih
    obtain ⟨inv', disk', settled', same⟩ :=
      alone_sound (s := s) (P := bufOutline true (Recoverable start size s.disk (applyWrites writes s.disk)))
        ⟨inv, recoverable_of_empty settled.empty .refl⟩ (transaction_wp settled home) run
    obtain rfl := settled'.disk_eq
    exact ⟨inv'.1, settled', s.disk, survives, .inl same.symm⟩
  | @crash earlier s writes p s' s'' _ home run recovery ih =>
    obtain ⟨inv, settled, survives⟩ := ih
    obtain ⟨inv', _⟩ :=
      alone_sound (s := s) (P := bufOutline true (Recoverable start size s.disk (applyWrites writes s.disk)))
        ⟨inv, recoverable_of_empty settled.empty .refl⟩ (transaction_wp settled home) run
    rcases inv'.2.choose with old | new
    · obtain ⟨inv'', settled'', same⟩ := recovery.settled old
      exact ⟨inv'', settled'', s.disk, survives, .inr ⟨rfl, same.symm⟩⟩
    · obtain ⟨inv'', settled'', same⟩ := recovery.settled new
      exact ⟨inv'', settled'', s.disk, survives, .inl same.symm⟩

end Lives

def oneWrite : Writes := [(46, fun _ => 1)]

/-- The state after a number of steps alone, if the code has then returned. -/
def runToEnd (n : Nat) (p : BufProg Unit) (s : LogState) : Option LogState :=
  match exec bufMachine Scheduled 0 (fun _ => ()) n (p, s) with
  | some (.ret (), s') => some s'
  | _ => none

theorem runToEnd_runs {n : Nat} {p : BufProg Unit} {s s' : LogState} (run : runToEnd n p s = some s') :
    Runs 0 p s (pure ()) s' := by
  unfold runToEnd at run
  split at run
  next eq => cases run; exact exec_alone eq
  next => cases run

/-- A boot, a transaction that crashes right after the header is written, and the recovery: the
transaction is there as a whole. -/
theorem crash_atomicity_interrupted : ∃ s : LogState, s.disk 46 0 = 1 ∧ getHead (s.disk 2) = [] ∧
    Survives 2 30 (recovered 2 emptyDisk) [(oneWrite, false)] s.disk := by
  obtain ⟨s, run, wrote⟩ := Option.map_eq_some_iff.mp
    (show ((runToEnd 19 (initlog 2) (.boot 2 30 0 emptyDisk)).bind fun s =>
      (exec bufMachine Scheduled 0 (fun _ => ()) 32 (transaction 2 oneWrite, s)).bind fun x =>
        runToEnd 33 (initlog 2) (.boot 2 30 0 x.2.disk)).map (fun s => s.disk 46 0) = some 1 by
      decide +kernel)
  obtain ⟨s₁, boot, run⟩ := Option.bind_eq_some_iff.mp run
  obtain ⟨⟨p, s₂⟩, crash, recovery⟩ := Option.bind_eq_some_iff.mp run
  have home : ∀ w ∈ oneWrite, Home 2 30 w.1 := by simp [oneWrite, Home]
  have life : Life 2 30 0 emptyDisk [(oneWrite, false)] s :=
    .crash (.boot (.done (runToEnd_runs boot))) home (exec_alone crash) (.done (runToEnd_runs recovery))
  exact ⟨s, wrote, crash_atomicity emptyDisk_header life⟩

end Xv6
