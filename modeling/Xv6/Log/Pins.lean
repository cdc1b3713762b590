import Xv6.Log.Commit
import Mathlib.Data.Fin.Basic
import Mathlib.Data.List.FinRange

namespace Xv6
open Threads

/-- The machine when process `t` calls `initlog` on a disk: `binit` has run, and a superblock
names the log area. -/
def LogState.boot (start size : Nat) (t : Pid) (disk : Nat → Block) : LogState where
  disk
  buf _ := ⟨false, 0, 0, none, 0, fun _ => 0⟩
  ring := (List.finRange NBUF).reverse
  log := ⟨start, size, 0, false, []⟩
  users _ := []
  ops := []
  owner := some t
  recovering := true
  pinned := []
  dirty _ := false
  logged _ _ := 0

/-- What a process may ask of the cache and the log. -/
inductive CacheCall where
  | bread (blockno : Nat)
  | brelse (b : BufId)
  | modify (b : BufId) (data : Block)
  | logWrite (b : BufId)
  | beginOp
  | endOp

/-- Buffers are used under their lock. A holder modifies a buffer inside its transaction only
and calls `log_write` on it, on a block outside the log area, before it gives it back and before
the transaction ends. -/
def CacheCall.Legal (t : Pid) (s : LogState) : CacheCall → Prop
  | .bread _ => True
  | .brelse b => (s.buf b).locked = some t ∧ s.dirty b = false
  | .modify b _ => (s.buf b).locked = some t ∧ t ∈ s.ops
  | .logWrite b => (s.buf b).locked = some t ∧ t ∈ s.ops ∧ Home s.log.start s.log.size (s.buf b).blockno
  | .beginOp => True
  | .endOp => t ∈ s.ops ∧ ∀ b, (s.buf b).locked = some t → s.dirty b = false

instance (t : Pid) (s : LogState) : (k : CacheCall) → Decidable (k.Legal t s)
  | .bread _ | .beginOp => inferInstanceAs (Decidable True)
  | .brelse _ | .modify .. | .logWrite _ | .endOp => inferInstanceAs (Decidable (_ ∧ _))

def cacheCalls (start : Nat) : Calls Pid LogState CacheCall BufAct BufAct.Resp where
  code
    | .bread blockno => do let _ ← Xv6.bread blockno
    | .brelse b => Xv6.brelse b
    | .modify b data => (BufAct.modify b data).run
    | .logWrite b => (BufAct.logWrite b).run
    | .beginOp => BufAct.beginOp.run
    | .endOp => Xv6.endOp start
  legal := CacheCall.Legal

instance (start : Nat) (t : Pid) (s : LogState) (k : CacheCall) :
    Decidable ((cacheCalls start).legal t s k) := inferInstanceAs (Decidable (k.Legal t s))

/-- The system at boot: process `t` runs `initlog`. -/
def cacheStart (start size : Nat) (t : Pid) (disk : Nat → Block) :
    Config Pid LogState BufAct BufAct.Resp where
  shared := .boot start size t disk
  code := Function.update (fun _ => pure ()) t (initlog start)

/-- The runs of the system: any number of processes, in any interleaving. -/
abbrev CacheReach (start size : Nat) (t : Pid) (disk : Nat → Block) :
    Config Pid LogState BufAct BufAct.Resp → Prop :=
  Reach bufMachine Scheduled (cacheCalls start) (cacheStart start size t disk)

/-- A process between two calls. -/
structure Resting (start size : Nat) (v : BufView) : Prop where
  owner : v.owner = false
  recovering : v.recovering = false
  area : v.start = start ∧ v.size = size
  valid : ∀ b x, v.held b = some x → x.1 = true

section Runs

variable {start size : Nat} {t : Pid} {disk : Nat → Block}

theorem boot_inv : BufInv (.boot start size t disk) where
  header := headerOk_nil
  pinned := List.nil_suffix
  installed := by simp [LogState.boot]
  outstanding := rfl
  committing := rfl
  booting := by simp [LogState.boot]
  quiet := by simp [LogState.boot]
  waiting := by simp [LogState.boot]
  ring b := by simp [LogState.boot]
  unique b b' := by simp [LogState.boot, ROOTDEV]
  refs b := by simp [LogState.boot]
  device b t := by simp [LogState.boot]
  locker b t := by simp [LogState.boot]
  cached n := by simp [LogState.boot]
  coherent b := by simp [LogState.boot]
  dirtyLocked b := by simp [LogState.boot]

abbrev cacheOutline : Outline Pid LogState BufView BufAct := bufOutline false fun _ => True

theorem Resting.hold {v : BufView} {b : BufId} {x : Option (Bool × Block × Bool)}
    (rest : Resting start size v) (valid : ∀ y, x = some y → y.1 = true) :
    Resting start size (v.hold b x) := by
  refine ⟨rest.owner, rest.recovering, rest.area, fun c y held => ?_⟩
  by_cases atC : c = b
  · subst atC
    exact valid y (by simpa [BufView.hold, Handles.hold] using held)
  · exact rest.valid c y (by simpa [BufView.hold, Handles.hold, atC] using held)

/-- Only the locks, the role in the log and the log area matter. -/
theorem Resting.congr {v v' : BufView} (rest : Resting start size v)
    (same : v'.owner = v.owner ∧ v'.recovering = v.recovering ∧ v'.start = v.start ∧ v'.size = v.size ∧
      v'.held = v.held) : Resting start size v' := by
  obtain ⟨owner, recovering, area, valid⟩ := rest
  obtain ⟨sameOwner, sameMode, sameStart, sameSize, sameHeld⟩ := same
  exact ⟨sameOwner.trans owner, sameMode.trans recovering,
    ⟨sameStart.trans area.1, sameSize.trans area.2⟩, sameHeld ▸ valid⟩

/-- A buffer that a resting process has locked. -/
theorem Resting.locked {s : LogState} {b : BufId} (inv : BufInv s)
    (rest : Resting start size (s.view false t)) (locked : (s.buf b).locked = some t) :
    (s.view false t).held b = some (true, (s.buf b).data, s.dirty b) ∧
      (s.view false t).key b = some (s.buf b).blockno ∧ 0 < (s.view false t).mine b := by
  have mine := inv.locker b t locked
  have held : (s.view false t).held b = some ((s.buf b).valid, (s.buf b).data, s.dirty b) := by
    simp [LogState.view, locked]
  have valid : (s.buf b).valid = true := rest.valid b _ held
  exact ⟨valid ▸ held, by simp [LogState.view, mine], LogState.view_mine_pos.mpr mine⟩

theorem resting_call {s : LogState} {k : CacheCall} (inv : BufInv s)
    (rest : Resting start size (s.view false t)) (legal : k.Legal t s) :
    wp bufMachine cacheOutline t ((cacheCalls start).code k) (fun _ => Resting start size)
      (s.view false t) := by
  cases k with
  | bread blockno =>
    refine wp_bind (bread_wp fun b d _ _ _ => ?_)
    have taken : Resting start size ((s.view false t).take b blockno) :=
      rest.congr ⟨rfl, rfl, rfl, rfl, rfl⟩
    exact taken.hold (by rintro _ ⟨⟩; rfl)
  | brelse b =>
    obtain ⟨locked, clean⟩ := legal
    obtain ⟨held, _, mine⟩ := rest.locked inv locked
    rw [clean] at held
    exact brelse_wp true mine held ((rest.hold (x := none) (by simp)).congr ⟨rfl, rfl, rfl, rfl, rfl⟩)
  | modify b data =>
    obtain ⟨locked, inside⟩ := legal
    obtain ⟨held, _, _⟩ := rest.locked inv locked
    exact modify_wp _ _ held (.inl (List.count_pos_iff.mpr inside)) (rest.hold (by rintro _ ⟨⟩; rfl))
  | logWrite b =>
    obtain ⟨locked, inside, home⟩ := legal
    obtain ⟨held, key, _⟩ := rest.locked inv locked
    refine logWrite_wp _ (List.count_pos_iff.mpr inside) held key home ?_
    exact (rest.hold (b := b) (x := some (true, (s.buf b).data, false)) (by rintro _ ⟨⟩; rfl)).congr
      ⟨rfl, rfl, rfl, rfl, rfl⟩
  | beginOp => exact beginOp_wp rest.owner (rest.congr ⟨rfl, rfl, rfl, rfl, rfl⟩)
  | endOp =>
    obtain ⟨inside, clean⟩ := legal
    have noDirty : ∀ b valid d, (s.view false t).held b ≠ some (valid, d, true) := fun b valid d held => by
      obtain ⟨locked, same⟩ := LogState.view_held held
      simp [clean b locked] at same
    obtain ⟨rfl, _⟩ := rest.area
    exact endOp_wp rest.recovering (List.count_pos_iff.mpr inside) rest.owner noDirty
      (fun _ _ _ _ => ⟨fun _ _ => trivial, fun _ _ => trivial, trivial⟩)
      fun _ _ _ _ _ _ => rest.congr ⟨rfl, rfl, rfl, rfl, rfl⟩

theorem bufOutline_isolated {crashable : (Nat → Block) → Prop} : (bufOutline false crashable).Isolated :=
  fun _ _ _ guar other different => guar rfl other different

/-- The invariant of the cache and the log holds in every interleaving. -/
theorem cacheReach_holds {x : Config Pid LogState BufAct BufAct.Resp}
    (ok : HeaderOk start size (getHead (disk start))) (run : CacheReach start size t disk x) :
    cacheOutline.Holds bufMachine (fun _ => Resting start size) x := by
  refine Outline.Holds.reach bufOutline_isolated (fun u s k inv rest legal => resting_call inv.1 rest legal)
    ⟨⟨boot_inv, trivial⟩, fun u => ?_⟩ run
  by_cases same : u = t
  · subst same
    simp only [cacheStart, Function.update_self]
    refine initlog_wp (v := (LogState.boot start size u disk).view false u)
      (c := (LogState.boot start size u disk).seen) ?_ ?_ ?_ ?_ rfl ok (fun _ _ => trivial) trivial
      ⟨rfl, rfl, ⟨rfl, rfl⟩, ?_⟩
    all_goals simp [LogState.view, LogState.boot]
  · simp only [cacheStart, Function.update_of_ne same]
    refine ⟨?_, ?_, ⟨rfl, rfl⟩, ?_⟩
    all_goals simp [bufOutline, LogState.view, LogState.boot, Ne.symm same]

/-- A buffer stands for a block. -/
def LogState.Caches (s : LogState) (b : BufId) (n : Nat) : Prop :=
  (s.buf b).dev = ROOTDEV ∧ (s.buf b).blockno = n

/-- Exactly one buffer caches the block, it is valid, it is referred to, and `bget` does not
recycle it. -/
def LogState.Kept (s : LogState) (n : Nat) : Prop :=
  ∃ b, s.Caches b n ∧ (s.buf b).valid = true ∧ 1 ≤ (s.buf b).refcnt ∧ s.lru ≠ some b ∧
    ∀ b', s.Caches b' n → b' = b

theorem BufInv.kept {s : LogState} {n : Nat} (inv : BufInv s) (pinned : n ∈ s.pinned) : s.Kept n := by
  obtain ⟨b, dev, rfl, valid⟩ := inv.cached n pinned
  have refs := inv.refs b
  rw [if_pos ⟨dev, pinned⟩] at refs
  refine ⟨b, ⟨dev, rfl⟩, valid, by omega, fun recycled => ?_, fun b' same => ?_⟩
  · have := LogState.lru_some recycled
    omega
  · exact inv.unique b' b same.1 dev same.2

theorem BufInv.refcnt_of_empty {s : LogState} (inv : BufInv s) (empty : s.log.lh = []) (b : BufId) :
    (s.buf b).refcnt = (s.users b).length := by
  have unpinned : s.pinned = [] := List.suffix_nil.mp (empty ▸ inv.pinned)
  simp [inv.refs b, unpinned]

/-- A logged block is kept in the cache until `install_trans` has written its logged bytes home
and unpinned it; `write_log` copies the bytes of the last `log_write`; a pin is counted once and is
gone when `commit` finishes. -/
theorem logged_kept_until_installed {x : Config Pid LogState BufAct BufAct.Resp}
    (ok : HeaderOk start size (getHead (disk start))) (run : CacheReach start size t disk x) :
    x.shared.log.lh.Nodup ∧
    (x.shared.recovering = false → ∀ n ∈ x.shared.log.lh,
      n ∈ x.shared.pinned ∧ x.shared.Kept n ∨
      n ∉ x.shared.pinned ∧ x.shared.disk n = x.shared.logged n ∧ ∃ u, x.shared.owner = some u) ∧
    (x.shared.owner = none → x.shared.pinned = x.shared.log.lh) ∧
    (∀ b, (x.shared.buf b).refcnt = (x.shared.users b).length +
      if (x.shared.buf b).dev = ROOTDEV ∧ (x.shared.buf b).blockno ∈ x.shared.pinned then 1 else 0) ∧
    (∀ u b next, x.code u = .act (.bwrite b) next → x.shared.owner = some u ∧
      (x.shared.recovering = false → ∀ tail n, (x.shared.buf b).blockno = x.shared.log.start + tail + 1 →
        x.shared.log.lh[tail]? = some n → (x.shared.buf b).data = x.shared.logged n)) ∧
    ∀ u next, x.code u = .act .endCommit next →
      x.shared.log.lh = [] ∧ ∀ b, (x.shared.buf b).refcnt = (x.shared.users b).length := by
  have holds := cacheReach_holds ok run
  have inv : BufInv x.shared := holds.inv.1
  refine ⟨inv.header.nodup, fun booted n member => ?_, inv.waiting, inv.refs,
    fun u b next atBwrite => holds.owes atBwrite, fun u next atEnd => ?_⟩
  · by_cases pinned : n ∈ x.shared.pinned
    · exact .inl ⟨pinned, inv.kept pinned⟩
    · refine .inr ⟨pinned, inv.installed booted n member pinned, ?_⟩
      exact Option.ne_none_iff_exists'.mp fun free => pinned (inv.waiting free ▸ member)
  · have empty := (holds.owes atEnd).2
    exact ⟨empty, inv.refcnt_of_empty empty⟩

end Runs

def emptyDisk : Nat → Block := fun _ _ => 0

theorem emptyDisk_header : HeaderOk 2 30 (getHead (emptyDisk 2)) := by
  have none : getHead (emptyDisk 2) = [] := by decide +kernel
  rw [none]
  exact headerOk_nil

/-- A transaction on one block up to the last `brelse` of `install_trans`. -/
def oneInstalled : List (Move Pid Unit CacheCall) :=
  let steps (n : Nat) : List (Move Pid Unit CacheCall) := List.replicate n (.act 0 ())
  let b : BufId := ⟨1, by decide⟩
  steps 19 ++ [.call 0 .beginOp] ++ steps 1 ++ [.call 0 (.bread 46)] ++ steps 3 ++
    [.call 0 (.modify b fun _ => 1)] ++ steps 1 ++ [.call 0 (.logWrite b)] ++ steps 1 ++
    [.call 0 (.brelse b)] ++ steps 2 ++ [.call 0 .endOp] ++ steps 42

/-- A block may leave the cache while `log.lh` still lists it: `install_trans` unpins it before
`commit` resets `log.lh.n`. -/
theorem logged_block_recyclable : ∃ x, CacheReach 2 30 0 emptyDisk x ∧ x.shared.recovering = false ∧
    ∃ n ∈ x.shared.log.lh, ¬ x.shared.Kept n := by
  obtain ⟨x, run, facts⟩ := Option.map_eq_some_iff.mp
    (show (drive bufMachine Scheduled (cacheCalls 2) oneInstalled (cacheStart 2 30 0 emptyDisk)).map
      (fun x => (x.shared.recovering, x.shared.log.lh,
        decide (∀ b, (x.shared.buf b).blockno = 46 → (x.shared.buf b).refcnt = 0))) =
      some (false, [46], true) by decide +kernel)
  obtain ⟨booted, lh, free⟩ := by simpa using facts
  refine ⟨x, drive_reach run, booted, 46, by simp [lh], ?_⟩
  rintro ⟨b, ⟨_, blockno⟩, _, refcnt, _⟩
  have := free b blockno
  omega

theorem oneInstalled_unpinned : ∃ x, CacheReach 2 30 0 emptyDisk x ∧ x.shared.log.lh = [46] ∧
    x.shared.disk 46 = x.shared.logged 46 := by
  obtain ⟨x, run, facts⟩ := Option.map_eq_some_iff.mp
    (show (drive bufMachine Scheduled (cacheCalls 2) oneInstalled (cacheStart 2 30 0 emptyDisk)).map
      (fun x => (x.shared.recovering, x.shared.log.lh, x.shared.pinned)) = some (false, [46], []) by
      decide +kernel)
  obtain ⟨booted, lh, pinned⟩ := by simpa using facts
  refine ⟨x, drive_reach run, lh, ?_⟩
  rcases (logged_kept_until_installed emptyDisk_header (drive_reach run)).2.1 booted 46 (by simp [lh])
    with ⟨member, _⟩ | ⟨_, installed, _⟩
  · simp [pinned] at member
  · exact installed

end Xv6
