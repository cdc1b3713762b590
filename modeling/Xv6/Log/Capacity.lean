import Xv6.Log.Holders

namespace Xv6
open Threads

/-- The blocks that a process has in its hands or that wait in the log. -/
def LogState.inUse (s : LogState) : Finset Nat :=
  (Finset.univ.filter fun b => s.users b ≠ []).image (fun b => (s.buf b).blockno) ∪ s.pinned.toFinset

/-- The buffers that a process has in its hands. -/
def LogState.hold (s : LogState) (t : Pid) : Finset BufId := Finset.univ.filter fun b => t ∈ s.users b

/-- The processes that hold a buffer, are in no operation and do not commit. -/
def LogState.readers (s : LogState) : Finset Pid :=
  (Finset.univ.biUnion fun b => (s.users b).toFinset).filter fun t => t ∉ s.ops ∧ s.owner ≠ some t

/-- The readers, the buffers of the operations and of the commit, and the blocks that wait in the log. -/
def LogState.holders (s : LogState) : Nat :=
  s.readers.card + ∑ t ∈ s.ops.toFinset, (s.hold t).card + ∑ t ∈ s.owner.toFinset,
    (s.hold t).card + s.pinned.length

/-- A `bget` for a block in use, or while fewer blocks are in use than there are buffers. -/
def Roomy (a : BufAct) (s : LogState) : Prop :=
  match a with
  | .bget dev blockno => dev = ROOTDEV ∧ blockno ∈ s.inUse ∨ s.inUse.card < NBUF
  | _ => True

instance (a : BufAct) (s : LogState) : Decidable (Roomy a s) :=
  match a with
  | .bget .. => inferInstanceAs (Decidable (_ ∨ _))
  | .acquiresleep _ | .fill _ | .data _ | .modify .. | .bwrite _ | .releasesleep _ | .unref _ | .bunpin _ | .beginOp
  | .logWrite _ | .endOp | .lh | .setLh _ | .endCommit | .ready => inferInstanceAs (Decidable True)

section Capacity

variable {s : LogState} {b : BufId} {start size dev n : Nat} {t : Pid} {disk : Nat → Block}

theorem BufInv.inUse_of_busy (inv : BufInv s) (busy : (s.buf b).refcnt ≠ 0) :
    (s.buf b).dev = ROOTDEV ∧ (s.buf b).blockno ∈ s.inUse := by
  have refs := inv.refs b
  by_cases users : s.users b = []
  · rw [users, List.length_nil, Nat.zero_add] at refs
    split at refs
    · next waiting =>
      exact ⟨waiting.1, Finset.mem_union_right _ (List.mem_toFinset.mpr waiting.2)⟩
    · exact absurd refs busy
  · obtain ⟨u, mine⟩ := List.exists_mem_of_ne_nil _ users
    refine ⟨inv.device b u mine, Finset.mem_union_left _ (Finset.mem_image.mpr ⟨b, ?_, rfl⟩)⟩
    simpa using users

theorem BufInv.busy_of_inUse (inv : BufInv s) (used : n ∈ s.inUse) :
    ∃ b, (s.buf b).dev = ROOTDEV ∧ (s.buf b).blockno = n ∧ (s.buf b).refcnt ≠ 0 := by
  rcases Finset.mem_union.mp used with held | waiting
  · obtain ⟨b, users, rfl⟩ := Finset.mem_image.mp held
    have users : s.users b ≠ [] := by simpa using users
    obtain ⟨u, mine⟩ := List.exists_mem_of_ne_nil _ users
    have length := List.length_pos_of_mem mine
    have refs := inv.refs b
    exact ⟨b, inv.device b u mine, rfl, by omega⟩
  · have pinned : n ∈ s.pinned := List.mem_toFinset.mp waiting
    obtain ⟨b, dev, rfl, _⟩ := inv.cached n pinned
    have refs := inv.refs b
    rw [if_pos ⟨dev, pinned⟩] at refs
    exact ⟨b, dev, rfl, by omega⟩

/-- Every buffer is busy exactly when as many blocks are in use as there are buffers. -/
theorem BufInv.all_busy_iff (inv : BufInv s) : (∀ b, (s.buf b).refcnt ≠ 0) ↔ NBUF ≤ s.inUse.card := by
  constructor
  · intro busy
    have image : Finset.univ.image (fun b => (s.buf b).blockno) ⊆ s.inUse := by
      intro m member
      obtain ⟨b, _, rfl⟩ := Finset.mem_image.mp member
      exact (inv.inUse_of_busy (busy b)).2
    have injective : Function.Injective fun b => (s.buf b).blockno := fun b b' same =>
      inv.unique b b' (inv.inUse_of_busy (busy b)).1 (inv.inUse_of_busy (busy b')).1 same
    calc NBUF = (Finset.univ.image fun b => (s.buf b).blockno).card := by
          rw [Finset.card_image_of_injective _ injective, Finset.card_univ, Fintype.card_fin]
      _ ≤ s.inUse.card := Finset.card_le_card image
  · intro full b free
    have image : s.inUse ⊆ (Finset.univ.erase b).image fun b => (s.buf b).blockno := by
      intro m member
      obtain ⟨b', _, rfl, busy⟩ := inv.busy_of_inUse member
      refine Finset.mem_image.mpr ⟨b', Finset.mem_erase.mpr ⟨?_, Finset.mem_univ _⟩, rfl⟩
      rintro rfl
      exact busy free
    have few := (Finset.card_le_card image).trans Finset.card_image_le
    rw [Finset.card_erase_of_mem (Finset.mem_univ _), Finset.card_univ, Fintype.card_fin] at few
    have : 0 < NBUF := by decide
    omega

theorem LogState.lru_none_iff (ring : ∀ b, b ∈ s.ring) : s.lru = none ↔ ∀ b, (s.buf b).refcnt ≠ 0 := by
  unfold LogState.lru
  rw [List.find?_eq_none]
  constructor
  · intro none b
    simpa using none b (List.mem_reverse.mpr (ring b))
  · intro busy b _
    simpa using busy b

/-- `bget` stops the machine exactly when every buffer is in use for another block. -/
theorem BufInv.bget_panics_iff (inv : BufInv s) :
    s.bget t dev n = .panic "bget: no buffers" ↔
      ¬ (dev = ROOTDEV ∧ n ∈ s.inUse) ∧ NBUF ≤ s.inUse.card := by
  rw [← inv.all_busy_iff]
  unfold LogState.bget
  cases found : s.lookup dev n with
  | some b =>
    obtain ⟨rfl, rfl⟩ := LogState.lookup_some found
    simp only [reduceCtorEq, false_iff]
    rintro ⟨unused, busy⟩
    exact unused (inv.inUse_of_busy (busy b))
  | none =>
    have absent := LogState.lookup_none inv.ring found
    have unused : ¬ (dev = ROOTDEV ∧ n ∈ s.inUse) := by
      rintro ⟨rfl, used⟩
      obtain ⟨b, dev, rfl, _⟩ := inv.busy_of_inUse used
      exact absent b ⟨dev, rfl⟩
    rw [← LogState.lru_none_iff inv.ring]
    cases victim : s.lru with
    | some b => simp
    | none => simpa using unused

theorem fileread_wp {v : BufView} (blocks : List Nat) (rest : Resting start size v) :
    wp bufMachine cacheOutline t (fileread blocks) (fun _ => Resting start size) v := by
  refine wp_forEach (J := fun _ => Resting start size) (fun blockno _ w rest => ?_) rest
  refine wp_bind (bread_wp fun b d free _ _ => ?_)
  refine wp_bind (data_wp true false Handles.get_held ?_)
  refine brelse_wp (d := d) true (by simp [BufView.get]) Handles.get_held ?_
  have taken : Resting start size (w.take b blockno) := rest.congr ⟨rfl, rfl, rfl, rfl, rfl⟩
  exact (taken.hold (b := b) (x := none) (by simp)).congr
    ⟨rfl, rfl, rfl, rfl, by simp [BufView.release, BufView.get, BufView.hold, BufView.take, Handles.release,
      Handles.get, Handles.hold, Handles.drop, Handles.take]⟩

theorem fileReach_holds {x : Config Pid LogState BufAct BufAct.Resp}
    (ok : HeaderOk start size (getHead (disk start)))
    (run : FileReach start size t disk x) :
    cacheOutline.Holds bufMachine (fun _ => Resting start size) x := by
  refine Outline.Holds.reach bufOutline_isolated (fun u s k inv rest legal => ?_)
    (cacheReach_holds ok .refl) run
  cases k with
  | fileread blocks => exact fileread_wp blocks rest
  | op k => exact resting_call inv.1 rest legal.2.1

/-- In every interleaving a process holds at most as many buffers outside of operations as its limit says. -/
theorem fileReach_bounded {x : Config Pid LogState BufAct BufAct.Resp}
    (ok : HeaderOk start size (getHead (disk start)))
    (run : FileReach start size t disk x) : ∀ u, (x.shared.grip u).Bounded := by
  have sound : Reach bufMachine gripOutline.allowed (fileCalls start) (cacheStart start size t disk) x :=
    Reach.strengthen (fun _ sofar => (fileReach_holds ok sofar).inv.1) run
  have boot : gripOutline.Holds bufMachine (fun _ => Loose) (cacheStart start size t disk) := by
    refine ⟨fun u none => ?_, fun u => ?_⟩
    · exact (Grip.sum_zero (g := (LogState.boot start size t disk).grip u) fun _ =>
        rfl).trans_le (Nat.zero_le _)
    · by_cases same : u = t
      · subst same
        simp only [cacheStart, Function.update_self]
        exact initlog_grip ⟨decide_eq_true rfl, fun _ => rfl⟩
      · simp only [cacheStart, Function.update_of_ne same]
        exact ⟨decide_eq_false fun mine => same (Option.some.inj mine).symm, fun _ _ => rfl⟩
  exact (Outline.Holds.reach gripOutline_isolated (fun u s k _ rest legal =>
    fileCall_grip rest legal) boot sound).inv

theorem LogState.hold_card_le (s : LogState) (u : Pid) : (s.hold u).card ≤ ∑ b, (s.grip u).mine b := by
  rw [LogState.hold, Finset.card_filter]
  refine Finset.sum_le_sum fun b _ => ?_
  split
  · next held => exact List.count_pos_iff.mpr held
  · exact Nat.zero_le _

theorem LogState.mem_readers {u : Pid} : u ∈ s.readers ↔ (∃ b, u ∈ s.users b) ∧ u ∉ s.ops ∧
    s.owner ≠ some u := by
  simp [LogState.readers]

/-- A reader holds one buffer. -/
theorem LogState.reader_hold_le {u : Pid} (bounded : (s.grip u).Bounded) (reader : u ∈ s.readers) :
    (s.hold u).card ≤ 1 := by
  obtain ⟨-, outside, other⟩ := LogState.mem_readers.mp reader
  refine (s.hold_card_le u).trans ((bounded (List.count_eq_zero.mpr outside)).trans ?_)
  rw [Grip.limit, if_neg (by simpa [LogState.grip] using other)]

/-- The commit holds at most two buffers. -/
theorem BufInv.owner_hold_le {u : Pid} (inv : BufInv s) (bounded : (s.grip u).Bounded)
    (owner : s.owner = some u) :
    (s.hold u).card ≤ 2 := by
  have outside : u ∉ s.ops := by
    rw [inv.quiet (owner ▸ Option.some_ne_none u)]
    exact List.not_mem_nil
  refine (s.hold_card_le u).trans ((bounded (List.count_eq_zero.mpr outside)).trans ?_)
  unfold Grip.limit
  split <;> decide

/-- Every buffer in use is in the hands of a reader, of an operation or of the commit, or waits in the log. -/
theorem LogState.inUse_le_holders (readers : ∀ u ∈ s.readers, (s.hold u).card ≤ 1) :
    s.inUse.card ≤ s.holders := by
  have cover : (Finset.univ.filter fun b => s.users b ≠ []) ⊆
      s.readers.biUnion s.hold ∪ s.ops.toFinset.biUnion s.hold ∪ s.owner.toFinset.biUnion s.hold := by
    intro b used
    obtain ⟨u, mine⟩ := List.exists_mem_of_ne_nil _ (Finset.mem_filter.mp used).2
    have held : b ∈ s.hold u := Finset.mem_filter.mpr ⟨Finset.mem_univ b, mine⟩
    by_cases op : u ∈ s.ops
    · exact Finset.mem_union_left _
        (Finset.mem_union_right _ (Finset.mem_biUnion.mpr ⟨u, List.mem_toFinset.mpr op, held⟩))
    · by_cases owner : s.owner = some u
      · exact Finset.mem_union_right _ (Finset.mem_biUnion.mpr ⟨u, Option.mem_toFinset.mpr owner, held⟩)
      · have reader : u ∈ s.readers := LogState.mem_readers.mpr ⟨⟨b, mine⟩, op, owner⟩
        exact Finset.mem_union_left _ (Finset.mem_union_left _ (Finset.mem_biUnion.mpr ⟨u, reader, held⟩))
  have reading : (s.readers.biUnion s.hold).card ≤ s.readers.card :=
    calc _ ≤ s.readers.card * 1 := Finset.card_biUnion_le_card_mul _ _ 1 readers
      _ = s.readers.card := Nat.mul_one _
  calc s.inUse.card ≤ (Finset.univ.filter fun b => s.users b ≠ []).card + s.pinned.length :=
        (Finset.card_union_le ..).trans (Nat.add_le_add Finset.card_image_le s.pinned.toFinset_card_le)
    _ ≤ _ + s.pinned.length := Nat.add_le_add_right (Finset.card_le_card cover) _
    _ ≤ s.holders := Nat.add_le_add_right ((Finset.card_union_le ..).trans (Nat.add_le_add
        ((Finset.card_union_le ..).trans (Nat.add_le_add reading Finset.card_biUnion_le))
        Finset.card_biUnion_le)) _

end Capacity

/-- Only a dry cache stops `bget`. -/
theorem bget_stops {s : LogState} {u : Pid} {a : BufAct}
    (stop : bufMachine u () a s = .panic "bget: no buffers") :
    ∃ dev n, a = .bget dev n := by
  cases a with
  | bget dev n => exact ⟨dev, n, rfl⟩
  | acquiresleep b => simp only [bufMachine] at stop; split at stop <;> cases stop
  | bwrite b => simp only [bufMachine] at stop; split at stop <;> simp at stop
  | releasesleep b => simp only [bufMachine] at stop; split at stop <;> simp at stop
  | beginOp => simp only [bufMachine] at stop; split at stop <;> cases stop
  | logWrite b =>
    simp only [bufMachine] at stop
    split at stop
    · cases stop
    · next message error =>
      cases stop
      rcases Log.logWrite_eq_error error with ⟨same, _⟩ | ⟨same, _⟩ <;> simp at same
  | endOp =>
    simp only [bufMachine] at stop
    split at stop
    · cases stop
    · next message error =>
      cases stop
      have := (Log.endOp_eq_error error).1
      simp at this
  | _ => cases stop

/-- `bget` stops the machine exactly when `NBUF` blocks are in use and its block is none of them. No more
blocks are in use than there are readers, with one buffer each, buffers of operations and of the commit, which
has at most two, and blocks in the log: while these are fewer than `NBUF`, and in every run in which each
`bget` has room, `bget` finds a cached or an unreferenced buffer. -/
theorem bget_finds_buffer {start size : Nat} {t : Pid} {disk : Nat → Block}
    (ok : HeaderOk start size (getHead (disk start))) :
    (∀ x, FileReach start size t disk x →
      (∀ u dev n, bufMachine u () (.bget dev n) x.shared = .panic "bget: no buffers" ↔
      ¬ Roomy (.bget dev n) x.shared) ∧
      x.shared.inUse.card ≤ x.shared.holders ∧
      (∀ u ∈ x.shared.readers, (x.shared.hold u).card ≤ 1) ∧
      (∀ u, x.shared.owner = some u → (x.shared.hold u).card ≤ 2) ∧
      (x.shared.holders < NBUF → ¬ Panics bufMachine Scheduled x "bget: no buffers")) ∧
    ∀ x, Reach bufMachine (fun u a s => Scheduled u a s ∧ Roomy a s) (fileCalls start)
        (cacheStart start size t disk) x →
      ¬ Panics bufMachine (fun u a s => Scheduled u a s ∧ Roomy a s) x "bget: no buffers" ∧
      ∀ u dev n next, x.code u = .act (.bget dev n) next → Roomy (.bget dev n) x.shared →
        x.shared.lookup dev n ≠ none ∨ ∃ b, x.shared.lru = some b ∧ (x.shared.buf b).refcnt = 0 := by
  have exact' : ∀ x, FileReach start size t disk x →
      ∀ u dev n, bufMachine u () (.bget dev n) x.shared = .panic "bget: no buffers" ↔
        ¬ Roomy (.bget dev n) x.shared := fun x run u dev n => by
    have inv : BufInv x.shared := (fileReach_holds ok run).inv.1
    refine inv.bget_panics_iff.trans ?_
    simp only [Roomy, not_or, Nat.not_lt]
  refine ⟨fun x run => ?_, fun x run => ?_⟩
  · have bounded := fileReach_bounded ok run
    have readers : ∀ u ∈ x.shared.readers, (x.shared.hold u).card ≤ 1 :=
      fun u => LogState.reader_hold_le (bounded u)
    have few := LogState.inUse_le_holders readers
    refine ⟨exact' x run, few, readers, fun u => (fileReach_holds ok run).inv.1.owner_hold_le
      (bounded u), fun room => ?_⟩
    rintro ⟨u, a, next, c, -, -, stop⟩
    obtain ⟨dev, n, rfl⟩ := bget_stops stop
    exact (exact' x run u dev n).mp stop (.inr (few.trans_lt room))
  · have wide : FileReach start size t disk x := Reach.weaken (fun _ _ _ => And.left) run
    refine ⟨?_, fun u dev n next _ roomy => ?_⟩
    · rintro ⟨u, a, next, c, -, ⟨-, roomy⟩, stop⟩
      obtain ⟨dev, n, rfl⟩ := bget_stops stop
      exact (exact' x wide u dev n).mp stop roomy
    · by_contra dry
      rw [not_or, not_not] at dry
      have stuck : x.shared.lru = none := by
        cases victim : x.shared.lru with
        | none => rfl
        | some b => exact absurd ⟨b, victim, LogState.lru_some victim⟩ dry.2
      refine (exact' x wide u dev n).mp ?_ roomy
      simp only [bufMachine, LogState.bget, dry.1, stuck]

/-- The steps of a process that takes no new call. -/
def stepsOf (t : Pid) (n : Nat) : List (Move Pid Unit FileCall) := List.replicate n (.act t ())

/-- Process 2 waits for the disk in a `fileread`, and process 1 has logged block 46 in an operation and calls
`bread`. -/
def besideReader : List (Move Pid Unit FileCall) :=
  let b : BufId := ⟨2, by decide⟩
  stepsOf 0 19 ++ .call 2 (.fileread [100]) :: stepsOf 2 1 ++
    .call 1 (.op .beginOp) :: stepsOf 1 1 ++ .call 1 (.op (.bread 46)) :: stepsOf 1 3 ++
    .call 1 (.op (.modify b fun _ => 1)) :: stepsOf 1 1 ++ .call 1 (.op (.logWrite b)) :: stepsOf 1 1 ++
    [.call 1 (.op (.bread 47))]

/-- It gives both buffers back and ends the operation, up to the second `bread` of `write_log`. -/
def commitBesideReader : List (Move Pid Unit FileCall) :=
  let a : BufId := ⟨3, by decide⟩
  let b : BufId := ⟨2, by decide⟩
  stepsOf 1 3 ++ .call 1 (.op (.brelse a)) :: stepsOf 1 2 ++ .call 1 (.op (.brelse b)) :: stepsOf 1 2 ++
    .call 1 (.op .endOp) :: stepsOf 1 7

/-- As many processes as there are buffers wait for the disk, each in a `fileread` of its own block. -/
def thirtyReaders : List (Move Pid Unit FileCall) :=
  stepsOf 0 19 ++ (List.range NBUF).flatMap (fun u => [.call u (.fileread [100 + u]), .act u ()]) ++
    [.call NBUF (.fileread [200])]

/-- The scripts, evaluated. -/
theorem filesRun :
    ((drive bufMachine (fun u a s => Scheduled u a s ∧ Roomy a s) (fileCalls 2) besideReader
      (cacheStart 2 30 0 emptyDisk)).bind
      fun x => (drive bufMachine (fun u a s => Scheduled u a s ∧ Roomy a s) (fileCalls 2)
      commitBesideReader x).map
        fun y => ((x.shared.readers, x.shared.ops, x.shared.holders), y.shared.readers, y.shared.owner,
        y.shared.holders)) =
      some (({2}, [1], 3), {2}, some 1, 3) ∧
    (drive bufMachine Scheduled (fileCalls 2) thirtyReaders (cacheStart 2 30 0 emptyDisk)).bind
    (stops bufMachine Scheduled NBUF ()) =
      some "bget: no buffers" := by
  decide +kernel

/-- A process reads, another is about to `bread` in an operation and then in its commit, and nobody is about
to stop. -/
theorem bget_finds_buffer_commit : ∃ x y,
    Reach bufMachine (fun u a s => Scheduled u a s ∧ Roomy a s) (fileCalls 2)
    (cacheStart 2 30 0 emptyDisk) x ∧
    Reach bufMachine (fun u a s => Scheduled u a s ∧ Roomy a s) (fileCalls 2) x y ∧
    (x.shared.readers = {2} ∧ x.shared.ops = [1] ∧ x.shared.holders = 3 ∧
      ¬ Panics bufMachine Scheduled x "bget: no buffers") ∧
    (y.shared.readers = {2} ∧ y.shared.owner = some 1 ∧ y.shared.holders = 3 ∧
      ¬ Panics bufMachine Scheduled y "bget: no buffers") := by
  obtain ⟨x, first, rest⟩ := Option.bind_eq_some_iff.mp filesRun.1
  obtain ⟨y, second, facts⟩ := Option.map_eq_some_iff.mp rest
  simp only [Prod.mk.injEq] at facts
  obtain ⟨⟨readersX, ops, holdersX⟩, readersY, owner, holdersY⟩ := facts
  have runX := drive_reach first
  have runY := drive_reach second
  have room {n : Nat} (three : n = 3) : n < NBUF := by
    rw [three]
    decide
  have finds := (bget_finds_buffer (t := 0) emptyDisk_header).1
  have operating := finds x (Reach.weaken (fun _ _ _ => And.left) runX)
  have committing := finds y (Reach.weaken (fun _ _ _ => And.left) (runX.trans runY))
  exact ⟨x, y, runX, runY, ⟨readersX, ops, holdersX, operating.2.2.2.2 (room holdersX)⟩,
    readersY, owner, holdersY, committing.2.2.2.2 (room holdersY)⟩

/-- One more reader finds no buffer. -/
theorem bget_runs_dry : ∃ x, Reach bufMachine Scheduled (fileCalls 2) (cacheStart 2 30 0 emptyDisk) x ∧
    Panics bufMachine Scheduled x "bget: no buffers" :=
  drive_panics thirtyReaders (t := NBUF) (c := ()) filesRun.2

end Xv6
