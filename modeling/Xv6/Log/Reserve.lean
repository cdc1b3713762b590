import Xv6.Log.Header
import Xv6.Lib.Threads
import Mathlib.Data.List.Dedup

namespace Xv6
open Threads

/-- The critical sections of `begin_op`, `log_write` and `end_op`; `commit` stands for
the whole of `commit()`, whose effect on the log is `log.lh.n = 0`. -/
inductive OpAct where
  | beginOp
  | logWrite (blockno : Nat)
  | endOp
  | commit
  | endCommit

abbrev OpAct.Resp : OpAct → Type
  | .endOp => Bool
  | _ => Unit

abbrev OpAct.run (a : OpAct) : Prog OpAct OpAct.Resp a.Resp := .step a

/-- The log, with a record of the processes between `begin_op` and `end_op`, of the one
inside `commit()`, and of the arguments of `log_write` since the last commit. -/
structure OpState where
  log : Log
  inside : List Pid
  committer : Option Pid
  since : List Nat

/-- The log as `initlog` leaves it on an image made by mkfs. -/
def opInit (start : Nat) : OpState := ⟨⟨start, nlog, 0, false, []⟩, [], none, []⟩

def opMachine : Machine Pid OpState Unit OpAct OpAct.Resp
  | t, _, .beginOp, s => match s.log.beginOp with
    | some log => .ok () { s with log, inside := t :: s.inside }
    | none => .blocked
  | _, _, .logWrite blockno, s => match s.log.logWrite blockno with
    | .ok (log, _) => .ok () { s with log, since := blockno :: s.since }
    | .error message => .panic message
  | t, _, .endOp, s => match s.log.endOp with
    | .ok (log, last) => .ok last
        { s with log, inside := s.inside.erase t, committer := if last then some t else s.committer }
    | .error message => .panic message
  | _, _, .commit, s => .ok () { s with log := { s.log with lh := [] }, since := [] }
  | _, _, .endCommit, s => .ok () { s with log := s.log.endCommit, committer := none }

/-- A file-system operation, given by the block numbers it hands to `log_write`. -/
def fsOp (blocks : List Nat) : Prog OpAct OpAct.Resp Unit := do
  OpAct.beginOp.run
  .forEach (fun blockno => (OpAct.logWrite blockno).run) blocks
  if ← OpAct.endOp.run then
    OpAct.commit.run
    OpAct.endCommit.run

/-- Any process may start any operation with at most `MAXOPBLOCKS` distinct blocks. -/
def opCalls : Calls Pid OpState (List Nat) OpAct OpAct.Resp where
  code := fsOp
  legal _ _ blocks := blocks.dedup.length ≤ MAXOPBLOCKS

instance (t : Pid) (s : OpState) (blocks : List Nat) : Decidable (opCalls.legal t s blocks) :=
  inferInstanceAs (Decidable (_ ≤ _))

def opStart (start : Nat) : Config Pid OpState OpAct OpAct.Resp := ⟨opInit start, fun _ => pure ()⟩

/-- What holds of the log between any two steps. -/
structure OpInv (s : OpState) : Prop where
  size : s.log.size = nlog
  nodup : s.log.lh.Nodup
  logged : ∀ b, b ∈ s.log.lh ↔ b ∈ s.since
  outstanding : s.log.outstanding = s.inside.length
  committing : s.log.committing = s.committer.isSome
  quiet : s.committer ≠ none → s.inside = []

/-- A process relies on being counted by `log.outstanding`, or on being the committer. -/
def opOutline : Outline Pid OpState (Nat × Bool) OpAct where
  inv := OpInv
  view t s := (s.inside.count t, decide (s.committer = some t))
  guar t before after := ∀ other, other ≠ t →
    (after.inside.count other, decide (after.committer = some other)) =
      (before.inside.count other, decide (before.committer = some other))
  allowed _ _ _ := True
  owes _ a s := match a with
    | .commit => s.inside = []
    | _ => True
  mayPanic _ a s message := message = "too big a transaction" ∧
    LOGSIZE - 1 ≤ s.since.dedup.length ∧ ∃ blockno, a = .logWrite blockno

/-- The number of distinct blocks in the log is the number handed to `log_write`. -/
theorem OpInv.length_lh {s : OpState} (h : OpInv s) : s.log.lh.length = s.since.dedup.length := by
  refine List.Perm.length_eq ((List.perm_ext_iff_of_nodup h.nodup (List.nodup_dedup _)).mpr ?_)
  intro b
  rw [h.logged, List.mem_dedup]

variable {t : Pid} {v : Nat × Bool}

theorem OpAct.beginOp_wp : wp opMachine opOutline t OpAct.beginOp.run (fun _ v => v =
      (1, false)) (0, false) := by
  refine wp_step fun s _ inv view => ⟨trivial, fun _ => ?_⟩
  obtain ⟨notInside, notCommitter⟩ := Prod.mk.inj view
  simp only [opMachine]
  cases run : s.log.beginOp with
  | none => trivial
  | some log =>
    obtain ⟨idle, _, rfl⟩ := Log.beginOp_eq_some run
    have noCommitter : s.committer = none := by
      have := inv.committing
      rw [idle] at this
      simpa using this.symm
    refine ⟨⟨inv.size, inv.nodup, inv.logged, ?_, inv.committing, ?_⟩, ?_, ?_⟩
    · simp only [inv.outstanding, List.length_cons]; omega
    · exact fun busy => absurd noCommitter busy
    · intro other different
      simp [Ne.symm different]
    · simp [opOutline, notInside, noCommitter]

theorem OpAct.logWrite_wp {blockno : Nat} :
    wp opMachine opOutline t (OpAct.logWrite blockno).run (fun _ v => v = (1, false)) (1, false) := by
  refine wp_step fun s _ inv view => ⟨trivial, fun _ => ?_⟩
  have inside : t ∈ s.inside := List.count_pos_iff.mp (by rw [(Prod.mk.inj view).1]; exact Nat.one_pos)
  have positive := List.length_pos_of_mem inside
  simp only [opMachine]
  cases run : s.log.logWrite blockno with
  | error message =>
    rcases Log.logWrite_eq_error run with ⟨rfl, full⟩ | ⟨_, none⟩
    · refine ⟨rfl, ?_, blockno, rfl⟩
      rw [← inv.length_lh]
      rw [inv.size] at full
      simp only [nlog, LOGSIZE, MAXOPBLOCKS] at full ⊢
      omega
    · rw [inv.outstanding] at none
      omega
  | ok result =>
    obtain ⟨log, pin⟩ := result
    obtain ⟨_, _, _, ⟨member, rfl, _⟩ | ⟨fresh, rfl, _⟩⟩ := Log.logWrite_eq_ok run
    · refine ⟨⟨inv.size, inv.nodup, fun b => ?_, inv.outstanding, inv.committing, inv.quiet⟩,
        fun _ _ => rfl, view⟩
      rw [inv.logged, List.mem_cons]
      constructor
      · exact .inr
      · rintro (rfl | old)
        · exact (inv.logged _).mp member
        · exact old
    · refine ⟨⟨inv.size, ?_, fun b => ?_, inv.outstanding, inv.committing, inv.quiet⟩,
        fun _ _ => rfl, view⟩
      · exact inv.nodup.append (List.nodup_singleton _) (by simpa using fresh)
      · rw [List.mem_append, List.mem_singleton, List.mem_cons, inv.logged]
        exact or_comm

theorem OpAct.endOp_wp : wp opMachine opOutline t OpAct.endOp.run (fun last v => v =
      (0, last)) (1, false) := by
  refine wp_step fun s _ inv view => ⟨trivial, fun _ => ?_⟩
  obtain ⟨once, notCommitter⟩ := Prod.mk.inj view
  have inside : t ∈ s.inside := List.count_pos_iff.mp (by rw [once]; exact Nat.one_pos)
  have positive := List.length_pos_of_mem inside
  have noCommitter : s.committer = none := by
    by_contra busy
    rw [inv.quiet busy] at inside
    simp at inside
  simp only [opMachine]
  cases run : s.log.endOp with
  | error message =>
    have busy := (Log.endOp_eq_error run).2
    rw [inv.committing, noCommitter] at busy
    simp at busy
  | ok result =>
    obtain ⟨log, last⟩ := result
    obtain ⟨_, rfl, lastIff⟩ := Log.endOp_eq_ok run
    have length := List.length_erase_of_mem inside
    have elsewhere : ∀ other, other ≠ t → (s.inside.erase t).count other = s.inside.count other :=
      fun other different => List.count_erase_of_ne different
    have mine : (s.inside.erase t).count t = 0 := by rw [List.count_erase_self, once]
    have outstanding : s.log.outstanding - 1 = ((s.inside.erase t).length : Int) := by
      rw [inv.outstanding, length]; omega
    cases last with
    | true =>
      have alone : s.inside.length = 1 := by
        have := lastIff.mp rfl
        rw [inv.outstanding] at this
        omega
      refine ⟨⟨inv.size, inv.nodup, inv.logged, outstanding, rfl, fun _ => ?_⟩, ?_, ?_⟩
      · exact List.eq_nil_of_length_eq_zero (by rw [length, alone])
      · intro other different
        simp [elsewhere other different, noCommitter, Ne.symm different]
      · simp [opOutline, mine]
    | false =>
      refine ⟨⟨inv.size, inv.nodup, inv.logged, outstanding, by simp [noCommitter],
        fun busy => absurd noCommitter busy⟩, ?_, ?_⟩
      · intro other different
        simp [elsewhere other different]
      · simp [opOutline, mine, noCommitter]

theorem OpAct.commit_wp :
    wp opMachine opOutline t OpAct.commit.run (fun _ v => v = (0, true)) (0, true) := by
  refine wp_step fun s _ inv view => ?_
  have committer : s.committer = some t := by simpa using (Prod.mk.inj view).2
  have quiet := inv.quiet (by simp [committer])
  refine ⟨quiet, fun _ => ⟨⟨inv.size, List.nodup_nil, fun _ => Iff.rfl, inv.outstanding,
    inv.committing, inv.quiet⟩, fun _ _ => rfl, view⟩⟩

theorem OpAct.endCommit_wp :
    wp opMachine opOutline t OpAct.endCommit.run (fun _ v => v = (0, false)) (0, true) := by
  refine wp_step fun s _ inv view => ⟨trivial, fun _ => ?_⟩
  have committer : s.committer = some t := by simpa using (Prod.mk.inj view).2
  refine ⟨⟨inv.size, inv.nodup, inv.logged, inv.outstanding, rfl, fun busy => absurd rfl busy⟩, ?_, ?_⟩
  · intro other different
    simp [committer, Ne.symm different]
  · simpa [opOutline, Log.endCommit] using (Prod.mk.inj view).1

theorem fsOp_wp (blocks : List Nat) :
    wp opMachine opOutline t (fsOp blocks) (fun _ v => v = (0, false)) (0, false) := by
  refine wp_seq OpAct.beginOp_wp fun _ v inside => ?_
  refine wp_seq (R := fun _ v => v = (1, false)) ?_ fun _ v inside => ?_
  · refine wp_forEach (J := fun _ v => v = (1, false)) (fun blockno rest v inside => ?_) inside
    subst inside
    exact OpAct.logWrite_wp
  · subst inside
    refine wp_seq OpAct.endOp_wp fun last v outside => ?_
    subst outside
    cases last with
    | false => exact rfl
    | true =>
      refine wp_seq OpAct.commit_wp fun _ v committed => ?_
      subst committed
      exact OpAct.endCommit_wp

theorem opOutline_isolated : opOutline.Isolated := fun _ _ _ guar other different => guar other different

theorem opReach_holds {start : Nat} {x : Config Pid OpState OpAct OpAct.Resp}
    (run : Reach opMachine (fun _ _ _ => True) opCalls (opStart start) x) :
    opOutline.Holds opMachine (fun _ v => v = (0, false)) x := by
  refine Outline.Holds.reach opOutline_isolated ?_ ⟨?_, fun _ => ?_⟩ run
  · intro t s blocks _ idle _
    rw [idle]
    exact fsOp_wp blocks
  · exact ⟨rfl, List.nodup_nil, fun _ => Iff.rfl, rfl, rfl, fun busy => absurd rfl busy⟩
  · exact wp_pure.mpr rfl

/-- `log_write` stops the machine exactly when the operations since the last commit have
already logged `log.size - 1` distinct blocks, nothing else in the log does, and
`commit()` runs only with no operation between its `begin_op` and `end_op`. -/
theorem log_write_panics_iff {start : Nat} {x : Config Pid OpState OpAct OpAct.Resp}
    (run : Reach opMachine (fun _ _ _ => True) opCalls (opStart start) x) :
    (∀ message, Panics opMachine (fun _ _ _ => True) x message ↔
      message = "too big a transaction" ∧ LOGSIZE - 1 ≤ x.shared.since.dedup.length ∧
        ∃ t blockno next, x.code t = .act (.logWrite blockno) next) ∧
    ∀ t next, x.code t = .act .commit next → x.shared.inside = [] := by
  have holds := opReach_holds run
  refine ⟨fun message => ⟨fun stop => ?_, ?_⟩, fun t next atCommit => holds.owes atCommit⟩
  · obtain ⟨t, a, next, atAct, rfl, full, blockno, rfl⟩ := holds.panics stop
    exact ⟨rfl, full, t, blockno, next, atAct⟩
  · rintro ⟨rfl, full, t, blockno, next, atAct⟩
    refine ⟨t, .logWrite blockno, next, (), atAct, trivial, ?_⟩
    have tooBig : x.shared.log.lh.length ≥ LOGSIZE ∨
        (x.shared.log.lh.length : Int) ≥ (x.shared.log.size : Int) - 1 := by
      rw [holds.inv.length_lh, holds.inv.size]
      simp only [nlog, LOGSIZE, MAXOPBLOCKS] at full ⊢
      omega
    simp only [opMachine, Log.logWrite, if_pos tooBig]

/-- Three operations of ten blocks each, all admitted before the first `log_write`, up
to the last block of the last one. -/
def fullReservation : List (Move Pid Unit (List Nat)) :=
  (List.range 3).map (fun t => .call t ((List.range 10).map (46 + 10 * t + ·))) ++
  (List.range 3).map (fun t => .act t ()) ++
  (List.range 29).map (fun k => .act (k / 10) ())

/-- The reservation of `begin_op` admits 30 blocks, but `log_write` refuses the 30th. -/
theorem log_write_panics_within_reservation :
    ∃ x, Reach opMachine (fun _ _ _ => True) opCalls (opStart 2) x ∧
      Panics opMachine (fun _ _ _ => True) x "too big a transaction" :=
  drive_panics fullReservation (t := 2) (c := ()) (by decide)

/-- One operation that has logged one block. -/
def oneLogged : List (Move Pid Unit (List Nat)) := [.call 0 [46], .act 0 (), .act 0 ()]

theorem oneLogged_not_panics :
    ∃ x : Config Pid OpState OpAct OpAct.Resp, x.shared.since = [46] ∧
      ¬ Panics opMachine (fun _ _ _ => True) x "too big a transaction" := by
  obtain ⟨x, run, since⟩ := Option.map_eq_some_iff.mp
    (show (drive opMachine (fun _ _ _ => True) opCalls oneLogged (opStart 2)).map
      (fun x => x.shared.since) = some [46] by decide)
  refine ⟨x, since, fun stop => ?_⟩
  have full := ((log_write_panics_iff (drive_reach run)).1 _).mp stop
  rw [since] at full
  exact absurd full.2.1 (by decide)

end Xv6
