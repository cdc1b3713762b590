import Xv6.Proc.Machine
import Mathlib.Algebra.BigOperators.Fin
import Mathlib.Algebra.BigOperators.Ring.Finset

/-! The scan of `nproc`, between steps of other processors that take and free slots of the process table. The
scan takes no lock; what else is done to a slot is done under its `p->lock`, one write of `p->state` at a
time. -/

namespace Xv6.Sysinfo
open Function

/-- `nproc` in the middle of its loop, with the index of `p`. The tables since the call and how many more
slots have been taken than freed, at and after the cursor and before it, are not read by any step. -/
structure Scan where
  table : ProcId → ProcState
  next : Nat
  procCount : Nat
  moments : List (ProcId → ProcState)
  ahead : Int
  behind : Int

/-- The call of `nproc`. -/
def Scan.start (table : ProcId → ProcState) : Scan := ⟨table, 0, 0, [table], 0, 0⟩

/-- What a state counts for. -/
def weight (state : ProcState) : Int := if state ≠ .unused then 1 else 0

/-- A slot's new state. -/
def Scan.write (s : Scan) (p : ProcId) (state : ProcState) : Scan :=
  let table := update s.table p state
  let change := weight state - weight (s.table p)
  { s with
    table, moments := table :: s.moments,
    ahead := if s.next ≤ p.val then s.ahead + change else s.ahead,
    behind := if s.next ≤ p.val then s.behind else s.behind + change }

/-- A round of the scan, `allocproc` and `freeproc`, and what else becomes of a slot in use. -/
inductive ScanAct where
  | read
  | allocproc (p : ProcId)
  | freeproc (p : ProcId)
  | setState (p : ProcId) (state : ProcState)

/-- A slot is freed by `wait`, or if `allocproc` or `fork` fails. -/
def Scan.step (s : Scan) : ScanAct → Option Scan
  | .read =>
    if more : s.next < NPROC then
      some { s with
        next := s.next + 1,
        procCount := if s.table ⟨s.next, more⟩ ≠ .unused then s.procCount + 1 else s.procCount }
    else none
  | .allocproc p => if s.table p = .unused then some (s.write p .used) else none
  | .freeproc p => if s.table p = .used ∨ s.table p = .zombie then some (s.write p .unused) else none
  | .setState p state => if s.table p ≠ .unused ∧ state ≠ .unused then some (s.write p state) else none

/-- The number of slots in use. -/
def inUse (table : ProcId → ProcState) : Nat := (Finset.univ.filter fun p => table p ≠ .unused).card

section Nproc

variable {s s' : Scan} {a : ScanAct} {acts : List ScanAct} {table start : ProcId → ProcState}
  {p : ProcId} {state : ProcState}

/-- A step is a round of the scan or a write. -/
theorem Scan.step_cases (move : s.step a = some s') :
    (∃ more : s.next < NPROC, s' = { s with
      next := s.next + 1,
      procCount := if s.table ⟨s.next, more⟩ ≠ .unused then s.procCount + 1 else s.procCount }) ∨
    ∃ p state, s' = s.write p state := by
  cases a with
  | read =>
    rw [step] at move
    split at move
    next more => exact .inl ⟨more, (Option.some.inj move).symm⟩
    next => cases move
  | allocproc p =>
    rw [step] at move
    split at move
    · exact .inr ⟨p, _, (Option.some.inj move).symm⟩
    · cases move
  | freeproc p =>
    rw [step] at move
    split at move
    · exact .inr ⟨p, _, (Option.some.inj move).symm⟩
    · cases move
  | setState p state =>
    rw [step] at move
    split at move
    · exact .inr ⟨p, _, (Option.some.inj move).symm⟩
    · cases move

/-- The slots in use from the cursor on. -/
def inUseFrom (n : Nat) (table : ProcId → ProcState) : Int :=
  ∑ p : ProcId, if n ≤ p.val then weight (table p) else 0

theorem inUse_eq (table : ProcId → ProcState) : (inUse table : Int) = inUseFrom 0 table := by
  rw [inUse, Finset.natCast_card_filter]
  exact Finset.sum_congr rfl fun p _ => (if_pos (Nat.zero_le _)).symm

theorem inUseFrom_end (table : ProcId → ProcState) : inUseFrom NPROC table = 0 :=
  Finset.sum_eq_zero fun p _ => if_neg (Nat.not_le.mpr p.isLt)

/-- Sums that differ in one term. -/
theorem sum_differ (f g : ProcId → Int) (p : ProcId) (same : ∀ q, q ≠ p → f q = g q) :
    ∑ q, f q = ∑ q, g q + (f p - g p) := by
  have single : ∑ q, (f q - g q) = f p - g p :=
    Fintype.sum_eq_single p fun q other => sub_eq_zero.mpr (same q other)
  rw [Finset.sum_sub_distrib] at single
  omega

theorem inUseFrom_update (n : Nat) (table : ProcId → ProcState) (p : ProcId) (state : ProcState) :
    inUseFrom n (update table p state) = inUseFrom n table +
    if n ≤ p.val then weight state - weight (table p) else 0 := by
  rw [inUseFrom, sum_differ _ (fun q => if n ≤ q.val then weight (table q) else 0) p
    fun q other => by rw [update_of_ne other], update_self]
  rw [inUseFrom]
  split <;> simp

theorem inUseFrom_next (table : ProcId → ProcState) {n : Nat} (more : n < NPROC) :
    inUseFrom n table = inUseFrom (n + 1) table + weight (table ⟨n, more⟩) := by
  rw [inUseFrom, sum_differ _ (fun q => if n + 1 ≤ q.val then weight (table q) else 0) ⟨n, more⟩
    fun q other => ?_, if_pos (Nat.le_refl n), if_neg (Nat.not_succ_le_self n), sub_zero]
  · rfl
  · have apart : n ≠ q.val := fun same => other (Fin.ext same.symm)
    grind

theorem weight_cases (state : ProcState) : weight state = 0 ∨ weight state = 1 := by
  unfold weight
  split <;> simp

/-- The slots before the cursor that are in use at every moment, and at some moment. -/
def always (n : Nat) (moments : List (ProcId → ProcState)) : Finset ProcId :=
  Finset.univ.filter fun p => p.val < n ∧ ∀ table ∈ moments, table p ≠ .unused

def ever (n : Nat) (moments : List (ProcId → ProcState)) : Finset ProcId :=
  Finset.univ.filter fun p => p.val < n ∧ ∃ table ∈ moments, table p ≠ .unused

/-- What holds during the scan. `passed` is a discrete intermediate value theorem: one write changes the
number by one at most. -/
structure Scanning (start : ProcId → ProcState) (s : Scan) : Prop where
  now : s.table ∈ s.moments
  count : s.procCount + inUseFrom s.next s.table = inUse start + s.ahead
  total : inUse s.table = inUse start + s.ahead + s.behind
  passed : ∀ v : Int, inUse start ≤ v ∧ v ≤ inUse s.table ∨ inUse s.table ≤ v ∧ v ≤ inUse start →
    ∃ table ∈ s.moments, (inUse table : Int) = v
  least : (always s.next s.moments).card ≤ s.procCount
  most : s.procCount ≤ (ever s.next s.moments).card

theorem Scanning.init (table : ProcId → ProcState) : Scanning table (.start table) where
  now := List.mem_singleton_self _
  count := by
    rw [inUse_eq]
    exact Int.add_comm ..
  total := by simp [Scan.start]
  passed v between := ⟨table, List.mem_singleton_self _, by simp only [Scan.start] at between; omega⟩
  least := by simp [Scan.start, always]
  most := Nat.zero_le _

theorem Scanning.read (inv : Scanning start s) (more : s.next < NPROC) : Scanning start { s with
    next := s.next + 1,
    procCount := if s.table ⟨s.next, more⟩ ≠ .unused then s.procCount + 1 else s.procCount } where
  now := inv.now
  count := by
    have before := inv.count
    rw [inUseFrom_next s.table more, weight] at before
    split at before
    next used =>
      rw [if_pos used]
      push_cast
      omega
    next free =>
      rw [if_neg free]
      show s.procCount + inUseFrom (s.next + 1) s.table = inUse start + s.ahead
      omega
  total := inv.total
  passed := inv.passed
  least := by
    have least := inv.least
    split
    next used =>
      have grown : always (s.next + 1) s.moments ⊆ insert ⟨s.next, more⟩ (always s.next s.moments) := by
        intro q member
        simp only [always, Finset.mem_filter, Finset.mem_insert, Finset.mem_univ, true_and] at member ⊢
        rcases Nat.lt_or_eq_of_le (Nat.le_of_lt_succ member.1) with before | here
        · exact .inr ⟨before, member.2⟩
        · exact .inl (Fin.ext here)
      exact Nat.le_trans (Finset.card_le_card grown) (Nat.le_trans (Finset.card_insert_le ..)
        (Nat.succ_le_succ least))
    next free =>
      refine Nat.le_trans (Finset.card_le_card fun q member => ?_) least
      simp only [always, Finset.mem_filter, Finset.mem_univ, true_and] at member ⊢
      refine ⟨Nat.lt_of_le_of_ne (Nat.le_of_lt_succ member.1) fun here => free ?_, member.2⟩
      have same : q = ⟨s.next, more⟩ := Fin.ext here
      exact same ▸ member.2 s.table inv.now
  most := by
    have most := inv.most
    have kept : ever s.next s.moments ⊆ ever (s.next + 1) s.moments := by
      intro q member
      simp only [ever, Finset.mem_filter, Finset.mem_univ, true_and] at member ⊢
      exact ⟨Nat.lt_succ_of_lt member.1, member.2⟩
    split
    next used =>
      have fresh : ⟨s.next, more⟩ ∉ ever s.next s.moments := fun member =>
        Nat.lt_irrefl _ (Finset.mem_filter.mp member).2.1
      have here : ⟨s.next, more⟩ ∈ ever (s.next + 1) s.moments :=
        Finset.mem_filter.mpr ⟨Finset.mem_univ _, Nat.lt_succ_self _, s.table, inv.now, used⟩
      have grown := Finset.card_le_card (Finset.insert_subset here kept)
      rw [Finset.card_insert_of_notMem fresh] at grown
      exact Nat.le_trans (Nat.succ_le_succ most) grown
    next => exact Nat.le_trans most (Finset.card_le_card kept)

theorem Scanning.write (inv : Scanning start s) (p : ProcId) (state : ProcState) :
    Scanning start (s.write p state) where
  now := List.mem_cons_self
  count := by
    have before := inv.count
    show s.procCount + inUseFrom s.next (update s.table p state) = inUse start +
      if s.next ≤ p.val then _ else _
    rw [inUseFrom_update]
    split <;> omega
  total := by
    have before := inv.total
    rw [inUse_eq] at before
    show (inUse (update s.table p state) : Int) = inUse start + (if s.next ≤ p.val then _ else _) +
      if s.next ≤ p.val then _ else _
    rw [inUse_eq, inUseFrom_update, if_pos (Nat.zero_le _)]
    split <;> omega
  passed v between := by
    have change : (inUse (update s.table p state) : Int) = inUse s.table +
      (weight state - weight (s.table p)) := by
      rw [inUse_eq, inUseFrom_update, if_pos (Nat.zero_le _), ← inUse_eq]
    have small := weight_cases state
    have small' := weight_cases (s.table p)
    by_cases last : v = inUse (update s.table p state)
    · exact ⟨update s.table p state, List.mem_cons_self, last.symm⟩
    · obtain ⟨table, member, number⟩ := inv.passed v (by
        simp only [Scan.write] at between
        omega)
      exact ⟨table, List.mem_cons_of_mem _ member, number⟩
  least := by
    refine Nat.le_trans (Finset.card_le_card fun q member => ?_) inv.least
    simp only [always, Finset.mem_filter, Finset.mem_univ, true_and] at member ⊢
    exact ⟨member.1, fun table inside => member.2 table (List.mem_cons_of_mem _ inside)⟩
  most := by
    refine Nat.le_trans inv.most (Finset.card_le_card fun q member => ?_)
    simp only [ever, Finset.mem_filter, Finset.mem_univ, true_and] at member ⊢
    obtain ⟨before, table, inside, used⟩ := member
    exact ⟨before, table, List.mem_cons_of_mem _ inside, used⟩

theorem Scanning.step (inv : Scanning start s) (move : s.step a = some s') : Scanning start s' := by
  rcases Scan.step_cases move with ⟨more, rfl⟩ | ⟨p, state, rfl⟩
  · exact inv.read more
  · exact inv.write p state

theorem Scanning.run (inv : Scanning start s) (run : acts.foldlM Scan.step s = some s') :
    Scanning start s' := by
  induction acts generalizing s with
  | nil =>
    cases run
    exact inv
  | cons a acts ih =>
    rw [List.foldlM_cons] at run
    obtain ⟨s₁, move, rest⟩ := Option.bind_eq_some_iff.mp run
    exact ih (inv.step move) rest

/-- What a finished scan has counted: no less than the slots that were in use all the time, and no more than
those that were in use at some time; and the number of slots in use at one moment of the scan, unless the
slots that were taken prevail on one side of the cursor and those that were freed on the other. -/
theorem nproc_scanned (run : acts.foldlM Scan.step (.start table) = some s) (done : s.next = NPROC) :
    (Finset.univ.filter fun p => ∀ moment ∈ s.moments, moment p ≠ .unused).card ≤ s.procCount ∧
    s.procCount ≤ (Finset.univ.filter fun p => ∃ moment ∈ s.moments, moment p ≠ .unused).card ∧
    (0 ≤ s.ahead ∧ 0 ≤ s.behind ∨ s.ahead ≤ 0 ∧ s.behind ≤ 0 → ∃ moment ∈ s.moments, inUse moment =
      s.procCount) := by
  have inv := (Scanning.init table).run run
  have count := inv.count
  have total := inv.total
  rw [done, inUseFrom_end] at count
  refine ⟨Nat.le_trans (Finset.card_le_card fun p member => ?_) inv.least,
    Nat.le_trans inv.most (Finset.card_le_card fun p member => ?_), fun sides => ?_⟩
  · exact Finset.mem_filter.mpr ⟨Finset.mem_univ p, Nat.lt_of_lt_of_eq p.isLt done.symm,
      (Finset.mem_filter.mp member).2⟩
  · exact Finset.mem_filter.mpr ⟨Finset.mem_univ p, (Finset.mem_filter.mp member).2.2⟩
  · obtain ⟨moment, member, same⟩ := inv.passed s.procCount (by omega)
    exact ⟨moment, member, Int.ofNat_inj.mp same⟩

theorem nproc_scanned_fork :
    let table : ProcId → ProcState := fun p => if p.val = 0 then .sleeping else .unused
    let acts := [.read, .allocproc ⟨1, by decide⟩] ++ List.replicate 63 ScanAct.read
    ∃ s, acts.foldlM Scan.step (.start table) = some s ∧ s.procCount = 2 ∧
      ∃ moment ∈ s.moments, inUse moment = s.procCount := by
  intro table acts
  have result : (acts.foldlM Scan.step (.start table)).map
    (fun s => (s.next, s.procCount, s.ahead, s.behind)) =
      some (NPROC, 2, 1, 0) := by decide +kernel
  obtain ⟨s, run, fields⟩ := Option.map_eq_some_iff.mp result
  obtain ⟨done, count, ahead, behind⟩ : s.next = NPROC ∧ s.procCount = 2 ∧ s.ahead = 1 ∧ s.behind = 0 := by
    simpa only [Prod.mk.injEq] using fields
  exact ⟨s, run, count, (nproc_scanned run done).2.2 (.inl ⟨by omega, by omega⟩)⟩

/-- The third slot is freed and the second one taken when the scan is between them: it counts one slot, but
there are never fewer than two. -/
theorem nproc_misses :
    let table : ProcId → ProcState := fun p => if p.val = 0 then .sleeping else if p.val = 2 then .zombie else .unused
    let acts := [.read, .read, .allocproc ⟨1, by decide⟩,
      .freeproc ⟨2, by decide⟩] ++ List.replicate 62 ScanAct.read
    ∃ s, acts.foldlM Scan.step (.start table) = some s ∧ s.next = NPROC ∧ s.procCount = 1 ∧
      s.moments.map inUse = [2, 3, 2] ∧
      ¬∃ moment ∈ s.moments, inUse moment = s.procCount := by
  intro table acts
  have result : (acts.foldlM Scan.step (.start table)).map
    (fun s => (s.next, s.procCount, s.moments.map inUse)) =
      some (NPROC, 1, [2, 3, 2]) := by decide +kernel
  obtain ⟨s, run, fields⟩ := Option.map_eq_some_iff.mp result
  obtain ⟨done, count, moments⟩ : s.next = NPROC ∧ s.procCount = 1 ∧ s.moments.map inUse = [2, 3, 2] := by
    simpa only [Prod.mk.injEq] using fields
  refine ⟨s, run, done, count, moments, fun ⟨moment, member, same⟩ => ?_⟩
  have one : 1 ∈ s.moments.map inUse := List.mem_map.mpr ⟨moment, member, same.trans count⟩
  rw [moments] at one
  exact absurd one (by decide)

end Nproc

end Xv6.Sysinfo
