import Xv6.Proc.Machine
import Mathlib.Data.Nat.Digits.Defs
import Mathlib.Data.List.Induction

/-! The load average of kernel/proc.c, as calls of `update_runnable_procs` one after another make it. -/

namespace Xv6.Sysinfo

/-- `runnable_procs` and `loadavg` -/
structure Load where
  runnableProcs : UInt64
  loadavg : UInt64

/-- The loop of `update_runnable_procs`, over the states that it finds in the table. -/
def countRunnable (table : ProcId → ProcState) : UInt32 :=
  (List.finRange NPROC).foldl (fun count p => if table p = .runnable then count + 1 else count) 0

/-- `update_runnable_procs` -/
def updateRunnableProcs (load : Load) (table : ProcId → ProcState) : Load :=
  let runnableProcs := (countRunnable table).toUInt64
  { runnableProcs, loadavg := (load.loadavg * 5 + runnableProcs * 10) / 10 }

/-- Calls of `update_runnable_procs` one after another, each with the states that its scan finds. -/
def updates (tables : List (ProcId → ProcState)) : Load := tables.foldl updateRunnableProcs ⟨0, 0⟩

/-- The number of processes that are ready to run. -/
def runnable (table : ProcId → ProcState) : Nat := (List.finRange NPROC).countP fun p => table p = .runnable

/-- The largest of some numbers. -/
def largest (counts : List Nat) : Nat := counts.foldr max 0

section Loadavg

variable {load : Load} {table : ProcId → ProcState} {tables : List (ProcId → ProcState)}

theorem runnable_le (table : ProcId → ProcState) : runnable table ≤ NPROC := by
  have bound := List.countP_le_length (p := fun p => decide (table p = .runnable)) (l := List.finRange NPROC)
  rwa [List.length_finRange] at bound

theorem countLoop_toNat (slots : List ProcId) (count : UInt32) (fits : count.toNat + slots.length < 2 ^ 32) :
    (slots.foldl (fun count p => if table p = .runnable then count + 1 else count) count).toNat =
      count.toNat + slots.countP fun p => table p = .runnable := by
  induction slots generalizing count with
  | nil => rfl
  | cons p slots ih =>
    rw [List.length_cons] at fits
    rw [List.foldl_cons, List.countP_cons]
    by_cases ready : table p = .runnable
    · have next : (count + 1).toNat = count.toNat + 1 := by
        rw [UInt32.toNat_add]
        exact Nat.mod_eq_of_lt (by show count.toNat + 1 < _; omega)
      rw [if_pos ready, ih _ (by omega), next, if_pos (decide_eq_true ready)]
      omega
    · rw [if_neg ready, ih _ (by omega), if_neg (by simpa using ready), Nat.add_zero]

theorem countRunnable_toNat (table : ProcId → ProcState) : (countRunnable table).toNat = runnable table := by
  rw [countRunnable, countLoop_toNat _ _ (by rw [List.length_finRange]; decide)]
  exact Nat.zero_add _

/-- What one call does to the average: half of it goes, and the whole number of processes is added. -/
theorem updateRunnableProcs_loadavg (small : load.loadavg.toNat < 2 * NPROC) :
    (updateRunnableProcs load table).loadavg.toNat = load.loadavg.toNat / 2 + runnable table := by
  have bound := runnable_le table
  rw [NPROC] at small bound
  show ((load.loadavg * 5 + (countRunnable table).toUInt64 * 10) / 10).toNat = _
  rw [UInt64.toNat_div, UInt64.toNat_add, UInt64.toNat_mul, UInt64.toNat_mul, UInt32.toNat_toUInt64,
    countRunnable_toNat]
  show (load.loadavg.toNat * 5 % 2 ^ 64 + runnable table * 10 % 2 ^ 64) % 2 ^ 64 / 10 = _
  omega

theorem updates_append (tables : List (ProcId → ProcState)) (table : ProcId → ProcState) :
    updates (tables ++ [table]) = updateRunnableProcs (updates tables) table := by
  rw [updates, List.foldl_append]
  rfl

/-- Every call's number counts for half as much as the next one's, and the last one's in full. -/
theorem updates_loadavg (tables : List (ProcId → ProcState)) :
    (updates tables).loadavg.toNat = Nat.ofDigits 2 (tables.map runnable) / 2 ^ (tables.length - 1) ∧
      (updates tables).loadavg.toNat < 2 * NPROC := by
  induction tables using List.reverseRecOn with
  | nil => exact ⟨rfl, by decide⟩
  | append_singleton tables table ih =>
    obtain ⟨value, small⟩ := ih
    have bound := runnable_le table
    rw [updates_append, updateRunnableProcs_loadavg small]
    refine ⟨?_, by omega⟩
    have half : Nat.ofDigits 2 (tables.map runnable) / 2 ^ (tables.length - 1) / 2 =
        Nat.ofDigits 2 (tables.map runnable) / 2 ^ tables.length := by
      cases tables with
      | nil => rfl
      | cons first tables => rw [Nat.div_div_eq_div_mul, ← Nat.pow_succ, List.length_cons, Nat.succ_sub_one]
    rw [value, half, List.map_append, Nat.ofDigits_append, List.length_map, List.length_append,
      List.map_singleton,
      Nat.ofDigits_singleton, List.length_singleton, Nat.add_sub_cancel, Nat.add_mul_div_left _ _
      (Nat.two_pow_pos _)]

/-- A constant number of at most one process stays the average. -/
theorem loadavg_constant (few : runnable table ≤ 1)
    (same : ∀ other ∈ tables, runnable other = runnable table) :
    (updates tables).loadavg.toNat ≤ runnable table := by
  induction tables using List.reverseRecOn with
  | nil => exact Nat.zero_le _
  | append_singleton tables last ih =>
    have before := ih fun other member => same other (List.mem_append_left _ member)
    have now := same last (List.mem_append_right _ (List.mem_singleton_self _))
    rw [updates_append, updateRunnableProcs_loadavg (updates_loadavg tables).2]
    omega

/-- When the average stays within the numbers that it is made of: their sum, each weighted with half the
weight of the next, is below the largest plus one, and a constant number is zero or one. -/
theorem loadavg_le_iff (tables : List (ProcId → ProcState)) (table : ProcId → ProcState) :
    ((updates tables).loadavg.toNat ≤ largest (tables.map runnable) ↔
      Nat.ofDigits 2 (tables.map runnable) < (largest (tables.map runnable) + 1) * 2 ^ (tables.length - 1)) ∧
    ((∀ tables, (∀ other ∈ tables, runnable other = runnable table) →
      (updates tables).loadavg.toNat ≤ runnable table) ↔ runnable table ≤ 1) := by
  refine ⟨?_, fun within => ?_, fun few tables same => loadavg_constant few same⟩
  · rw [(updates_loadavg tables).1, ← Nat.lt_succ_iff, Nat.div_lt_iff_lt_mul (Nat.two_pow_pos _)]
  · have twice := within [table, table] (by simp)
    rw [(updates_loadavg _).1] at twice
    simp only [List.map_cons, List.map_nil, Nat.ofDigits_cons, Nat.ofDigits_nil, List.length_cons,
      List.length_nil] at twice
    omega

/-- Two processes that are ready at two calls in a row make an average of three. -/
theorem loadavg_over : let table : ProcId → ProcState := fun p => if p.val < 2 then .runnable else .unused
    ([table, table].map runnable = [2, 2] ∧ (updates [table, table]).loadavg = 3) ∧
      ¬((∀ tables, (updates tables).loadavg.toNat ≤ largest (tables.map runnable)) ∧
        ∀ table tables, (∀ other ∈ tables, runnable other = runnable table) →
          (updates tables).loadavg.toNat ≤ runnable table) := by
  intro table
  have counts : [table, table].map runnable = [2, 2] := by decide +kernel
  have value : (updates [table, table]).loadavg = 3 := by decide +kernel
  refine ⟨⟨counts, value⟩, fun ⟨within, _⟩ => ?_⟩
  have most := within [table, table]
  rw [counts, value] at most
  exact absurd most (by decide)

end Loadavg

end Xv6.Sysinfo
