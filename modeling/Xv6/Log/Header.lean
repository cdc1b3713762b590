import Xv6.Params
import Xv6.Lib.Bytes

namespace Xv6

/-- The contents of one disk block. -/
abbrev Block := Bytes

/-- `struct log` of kernel/log.c. `lh` lists `lh.block[0..lh.n)`; the lock is implicit,
each function below being one critical section under it. -/
structure Log where
  start : Nat
  size : Nat
  outstanding : Int
  committing : Bool
  lh : List Nat

namespace Log

/-- One round of `begin_op`: admitted, or put to sleep until the next wakeup. -/
def beginOp (log : Log) : Option Log :=
  if log.committing then none
  else if (log.lh.length : Int) + (log.outstanding + 1) * MAXOPBLOCKS > LOGSIZE then none
  else some { log with outstanding := log.outstanding + 1 }

/-- `log_write`, returning whether the buffer gets pinned. -/
def logWrite (log : Log) (blockno : Nat) : Except String (Log × Bool) :=
  if log.lh.length ≥ LOGSIZE ∨ (log.lh.length : Int) ≥ (log.size : Int) - 1 then
    .error "too big a transaction"
  else if log.outstanding < 1 then .error "log_write outside of trans"
  else if blockno ∈ log.lh then .ok (log, false)  -- log absorption
  else .ok ({ log with lh := log.lh ++ [blockno] }, true)

/-- The first critical section of `end_op`, returning `do_commit`. -/
def endOp (log : Log) : Except String (Log × Bool) :=
  if log.committing then .error "log.committing"
  else if log.outstanding - 1 = 0 then
    .ok ({ log with outstanding := log.outstanding - 1, committing := true }, true)
  else .ok ({ log with outstanding := log.outstanding - 1 }, false)

/-- The last critical section of `end_op`. -/
def endCommit (log : Log) : Log := { log with committing := false }

theorem beginOp_eq_some {log log' : Log} (run : log.beginOp = some log') :
    log.committing = false ∧ (log.lh.length : Int) + (log.outstanding + 1) * 10 ≤ 30 ∧
      log' = { log with outstanding := log.outstanding + 1 } := by
  unfold beginOp at run
  split at run
  · cases run
  · next idle =>
    split at run
    · cases run
    · next room =>
      have room' : (log.lh.length : Int) + (log.outstanding + 1) * 10 ≤ 30 := Int.not_lt.mp room
      exact ⟨by simpa using idle, room', (Option.some.inj run).symm⟩

theorem logWrite_eq_ok {log log' : Log} {blockno : Nat} {pin : Bool}
    (run : log.logWrite blockno = .ok (log', pin)) :
    log.lh.length < LOGSIZE ∧ (log.lh.length : Int) < log.size - 1 ∧ 1 ≤ log.outstanding ∧
      (blockno ∈ log.lh ∧ log' = log ∧ pin = false ∨
        blockno ∉ log.lh ∧ log' = { log with lh := log.lh ++ [blockno] } ∧ pin = true) := by
  unfold logWrite at run
  split at run
  · cases run
  · next fits =>
    split at run
    · cases run
    · next inside =>
      refine ⟨by omega, by omega, by omega, ?_⟩
      split at run
      · next member => cases run; exact .inl ⟨member, rfl, rfl⟩
      · next fresh => cases run; exact .inr ⟨fresh, rfl, rfl⟩

theorem logWrite_eq_error {log : Log} {blockno : Nat} {message : String}
    (run : log.logWrite blockno = .error message) :
    message = "too big a transaction" ∧
        (LOGSIZE ≤ log.lh.length ∨ (log.size : Int) - 1 ≤ log.lh.length) ∨
      message = "log_write outside of trans" ∧ log.outstanding < 1 := by
  unfold logWrite at run
  split at run
  · next full => cases run; exact .inl ⟨rfl, full⟩
  · split at run
    · next outside => cases run; exact .inr ⟨rfl, outside⟩
    · split at run <;> cases run

theorem endOp_eq_ok {log log' : Log} {last : Bool} (run : log.endOp = .ok (log', last)) :
    log.committing = false ∧
      log' = { log with outstanding := log.outstanding - 1, committing := last } ∧
      (last = true ↔ log.outstanding = 1) := by
  unfold endOp at run
  split at run
  · cases run
  · next idle =>
    have idle : log.committing = false := by simpa using idle
    split at run
    · next last =>
      cases run
      exact ⟨idle, rfl, by simp; omega⟩
    · next more =>
      cases run
      refine ⟨idle, by rw [← idle], ?_⟩
      simp only [Bool.false_eq_true, false_iff]
      omega

theorem endOp_eq_error {log : Log} {message : String} (run : log.endOp = .error message) :
    message = "log.committing" ∧ log.committing = true := by
  unfold endOp at run
  split at run
  · next busy => cases run; exact ⟨rfl, busy⟩
  · split at run <;> cases run

end Log

/-! ## The header block on disk -/

/-- `lh->n` and `lh->block[0..n)` as `read_head` takes them from the header block. A
negative `n` copies nothing. -/
def getHead (head : Block) : List Nat :=
  (List.range (Int.bmod (head.le 0 4) (2 ^ 32)).toNat).map fun i => head.le (4 + 4 * i) 4

/-- Store `hb->block[i..]`. -/
def putBlocks (head : Block) : Nat → List Nat → Block
  | _, [] => head
  | i, blockno :: rest => putBlocks (head.store (4 + 4 * i) 4 blockno) (i + 1) rest

/-- The header block after the assignments of `write_head`. -/
def putHead (head : Block) (lh : List Nat) : Block :=
  putBlocks (head.store 0 4 lh.length) 0 lh

theorem putBlocks_below {head : Block} {i a k : Nat} {lh : List Nat} (below : a + k ≤ 4 + 4 * i) :
    (putBlocks head i lh).le a k = head.le a k := by
  induction lh generalizing head i with
  | nil => rfl
  | cons blockno rest ih =>
    rw [putBlocks, ih (by omega), Bytes.le_store_disjoint (by omega)]

theorem putBlocks_get (head : Block) {i j : Nat} {lh : List Nat} (small : ∀ b ∈ lh, b < 2 ^ 32)
    (bound : j < lh.length) :
    (putBlocks head i lh).le (4 + 4 * (i + j)) 4 = lh[j] := by
  induction lh generalizing head i j with
  | nil => simp at bound
  | cons blockno rest ih =>
    cases j with
    | zero =>
      rw [putBlocks, putBlocks_below (by omega), Nat.add_zero, List.getElem_cons_zero,
        Bytes.le_store_self]
      exact small _ (List.mem_cons_self ..)
    | succ j =>
      have bound' : j < rest.length := by simpa using bound
      have tail := ih (head.store (4 + 4 * i) 4 blockno) (i := i + 1)
        (fun b member => small b (List.mem_cons_of_mem _ member)) bound'
      rw [show i + (j + 1) = i + 1 + j by omega, putBlocks, tail, List.getElem_cons_succ]

theorem getHead_of_count {head : Block} {n : Nat} (count : head.le 0 4 = n) (small : n < 2 ^ 31) :
    getHead head = (List.range n).map fun i => head.le (4 + 4 * i) 4 := by
  have wrap : Int.bmod (n : Int) (2 ^ 32) = n := Int.bmod_eq_of_le (by omega) (by omega)
  simp only [getHead, count, wrap, Int.toNat_natCast]

/-- A header written to disk reads back as the list it was written from. -/
theorem getHead_putHead (head : Block) {lh : List Nat} (short : lh.length < 2 ^ 31)
    (small : ∀ b ∈ lh, b < 2 ^ 32) : getHead (putHead head lh) = lh := by
  have count : (putHead head lh).le 0 4 = lh.length := by
    rw [putHead, putBlocks_below (by omega), Bytes.le_store_self (by omega)]
  rw [getHead_of_count count short]
  refine List.ext_getElem (by simp) fun j left right => ?_
  have entry := putBlocks_get (head.store 0 4 lh.length) (i := 0) small right
  simpa [putHead] using entry

end Xv6
