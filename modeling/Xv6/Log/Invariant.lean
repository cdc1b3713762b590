import Xv6.Log.Machine
import Xv6.Lib.Handles
import Mathlib.Data.List.Basic
import Mathlib.Data.List.Nodup
import Mathlib.Tactic.ByContra

namespace Xv6
open Threads

/-- A block outside the log area, whose number fits a header entry. -/
def Home (start size n : Nat) : Prop := (n < start ∨ start + size ≤ n) ∧ n < 2 ^ 32

instance (start size n : Nat) : Decidable (Home start size n) := inferInstanceAs (Decidable (_ ∧ _))

/-- A header that `write_head` may write and `read_head` may find: distinct home blocks, with
a slot in the log area for each. -/
structure HeaderOk (start size : Nat) (lh : List Nat) : Prop where
  nodup : lh.Nodup
  short : lh.length ≤ LOGSIZE
  slots : ∀ tail < lh.length, tail + 1 < size
  home : ∀ n ∈ lh, Home start size n

/-- What a reader of the file system sees in a block: the last logged bytes while the
block waits to be installed, else the bytes on disk. -/
def LogState.content (s : LogState) (n : Nat) : Block :=
  if n ∈ s.pinned then s.logged n else s.disk n

/-- The log part of the invariant. -/
structure LogInv (s : LogState) : Prop where
  header : HeaderOk s.log.start s.log.size s.log.lh
  pinned : s.pinned <:+ s.log.lh
  installed : s.recovering = false → ∀ n ∈ s.log.lh, n ∉ s.pinned → s.disk n = s.logged n
  outstanding : s.log.outstanding = s.ops.length
  committing : s.log.committing = (s.owner.isSome && !s.recovering)
  booting : s.recovering = true → s.owner ≠ none
  quiet : s.owner ≠ none → s.ops = []
  waiting : s.owner = none → s.pinned = s.log.lh

/-- Nobody commits or recovers while a process is between `begin_op` and `end_op`. -/
theorem LogInv.noOwner {s : LogState} {t : Pid} (inv : LogInv s) (member : t ∈ s.ops) :
    s.owner = none ∧ s.recovering = false := by
  have free : s.owner = none := by
    by_contra busy
    rw [inv.quiet busy] at member
    simp at member
  refine ⟨free, ?_⟩
  by_contra recovering
  exact inv.booting (by simpa using recovering) free

/-- What holds of the cache and the log between any two steps. -/
structure BufInv (s : LogState) : Prop extends LogInv s where
  ring : ∀ b, b ∈ s.ring
  unique : ∀ b b', (s.buf b).dev = ROOTDEV → (s.buf b').dev = ROOTDEV →
    (s.buf b).blockno = (s.buf b').blockno → b = b'
  refs : ∀ b, (s.buf b).refcnt = (s.users b).length +
    if (s.buf b).dev = ROOTDEV ∧ (s.buf b).blockno ∈ s.pinned then 1 else 0
  device : ∀ b t, t ∈ s.users b → (s.buf b).dev = ROOTDEV
  locker : ∀ b t, (s.buf b).locked = some t → t ∈ s.users b
  cached : ∀ n ∈ s.pinned, ∃ b, (s.buf b).dev = ROOTDEV ∧ (s.buf b).blockno = n ∧
    (s.buf b).valid = true
  coherent : ∀ b, (s.buf b).dev = ROOTDEV → (s.buf b).valid = true → s.dirty b = false →
    (s.buf b).data = s.content (s.buf b).blockno
  dirtyLocked : ∀ b, s.dirty b = true → (s.buf b).valid = true ∧
    ∃ t, (s.buf b).locked = some t ∧ (t ∈ s.ops ∨ s.owner = some t)

/-- What the process inside `commit()` or `recover_from_log()` knows, nobody else writing
to the disk or to the log header. -/
@[ext] structure Seen where
  disk : Nat → Block
  lh : List Nat
  pinned : List Nat
  logged : Nat → Block
  ops : List Pid

/-- What a process may rely on between its steps: its references and the blocks they
stand for, the buffers it has locked with their `valid`, bytes and unlogged changes, and
its part in the log. -/
@[ext] structure BufView extends Handles BufId Nat (Bool × Block × Bool) where
  op : Nat
  owner : Bool
  recovering : Bool
  start : Nat
  size : Nat
  sees : Option Seen

def LogState.seen (s : LogState) : Seen := ⟨s.disk, s.log.lh, s.pinned, s.logged, s.ops⟩

/-- With `solo` the process runs alone and sees the disk and the log at any time. -/
def LogState.view (solo : Bool) (t : Pid) (s : LogState) : BufView where
  mine b := (s.users b).count t
  key b := if t ∈ s.users b then some (s.buf b).blockno else none
  held b := if (s.buf b).locked = some t then
    some ((s.buf b).valid, (s.buf b).data, s.dirty b) else none
  op := s.ops.count t
  owner := s.owner = some t
  recovering := s.recovering ∧ s.owner = some t
  start := s.log.start
  size := s.log.size
  sees := if solo ∨ s.owner = some t then some s.seen else none

/-- The panics that the invariant does not exclude: neither the size of a transaction nor
the number of buffers in use is bounded here. -/
def bufPanics : List String := ["bget: no buffers", "too big a transaction"]

/-- What is owed before a step. Only `commit()` and `recover_from_log()` write to the disk,
`write_log` writes to a log slot the bytes of the last `log_write`, and at the end of `commit()`
the log is empty. -/
def LogState.Owed (s : LogState) (t : Pid) : BufAct → Prop
  | .bwrite b => s.owner = some t ∧ (s.recovering = false → ∀ tail n,
    (s.buf b).blockno = s.log.start + tail + 1 → s.log.lh[tail]? = some n → (s.buf b).data = s.logged n)
  | .endCommit => s.owner = some t ∧ s.log.lh = []
  | _ => True

/-- Until `initlog` returns, only the process that runs it does. -/
def Scheduled (t : Pid) (_ : BufAct) (s : LogState) : Prop := s.recovering = true → s.owner = some t

instance (t : Pid) (a : BufAct) (s : LogState) : Decidable (Scheduled t a s) :=
  inferInstanceAs (Decidable (_ → _))

/-- `crashable` is kept of the disk at every step. -/
def bufOutline (solo : Bool) (crashable : (Nat → Block) → Prop) :
    Outline Pid LogState BufView BufAct where
  inv s := BufInv s ∧ crashable s.disk
  view := LogState.view solo
  guar t before after := solo = false →
    ∀ other, other ≠ t → after.view false other = before.view false other
  allowed := Scheduled
  owes t a s := s.Owed t a
  mayPanic _ _ _ message := message ∈ bufPanics

namespace LogState

variable {s : LogState} {other : Pid} {b : BufId}

/-- A step of another process that leaves alone what this one refers to, has locked and
owns changes nothing of its view. -/
theorem view_eq {s' : LogState}
    (mine : ∀ b, (s'.users b).count other = (s.users b).count other)
    (key : ∀ b, other ∈ s.users b → (s'.buf b).blockno = (s.buf b).blockno)
    (locked : ∀ b, (s'.buf b).locked = some other ↔ (s.buf b).locked = some other)
    (held : ∀ b, (s.buf b).locked = some other → (s'.buf b).valid = (s.buf b).valid ∧
      (s'.buf b).data = (s.buf b).data ∧ s'.dirty b = s.dirty b)
    (op : s'.ops.count other = s.ops.count other)
    (owner : s'.owner = some other ↔ s.owner = some other)
    (mode : s'.recovering = true ∧ s'.owner = some other ↔ s.recovering = true ∧ s.owner = some other)
    (area : s'.log.start = s.log.start ∧ s'.log.size = s.log.size)
    (seen : s.owner = some other → s'.seen = s.seen) :
    s'.view false other = s.view false other := by
  have member : ∀ b, other ∈ s'.users b ↔ other ∈ s.users b := fun b => by
    rw [← List.count_pos_iff, mine, List.count_pos_iff]
  refine BufView.ext (funext mine) (funext fun b => ?_) (funext fun b => ?_) op (by simp [view, owner])
    (by simp only [view, mode]) area.1 area.2 ?_
  · simp only [view, member]
    split
    · next inside => rw [key b inside]
    · rfl
  · simp only [view, locked]
    split
    · next mineB =>
      obtain ⟨valid, data, dirty⟩ := held b mineB
      rw [valid, data, dirty]
    · rfl
  · simp only [view, owner, Bool.false_eq_true, false_or]
    split
    · next mineO => rw [seen mineO]
    · rfl

/-- A process does not notice a store to a buffer that keeps what it refers to and has
locked there. -/
theorem view_put_other {s' : LogState} {new : Buf} {users : List Pid} {dirty : Bool}
    (buf : s'.buf = (s.put b new users dirty).buf) (usersEq : s'.users = (s.put b new users dirty).users)
    (dirtyEq : s'.dirty = (s.put b new users dirty).dirty)
    (mine : users.count other = (s.users b).count other)
    (key : other ∈ s.users b → new.blockno = (s.buf b).blockno)
    (locked : new.locked = some other ↔ (s.buf b).locked = some other)
    (held : (s.buf b).locked = some other →
      new.valid = (s.buf b).valid ∧ new.data = (s.buf b).data ∧ dirty = s.dirty b)
    (op : s'.ops.count other = s.ops.count other)
    (owner : s'.owner = some other ↔ s.owner = some other)
    (mode : s'.recovering = true ∧ s'.owner = some other ↔ s.recovering = true ∧ s.owner = some other)
    (area : s'.log.start = s.log.start ∧ s'.log.size = s.log.size)
    (seen : s.owner = some other → s'.seen = s.seen) :
    s'.view false other = s.view false other := by
  refine view_eq (fun x => ?_) (fun x inside => ?_) (fun x => ?_) (fun x mineX => ?_) op owner mode area seen
  · rw [usersEq]
    by_cases atX : x = b
    · subst atX; simpa [put] using mine
    · simp [put, atX]
  · rw [buf]
    by_cases atX : x = b
    · subst atX; simpa [put] using key inside
    · simp [put, atX]
  · rw [buf]
    by_cases atX : x = b
    · subst atX; simpa [put] using locked
    · simp [put, atX]
  · rw [buf, dirtyEq]
    by_cases atX : x = b
    · subst atX; simpa [put] using held mineX
    · simp [put, atX]

/-- What a process sees of its own store. -/
theorem view_put {solo : Bool} {t : Pid} {new : Buf} {users : List Pid} {dirty : Bool} :
    (s.put b new users dirty).view solo t =
      { s.view solo t with
        mine := Function.update (s.view solo t).mine b (users.count t)
        key := Function.update (s.view solo t).key b (if t ∈ users then some new.blockno else none)
        held := Function.update (s.view solo t).held b
          (if new.locked = some t then some (new.valid, new.data, dirty) else none) } := by
  refine BufView.ext (funext fun x => ?_) (funext fun x => ?_) (funext fun x => ?_) rfl rfl rfl rfl rfl rfl
  all_goals by_cases atX : x = b
  all_goals simp [view, put, atX]

theorem lookup_some {dev n : Nat} (found : s.lookup dev n = some b) :
    (s.buf b).dev = dev ∧ (s.buf b).blockno = n := by
  have := List.find?_some found
  simpa using this

theorem lookup_none {dev n : Nat} (ring : ∀ b, b ∈ s.ring) (missing : s.lookup dev n = none) (b : BufId) :
    ¬ ((s.buf b).dev = dev ∧ (s.buf b).blockno = n) := by
  have := List.find?_eq_none.mp missing b (ring b)
  simpa using this

theorem lru_some (found : s.lru = some b) : (s.buf b).refcnt = 0 := by
  have := List.find?_some found
  simpa using this

end LogState

namespace BufInv

variable {s s' : LogState} {t : Pid} {b : BufId} {n : Nat} {d : Block}

/-- A step that changes one buffer, and the pins and contents of its block only, has to
be checked at that buffer. -/
theorem change (inv : BufInv s) (log : LogInv s') (ring : ∀ x, x ∈ s'.ring)
    (elsewhere : ∀ x, x ≠ b → s'.buf x = s.buf x ∧ s'.users x = s.users x ∧ s'.dirty x = s.dirty x)
    (running : ∀ x t, x ≠ b → s.dirty x = true → (s.buf x).locked = some t →
      t ∈ s.ops ∨ s.owner = some t → t ∈ s'.ops ∨ s'.owner = some t)
    (others : ∀ x, x ≠ b → (s.buf x).dev = ROOTDEV →
      ((s.buf x).blockno ∈ s'.pinned ↔ (s.buf x).blockno ∈ s.pinned) ∧
        s'.content (s.buf x).blockno = s.content (s.buf x).blockno)
    (alone : ∀ x, x ≠ b → (s.buf x).dev = ROOTDEV → (s'.buf b).dev = ROOTDEV →
      (s.buf x).blockno ≠ (s'.buf b).blockno)
    (refs : (s'.buf b).refcnt = (s'.users b).length +
      if (s'.buf b).dev = ROOTDEV ∧ (s'.buf b).blockno ∈ s'.pinned then 1 else 0)
    (device : ∀ t, t ∈ s'.users b → (s'.buf b).dev = ROOTDEV)
    (locker : ∀ t, (s'.buf b).locked = some t → t ∈ s'.users b)
    (cached : ∀ n ∈ s'.pinned, n ∉ s.pinned ∨ (s.buf b).dev = ROOTDEV ∧ (s.buf b).blockno = n →
      (s'.buf b).dev = ROOTDEV ∧ (s'.buf b).blockno = n ∧ (s'.buf b).valid = true)
    (coherent : (s'.buf b).dev = ROOTDEV → (s'.buf b).valid = true → s'.dirty b = false →
      (s'.buf b).data = s'.content (s'.buf b).blockno)
    (dirtyLocked : s'.dirty b = true → (s'.buf b).valid = true ∧
      ∃ t, (s'.buf b).locked = some t ∧ (t ∈ s'.ops ∨ s'.owner = some t)) : BufInv s' where
  toLogInv := log
  ring := ring
  unique x y := by
    by_cases atX : x = b <;> by_cases atY : y = b
    · exact fun _ _ _ => atX.trans atY.symm
    · subst atX
      rw [(elsewhere y atY).1]
      exact fun devX devY same => absurd same.symm (alone y atY devY devX)
    · subst atY
      rw [(elsewhere x atX).1]
      exact fun devX devY same => absurd same (alone x atX devX devY)
    · rw [(elsewhere x atX).1, (elsewhere y atY).1]
      exact inv.unique x y
  refs x := by
    by_cases atX : x = b
    · exact atX ▸ refs
    · obtain ⟨buf, users, _⟩ := elsewhere x atX
      have pins := fun dev => (others x atX dev).1
      rw [buf, users, inv.refs x]
      grind
  device x t := by
    by_cases atX : x = b
    · exact atX ▸ device t
    · rw [(elsewhere x atX).1, (elsewhere x atX).2.1]
      exact inv.device x t
  locker x t := by
    by_cases atX : x = b
    · exact atX ▸ locker t
    · rw [(elsewhere x atX).1, (elsewhere x atX).2.1]
      exact inv.locker x t
  cached n member := by
    by_cases here : n ∉ s.pinned ∨ (s.buf b).dev = ROOTDEV ∧ (s.buf b).blockno = n
    · exact ⟨b, cached n member here⟩
    · rw [not_or, not_not] at here
      obtain ⟨x, dev, blockno, valid⟩ := inv.cached n here.1
      have atX : x ≠ b := fun same => here.2 (same ▸ ⟨dev, blockno⟩)
      exact ⟨x, by rw [(elsewhere x atX).1]; exact ⟨dev, blockno, valid⟩⟩
  coherent x dev valid clean := by
    by_cases atX : x = b
    · subst atX; exact coherent dev valid clean
    · obtain ⟨buf, _, dirty⟩ := elsewhere x atX
      rw [buf] at dev valid ⊢
      rw [(others x atX dev).2]
      exact inv.coherent x dev valid (dirty ▸ clean)
  dirtyLocked x dirty := by
    by_cases atX : x = b
    · subst atX; exact dirtyLocked dirty
    · obtain ⟨buf, _, same⟩ := elsewhere x atX
      rw [same] at dirty
      obtain ⟨valid, t, locked, runs⟩ := inv.dirtyLocked x dirty
      rw [buf]
      exact ⟨valid, t, locked, running x t atX dirty locked runs⟩

/-- The case of a step that stores one buffer and does nothing else. -/
theorem put (inv : BufInv s) (b : BufId) (new : Buf) (users : List Pid) (dirty : Bool)
    (alone : ∀ x, x ≠ b → (s.buf x).dev = ROOTDEV → new.dev = ROOTDEV →
      (s.buf x).blockno ≠ new.blockno)
    (refs : new.refcnt = users.length + if new.dev = ROOTDEV ∧ new.blockno ∈ s.pinned then 1 else 0)
    (device : ∀ t, t ∈ users → new.dev = ROOTDEV)
    (locker : ∀ t, new.locked = some t → t ∈ users)
    (cached : (s.buf b).dev = ROOTDEV → (s.buf b).blockno ∈ s.pinned →
      new.dev = ROOTDEV ∧ new.blockno = (s.buf b).blockno ∧ new.valid = true)
    (coherent : new.dev = ROOTDEV → new.valid = true → dirty = false → new.data = s.content new.blockno)
    (dirtyLocked : dirty = true → new.valid = true ∧
      ∃ t, new.locked = some t ∧ (t ∈ s.ops ∨ s.owner = some t)) :
    BufInv (s.put b new users dirty) := by
  refine inv.change (b := b) { inv.toLogInv with } inv.ring ?_ (fun _ _ _ _ _ runs => runs)
    (fun _ _ _ => ⟨Iff.rfl, rfl⟩) ?_ ?_ ?_ ?_ ?_ ?_ ?_
  · intro x atX
    simp [LogState.put, atX]
  · simpa [LogState.put] using alone
  · simpa [LogState.put] using refs
  · simpa [LogState.put] using device
  · simpa [LogState.put] using locker
  · rintro n member (fresh | ⟨dev, rfl⟩)
    · exact absurd member fresh
    · simpa [LogState.put] using cached dev member
  · simpa [LogState.put, LogState.content] using coherent
  · simpa [LogState.put] using dirtyLocked

/-- No other buffer stands for the same block. -/
theorem alone (inv : BufInv s) (x : BufId) (different : x ≠ b) (devX : (s.buf x).dev = ROOTDEV)
    (dev : (s.buf b).dev = ROOTDEV) : (s.buf x).blockno ≠ (s.buf b).blockno :=
  fun same => different (inv.unique x b devX dev same)

theorem valid_of_pinned (inv : BufInv s) (dev : (s.buf b).dev = ROOTDEV)
    (pinned : (s.buf b).blockno ∈ s.pinned) : (s.buf b).valid = true := by
  obtain ⟨x, devX, blockno, valid⟩ := inv.cached _ pinned
  exact inv.unique x b devX dev blockno ▸ valid

/-- A buffer nobody refers to is neither pinned nor locked nor modified. -/
theorem unreferenced (inv : BufInv s) (free : (s.buf b).refcnt = 0) :
    s.users b = [] ∧ ¬ ((s.buf b).dev = ROOTDEV ∧ (s.buf b).blockno ∈ s.pinned) ∧
      (s.buf b).locked = none ∧ s.dirty b = false := by
  have refs := inv.refs b
  rw [free] at refs
  have users : s.users b = [] := List.eq_nil_of_length_eq_zero (by omega)
  have unlocked : (s.buf b).locked = none := by
    by_contra locked
    obtain ⟨t, atT⟩ := Option.ne_none_iff_exists'.mp locked
    have := inv.locker b t atT
    simp [users] at this
  refine ⟨users, fun pinned => by simp [if_pos pinned] at refs, unlocked, ?_⟩
  by_contra dirty
  obtain ⟨_, t, locked, _⟩ := inv.dirtyLocked b (by simpa using dirty)
  simp [unlocked] at locked

end BufInv

end Xv6
