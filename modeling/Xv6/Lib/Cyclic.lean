import Mathlib.Data.List.Basic
import Mathlib.Data.List.Nodup
import Mathlib.Data.List.Range
import Mathlib.Data.Nat.ModEq
import Mathlib.Data.UInt
import Mathlib.Logic.Function.Basic

/-! Queues in a cyclic buffer, between two counters that are only ever increased and may wrap around. -/

namespace Cyclic
open Function (update)

variable {α : Type} {size m r n : Nat} {buf : Fin size → α} {c : α}

/-- The cell of a counter. -/
def place (positive : 0 < size) (n : Nat) : Fin size := ⟨n % size, Nat.mod_lt _ positive⟩

/-- The contents of so many cells, from that of a counter on. -/
def queue (positive : 0 < size) (buf : Fin size → α) (r n : Nat) : List α :=
  (List.range n).map fun j => buf (place positive (r + j))

variable {positive : 0 < size}

theorem place_mod (divides : size ∣ m) (a : Nat) : place positive (a % m) = place positive a :=
  Fin.ext (Nat.mod_mod_of_dvd a divides)

/-- A counter that wraps around at a multiple of the size is as good as one that does not. -/
theorem queue_mod (divides : size ∣ m) (a n : Nat) :
    queue positive buf (a % m) n = queue positive buf a n := by
  refine List.map_congr_left fun j _ => congrArg buf (Fin.ext ?_)
  have same : a % m % size = a % size := Nat.mod_mod_of_dvd a divides
  show (a % m + j) % size = (a + j) % size
  rw [Nat.add_mod, same, ← Nat.add_mod]

theorem queue_put (room : n < size) :
    queue positive (update buf (place positive (r + n)) c) r (n + 1) = queue positive buf r n ++ [c] := by
  unfold queue
  rw [List.range_succ, List.map_append, List.map_singleton, Function.update_self]
  refine congrArg (· ++ [c]) (List.map_congr_left fun j member => Function.update_of_ne (fun same => ?_) ..)
  -- Two places less than the size apart are not the same.
  have less := List.mem_range.mp member
  have values : r + j ≡ r + n [MOD size] := congrArg Fin.val same
  have equal := (Nat.ModEq.add_left_cancel' r values).eq_of_lt_of_lt (Nat.lt_trans less room) room
  exact Nat.ne_of_lt less equal

theorem queue_take : queue positive buf r (n + 1) = buf (place positive r) ::
    queue positive buf (r + 1) n := by
  unfold queue
  rw [List.range_succ_eq_map, List.map_cons, List.map_map]
  refine congrArg (List.cons _) (List.map_congr_left fun j _ => congrArg (fun k => buf (place positive k)) ?_)
  show r + (j + 1) = r + 1 + j
  omega

theorem queue_length : (queue positive buf r n).length = n := by
  rw [queue, List.length_map, List.length_range]

end Cyclic

/-- A queue in the slots of a ring of `n` entries that two wrapping counters run over: `first` counts what has
been taken out and `last` what has been put in. -/
structure RingQueue (n : Nat) (ring : Nat → Nat) (first last : UInt16) (queue : List Nat) : Prop where
  last_eq : last = first + UInt16.ofNat queue.length
  slots : ∀ j (bound : j < queue.length), ring ((first.toNat + j) % n) = queue[j]
  fits : queue.length ≤ n

namespace RingQueue

variable {n h : Nat} {ring : Nat → Nat} {first last : UInt16} {queue : List Nat}

theorem empty : RingQueue n ring first first [] := ⟨by simp, by simp, Nat.zero_le _⟩

/-- A wrapping counter and the number it stands for name the same slot. -/
theorem toNat_add (divides : n ∣ 2 ^ 16) (j : Nat) :
    (first + UInt16.ofNat j).toNat % n = (first.toNat + j) % n := by
  rw [UInt16.toNat_add, UInt16.toNat_ofNat', Nat.mod_mod_of_dvd _ divides, Nat.add_mod,
    Nat.mod_mod_of_dvd _ divides, ← Nat.add_mod]

theorem last_slot (q : RingQueue n ring first last queue) (divides : n ∣ 2 ^ 16) :
    last.toNat % n = (first.toNat + queue.length) % n := by
  rw [q.last_eq, toNat_add divides]

/-- The distance of the counters is the length of the queue. -/
theorem distance (q : RingQueue n ring first last queue) (small : n < 2 ^ 16) :
    (last - first).toNat = queue.length := by
  have fits := q.fits
  have same : last - first = UInt16.ofNat queue.length := by
    rw [q.last_eq, UInt16.add_comm, UInt16.add_sub_cancel]
  rw [same, UInt16.toNat_ofNat', Nat.mod_eq_of_lt (by omega)]

theorem eq_iff (q : RingQueue n ring first last queue) (small : n < 2 ^ 16) : first = last ↔ queue = [] := by
  have distance := q.distance small
  constructor
  · rintro rfl
    exact List.eq_nil_of_length_eq_zero (by simpa using distance.symm)
  · intro none
    rw [q.last_eq, none]
    simp

theorem head (q : RingQueue n ring first last (h :: queue)) : ring (first.toNat % n) = h := by
  have first := q.slots 0 (by simp)
  rwa [List.getElem_cons_zero, Nat.add_zero] at first

theorem pop (q : RingQueue n ring first last (h :: queue)) (divides : n ∣ 2 ^ 16) :
    RingQueue n ring (first + 1) last queue := by
  have fits := q.fits
  simp only [List.length_cons] at fits
  refine ⟨?_, fun j bound => ?_, by omega⟩
  · rw [q.last_eq, List.length_cons, UInt16.ofNat_add, UInt16.add_assoc, UInt16.add_comm 1]
    rfl
  · have next := q.slots (j + 1) (by simpa using bound)
    have one : (first + 1).toNat % n = (first.toNat + 1) % n := toNat_add divides 1
    rw [Nat.add_mod, one, ← Nat.add_mod, Nat.add_assoc, Nat.add_comm 1 j]
    simpa using next

/-- Different places in a queue that is not full are in different slots. -/
theorem slot_ne (room : queue.length < n) {j : Nat} (bound : j < queue.length) :
    (first.toNat + j) % n ≠ (first.toNat + queue.length) % n := by
  intro same
  have far : (queue.length - j) % n = 0 := by
    have := Nat.sub_mod_eq_zero_of_mod_eq same.symm
    rwa [show first.toNat + queue.length - (first.toNat + j) = queue.length - j by omega] at this
  rw [Nat.mod_eq_of_lt (by omega)] at far
  omega

theorem push (q : RingQueue n ring first last queue) (divides : n ∣ 2 ^ 16)
    (room : queue.length < n) (h : Nat) :
    RingQueue n (Function.update ring (last.toNat % n) h) first (last + 1) (queue ++ [h]) := by
  refine ⟨?_, fun j bound => ?_, by simp; omega⟩
  · rw [q.last_eq, List.length_append, List.length_singleton, UInt16.ofNat_add, UInt16.add_assoc]
    rfl
  · rw [q.last_slot divides]
    by_cases old : j < queue.length
    · rw [Function.update_of_ne (slot_ne room old), List.getElem_append_left old]
      exact q.slots j old
    · have atEnd : j = queue.length := by
        simp only [List.length_append, List.length_singleton] at bound
        omega
      subst atEnd
      simp

/-- A store to the slot after the last entry keeps the queue. -/
theorem store (q : RingQueue n ring first last queue) (divides : n ∣ 2 ^ 16)
    (room : queue.length < n) (h : Nat) :
    RingQueue n (Function.update ring (last.toNat % n) h) first last queue := by
  refine ⟨q.last_eq, fun j bound => ?_, q.fits⟩
  rw [q.last_slot divides, Function.update_of_ne (slot_ne room bound)]
  exact q.slots j bound

/-- The entry after the last has been stored before the counter moves on. -/
theorem bump (q : RingQueue n ring first last queue) (divides : n ∣ 2 ^ 16) (room : queue.length < n)
    (stored : ring (last.toNat % n) = h) : RingQueue n ring first (last + 1) (queue ++ [h]) := by
  have same : Function.update ring (last.toNat % n) h = ring := by
    rw [← stored, Function.update_eq_self]
  exact same ▸ q.push divides room h

end RingQueue

/-- Distinct numbers below a bound are no more than it. -/
theorem List.Nodup.length_le_of_lt {n : Nat} {l : List Nat} (nodup : l.Nodup) (small : ∀ x ∈ l, x < n) :
    l.length ≤ n := by
  have inside : l ⊆ List.range n := fun x member => List.mem_range.mpr (small x member)
  simpa using (List.subperm_of_subset nodup inside).length_le
