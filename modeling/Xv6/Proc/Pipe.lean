import Xv6.Lib.Cyclic
import Xv6.Proc.Devices

namespace Xv6
open Threads Function

namespace Pipe

variable {pi : Pipe} {a b : UInt32} {j n : Nat} {ch : UInt8}

theorem index_add : (index (a + UInt32.ofNat j)).val = (a.toNat + j) % PIPESIZE := by
  simp only [index, PIPESIZE, UInt32.toNat_add, UInt32.toNat_ofNat']
  omega

theorem nwrite_eq (pi : Pipe) : pi.nwrite = pi.nread + UInt32.ofNat (pi.nwrite - pi.nread).toNat := by
  rw [UInt32.ofNat_toNat, UInt32.add_comm, UInt32.sub_add_cancel]

/-- A pipe is full exactly when it holds `PIPESIZE` bytes. -/
theorem Fifo.count_lt (h : pi.Fifo) (room : pi.full = false) : (pi.nwrite - pi.nread).toNat < PIPESIZE := by
  refine Nat.lt_of_le_of_ne h.bound fun all => ?_
  have eq := nwrite_eq pi
  rw [all] at eq
  simp only [full, decide_eq_false_iff_not] at room
  exact room eq

theorem count_put (h : (pi.nwrite - pi.nread).toNat < PIPESIZE) :
    ((pi.put ch).nwrite - (pi.put ch).nread).toNat = (pi.nwrite - pi.nread).toNat + 1 := by
  have size : PIPESIZE = 512 := rfl
  have first := pi.nread.toNat_lt
  have second := pi.nwrite.toNat_lt
  simp only [put, UInt32.toNat_sub, UInt32.toNat_add, size] at h ⊢
  rw [show (1 : UInt32).toNat = 1 from rfl]
  omega

theorem ring_eq (pi : Pipe) :
    pi.ring = Cyclic.queue (by decide) pi.data pi.nread.toNat (pi.nwrite - pi.nread).toNat :=
  List.map_congr_left fun _ _ => congrArg pi.data (Fin.ext index_add)

theorem ring_put (h : (pi.nwrite - pi.nread).toNat < PIPESIZE) : (pi.put ch).ring = pi.ring ++ [ch] := by
  have last : index pi.nwrite = Cyclic.place (by decide) (pi.nread.toNat + (pi.nwrite - pi.nread).toNat) := by
    rw [nwrite_eq pi]
    exact Fin.ext (by rw [index_add, ← nwrite_eq]; rfl)
  rw [ring_eq, ring_eq, count_put h, ← Cyclic.queue_put h, ← last]
  rfl

theorem Fifo.put (h : pi.Fifo) (room : pi.full = false) : (pi.put ch).Fifo where
  bound := by
    rw [count_put (h.count_lt room)]
    exact h.count_lt room
  order kept := by
    rw [ring_put (h.count_lt room), ← List.append_assoc]
    exact congrArg (· ++ [ch]) (h.order kept)

theorem count_take (some : pi.empty = false) :
    (pi.nwrite - pi.nread).toNat = (pi.nwrite - (pi.nread + 1)).toNat + 1 := by
  have different : pi.nread ≠ pi.nwrite := by simpa [empty] using some
  have apart : pi.nread.toNat ≠ pi.nwrite.toNat := fun same => different (UInt32.toNat_inj.mp same)
  have first := pi.nread.toNat_lt
  have second := pi.nwrite.toNat_lt
  simp only [UInt32.toNat_sub, UInt32.toNat_add]
  rw [show (1 : UInt32).toNat = 1 from rfl]
  omega

theorem ring_take (some : pi.empty = false) :
    pi.ring = pi.data (index pi.nread) :: { pi with nread := pi.nread + 1 }.ring := by
  have next : (pi.nread + 1).toNat = (pi.nread.toNat + 1) % 2 ^ 32 := by rw [UInt32.toNat_add]; rfl
  rw [ring_eq, ring_eq, count_take some, Cyclic.queue_take, next, Cyclic.queue_mod (by decide)]
  rfl

/-- Taking a byte out and delivering it. -/
theorem Fifo.take (h : pi.Fifo) (some : pi.empty = false) :
    { pi with nread := pi.nread + 1, delivered := pi.delivered ++ [pi.data (index pi.nread)] }.Fifo where
  bound := by
    have := h.bound
    rw [count_take some] at this
    exact Nat.le_of_succ_le this
  order kept := by
    have order := h.order kept
    rw [ring_take some] at order
    rw [← order, List.append_assoc]
    rfl

/-- Taking a byte out and losing it. -/
theorem Fifo.lose (h : pi.Fifo) (some : pi.empty = false) :
    { pi with nread := pi.nread + 1, lost := true }.Fifo where
  bound := by
    have := h.bound
    rw [count_take some] at this
    exact Nat.le_of_succ_le this
  order kept := (by cases kept)

theorem pipealloc_fifo : pipealloc.Fifo := ⟨Nat.zero_le _, fun _ => by simp [pipealloc, ring]⟩

end Pipe

end Xv6
