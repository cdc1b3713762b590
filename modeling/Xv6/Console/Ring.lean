import Mathlib.Algebra.Group.Nat.Defs
import Xv6.Proc.Devices

namespace Xv6
open Function

namespace Cons

/-- The bytes of the ring from one index up to another, oldest first. -/
def span (cons : Cons) (a b : UInt32) : List UInt8 :=
  (List.range (b - a).toNat).map fun j => cons.buf (index (a + UInt32.ofNat j))

/-- The committed bytes that no read has taken out. -/
def unread (cons : Cons) : List UInt8 := cons.span cons.r cons.w

/-- The bytes that can still be edited. -/
def line (cons : Cons) : List UInt8 := cons.span cons.w cons.e

section Span

variable {cons : Cons} {a b c : UInt32} {j k : Nat} {ch : UInt8}

theorem span_length (cons : Cons) (a b : UInt32) : (cons.span a b).length = (b - a).toNat := by simp [span]

theorem add_sub (a b : UInt32) : a + UInt32.ofNat (b - a).toNat = b := by
  rw [UInt32.ofNat_toNat, UInt32.add_comm, UInt32.sub_add_cancel]

theorem span_self (cons : Cons) (a : UInt32) : cons.span a a = [] := by simp [span]

theorem span_eq_nil : cons.span a b = [] ↔ a = b := by
  refine ⟨fun none => ?_, fun same => same ▸ span_self cons a⟩
  have zero : (b - a).toNat = 0 := by rw [← span_length cons, none, List.length_nil]
  have last := add_sub a b
  rw [zero] at last
  simpa using last

theorem distance_head (apart : a ≠ b) : (b - a).toNat = (b - (a + 1)).toNat + 1 := by
  have apart : a.toNat ≠ b.toNat := fun same => apart (UInt32.toNat_inj.mp same)
  have first := a.toNat_lt
  have second := b.toNat_lt
  simp only [UInt32.toNat_sub, UInt32.toNat_add]
  rw [show (1 : UInt32).toNat = 1 from rfl]
  omega

/-- The first byte. -/
theorem span_head (apart : a ≠ b) : cons.span a b = cons.buf (index a) :: cons.span (a + 1) b := by
  unfold span
  rw [distance_head apart, List.range_succ_eq_map, List.map_cons, List.map_map]
  refine congrArg₂ List.cons (by simp) (List.map_congr_left fun j _ => ?_)
  have shift : a + UInt32.ofNat (j + 1) = a + 1 + UInt32.ofNat j := by
    rw [UInt32.ofNat_add, UInt32.add_assoc, UInt32.add_comm (UInt32.ofNat j)]
    rfl
  simp only [Function.comp_apply, Nat.succ_eq_add_one, shift]

theorem distance_last (room : (b - a).toNat + 1 < 2 ^ 32) : (b + 1 - a).toNat = (b - a).toNat + 1 := by
  have first := a.toNat_lt
  have second := b.toNat_lt
  simp only [UInt32.toNat_sub, UInt32.toNat_add] at room ⊢
  rw [show (1 : UInt32).toNat = 1 from rfl]
  omega

/-- The last byte. -/
theorem span_last (room : (b - a).toNat + 1 < 2 ^ 32) :
    cons.span a (b + 1) = cons.span a b ++ [cons.buf (index b)] := by
  unfold span
  rw [distance_last room, List.range_succ, List.map_append, List.map_singleton, add_sub]

/-- A byte after which the distance does not grow. -/
theorem span_append (inside : (b - a).toNat ≤ (c - a).toNat) :
    cons.span a b ++ cons.span b c = cons.span a c := by
  have sum : (c - a).toNat = (b - a).toNat + (c - b).toNat := by
    have first := a.toNat_lt
    have second := b.toNat_lt
    have third := c.toNat_lt
    simp only [UInt32.toNat_sub] at inside ⊢
    omega
  unfold span
  rw [sum, List.range_add, List.map_append, List.map_map]
  refine congrArg _ (List.map_congr_left fun j _ => ?_)
  simp only [Function.comp_apply, UInt32.ofNat_add, ← UInt32.add_assoc, add_sub]

theorem span_congr {cons' : Cons} (same : cons'.buf = cons.buf) : cons'.span a b = cons.span a b := by
  unfold span
  rw [same]

/-- A store to the slot after the bytes leaves them alone. -/
theorem span_store (room : (b - a).toNat < INPUT_BUF_SIZE) (cons' : Cons)
    (stored : cons'.buf = update cons.buf (index b) ch) : cons'.span a b = cons.span a b := by
  unfold span
  refine List.map_congr_left fun j member => ?_
  have less := List.mem_range.mp member
  rw [stored, update_of_ne]
  intro same
  have places := congrArg Fin.val same
  have first := a.toNat_lt
  have second := b.toNat_lt
  simp only [index, INPUT_BUF_SIZE, UInt32.toNat_add, UInt32.toNat_sub,
    UInt32.toNat_ofNat'] at places room less
  omega

end Span

end Cons

end Xv6
