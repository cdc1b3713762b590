import Mathlib.Algebra.Group.Nat.Defs
import Xv6.Lib.Moves

/-! `memmove` of kernel/string.c and `memmove` of user/ulib.c. -/

namespace Xv6.Memmove
open Function (update)
open Moves

abbrev Memory := UInt64 → UInt8

/-- `while(n-- > 0) *d++ = *s++;` -/
def copyUp (mem : Memory) (d s : UInt64) : Nat → Memory
  | 0 => mem
  | n + 1 => copyUp (update mem d (mem s)) (d + 1) (s + 1) n

/-- `while(n-- > 0) *--d = *--s;` -/
def copyDown (mem : Memory) (d s : UInt64) : Nat → Memory
  | 0 => mem
  | n + 1 => copyDown (update mem (d - 1) (mem (s - 1))) (d - 1) (s - 1) n

/-- `memmove` of kernel/string.c: the value it returns, and the memory after it. -/
def memmove (mem : Memory) (dst src : UInt64) (n : UInt32) : UInt64 × Memory :=
  if n = 0 then
    (dst, mem)
  else if src < dst ∧ src + n.toUInt64 > dst then
    (dst, copyDown mem (dst + n.toUInt64) (src + n.toUInt64) n.toNat)
  else
    (dst, copyUp mem dst src n.toNat)

namespace Ulib

/-- `memmove` of user/ulib.c. Adding an `int` to a pointer extends its sign, and neither loop runs for a
negative one. -/
def memmove (mem : Memory) (vdst vsrc : UInt64) (n : Int32) : UInt64 × Memory :=
  if vsrc > vdst then
    (vdst, copyUp mem vdst vsrc n.toNatClampNeg)
  else
    (vdst, copyDown mem (vdst + n.toInt64.toUInt64) (vsrc + n.toInt64.toUInt64) n.toNatClampNeg)

end Ulib

section Places
variable {mem : Memory} {dst src a b : UInt64} {n k i j : Nat}

/-- The address so many bytes further. -/
def place (a : UInt64) (k : Nat) : UInt64 := a + UInt64.ofNat k

@[simp] theorem place_zero : place a 0 = a := UInt64.add_zero a

theorem place_one : place (a + 1) k = place a (k + 1) := by
  rw [place, place, UInt64.ofNat_add, UInt64.add_assoc, UInt64.add_comm 1]
  rfl

theorem place_pred : place a (k + 1) - 1 = place a k := by
  rw [place, place, UInt64.ofNat_add, ← UInt64.add_assoc]
  exact UInt64.add_sub_cancel ..

/-- The `n` bytes at an address do not wrap around the address space. -/
def Within (a : UInt64) (n : Nat) : Prop := a.toNat + n ≤ 2 ^ 64

instance : Decidable (Within a n) := inferInstanceAs (Decidable (a.toNat + n ≤ 2 ^ 64))

theorem Within.place_toNat (within : Within a n) (less : k < n) : (place a k).toNat = a.toNat + k := by
  unfold Within at within
  rw [place, UInt64.toNat_add, UInt64.toNat_ofNat', Nat.add_mod_mod]
  exact Nat.mod_eq_of_lt (by omega)

theorem copyUp_eq : copyUp mem dst src n = moves (place dst) (place src) mem (List.range n) := by
  induction n generalizing mem dst src with
  | zero => rfl
  | succ n ih =>
    rw [copyUp, ih, List.range_succ_eq_map, moves_cons, place_zero, place_zero, moves, moves, List.foldl_map]
    simp only [place_one]

theorem copyDown_eq :
    copyDown mem (place dst n) (place src n) n = moves (place dst) (place src) mem (List.range n).reverse := by
  induction n generalizing mem with
  | zero => rfl
  | succ n ih =>
    rw [copyDown, place_pred, place_pred, ih, List.range_succ, List.reverse_append, List.reverse_singleton,
      List.singleton_append, moves_cons]

end Places

section Directions
variable {mem : Memory} {dst src : UInt64} {n : Nat}

/-- The `n` bytes from `dst` on are those there were from `src` on, and no byte outside of them
has changed. -/
structure Moved (mem after : Memory) (dst src : UInt64) (n : Nat) : Prop where
  copied : ∀ k < n, after (place dst k) = mem (place src k)
  untouched : ∀ a : UInt64, ¬(dst.toNat ≤ a.toNat ∧ a.toNat < dst.toNat + n) → after a = mem a

theorem Moved.of_moves {l : List Nat} (all : ∀ k, k ∈ l ↔ k < n) (apart : Apart (place dst) (place src) l)
    (dstWithin : Within dst n) : Moved mem (moves (place dst) (place src) mem l) dst src n where
  copied k less := moves_copied apart ((all k).mpr less)
  untouched a outside := by
    refine moves_elsewhere fun k member same => outside ?_
    rw [same, dstWithin.place_toNat ((all k).mp member)]
    have less := (all k).mp member
    omega

variable (dstWithin : Within dst n) (srcWithin : Within src n)
include dstWithin srcWithin

/-- Copying up is right where the bytes at `dst` start below those at `src`, or past their end. -/
theorem copyUp_moved (clear : dst.toNat ≤ src.toNat ∨ src.toNat + n ≤ dst.toNat) :
    Moved mem (copyUp mem dst src n) dst src n := by
  rw [copyUp_eq]
  refine Moved.of_moves (fun k => List.mem_range) ?_ dstWithin
  refine List.pairwise_lt_range.imp_of_mem fun {i j} atI atJ less => ?_
  have lessI := List.mem_range.mp atI
  have lessJ := List.mem_range.mp atJ
  constructor
  all_goals
    intro same
    have values := congrArg UInt64.toNat same
    simp only [dstWithin.place_toNat lessI, dstWithin.place_toNat lessJ,
      srcWithin.place_toNat lessJ] at values
    omega

/-- Copying down is right where the bytes at `dst` do not start below those at `src`. -/
theorem copyDown_moved (clear : src.toNat ≤ dst.toNat) :
    Moved mem (copyDown mem (place dst n) (place src n) n) dst src n := by
  rw [copyDown_eq]
  refine Moved.of_moves (fun k => List.mem_reverse.trans List.mem_range) ?_ dstWithin
  refine List.pairwise_reverse.mpr (List.pairwise_lt_range.imp_of_mem fun {i j} atI atJ less => ?_)
  have lessI := List.mem_range.mp atI
  have lessJ := List.mem_range.mp atJ
  constructor
  all_goals
    intro same
    have values := congrArg UInt64.toNat same
    simp only [dstWithin.place_toNat lessI, dstWithin.place_toNat lessJ,
      srcWithin.place_toNat lessI] at values
    omega

end Directions

theorem toUInt64_eq_ofNat (n : UInt32) : n.toUInt64 = UInt64.ofNat n.toNat := by
  rw [← UInt64.toNat_inj]
  simp

theorem signed_eq_ofNat {n : Int32} (nonneg : 0 ≤ n) : n.toInt64.toUInt64 = UInt64.ofNat n.toNatClampNeg := by
  rw [← Int64.toUInt64_ofNat', Int64.ofNat_int32ToNatClampNeg n nonneg]

/-- The kernel's `memmove` looks for an overlap that copying up would spoil. -/
theorem memmove_moved {mem : Memory} {dst src : UInt64} {n : UInt32} (dstWithin : Within dst n.toNat)
    (srcWithin : Within src n.toNat) : Moved mem (memmove mem dst src n).2 dst src n.toNat := by
  unfold memmove
  split
  next zero =>
    subst zero
    exact ⟨fun k less => absurd less (Nat.not_lt_zero k), fun _ _ => rfl⟩
  next nonzero =>
  split
  next overlap =>
    rw [toUInt64_eq_ofNat]
    exact copyDown_moved dstWithin srcWithin (Nat.le_of_lt overlap.1)
  next clear =>
    refine copyUp_moved dstWithin srcWithin ?_
    by_contra spoiled
    -- Below `dst`, the range at `src` ends before the address space does.
    have ends : (src + n.toUInt64).toNat = src.toNat + n.toNat := by
      rw [UInt64.toNat_add, UInt32.toNat_toUInt64]
      exact Nat.mod_eq_of_lt (by unfold Within at dstWithin; omega)
    have less : src < dst := UInt64.lt_iff_toNat_lt.mpr (by omega)
    have reaches : src + n.toUInt64 > dst := UInt64.lt_iff_toNat_lt.mpr (by omega)
    exact clear ⟨less, reaches⟩

theorem Ulib.memmove_moved {mem : Memory} {vdst vsrc : UInt64} {n : Int32} (nonneg : 0 ≤ n)
    (dstWithin : Within vdst n.toNatClampNeg) (srcWithin : Within vsrc n.toNatClampNeg) :
    Moved mem (Ulib.memmove mem vdst vsrc n).2 vdst vsrc n.toNatClampNeg := by
  unfold Ulib.memmove
  split
  next below => exact copyUp_moved dstWithin srcWithin (Or.inl (Nat.le_of_lt below))
  next above =>
    rw [signed_eq_ofNat nonneg]
    exact copyDown_moved dstWithin srcWithin (Nat.le_of_not_lt above)

/-- Both move the bytes, however the two ranges lie. -/
theorem memmoves (mem : Memory) (dst src : UInt64) :
    (∀ n : UInt32, Within dst n.toNat → Within src n.toNat →
      Moved mem (memmove mem dst src n).2 dst src n.toNat) ∧
    ∀ n : Int32, 0 ≤ n → Within dst n.toNatClampNeg → Within src n.toNatClampNeg →
      Moved mem (Ulib.memmove mem dst src n).2 dst src n.toNatClampNeg :=
  ⟨fun _ dstWithin srcWithin => memmove_moved dstWithin srcWithin,
    fun _ nonneg dstWithin srcWithin => Ulib.memmove_moved nonneg dstWithin srcWithin⟩

/-- Every byte its own address, as far as it holds it. -/
def addresses : Memory := UInt64.toUInt8

/-- Up and down, over bytes of the source, and from the last byte there is. -/
theorem memmoves_overlapping :
    (Moved addresses (memmove addresses 3 1 4).2 3 1 4 ∧
      Moved addresses (memmove addresses (-5) (-4) 4).2 (-5) (-4) 4) ∧
    Moved addresses (Ulib.memmove addresses 3 1 4).2 3 1 4 ∧
      Moved addresses (Ulib.memmove addresses (-5) (-4) 4).2 (-5) (-4) 4 :=
  ⟨⟨(memmoves addresses 3 1).1 4 (by decide) (by decide), (memmoves addresses (-5) (-4)).1 4
    (by decide) (by decide)⟩,
    (memmoves addresses 3 1).2 4 (by decide) (by decide) (by decide),
    (memmoves addresses (-5) (-4)).2 4 (by decide) (by decide) (by decide)⟩

end Xv6.Memmove
