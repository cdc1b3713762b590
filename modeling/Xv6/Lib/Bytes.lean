import Mathlib.Data.UInt
import Mathlib.Tactic.Ring
import Mathlib.Algebra.Order.Ring.Nat

/-- Raw memory, one byte for every offset. -/
abbrev Bytes := Nat → UInt8

namespace Bytes

/-- The little-endian number in the `k` bytes from `a` on. -/
def le (m : Bytes) (a : Nat) : Nat → Nat
  | 0 => 0
  | k + 1 => (m a).toNat + 256 * le m (a + 1) k

/-- Replace the `k` bytes from `a` on, taking them from `src`. -/
def splice (m : Bytes) (a k : Nat) (src : Bytes) : Bytes :=
  fun x => if a ≤ x ∧ x < a + k then src (x - a) else m x

/-- The bytes of a number, least significant first. -/
def ofNat (v : Nat) : Bytes := fun i => UInt8.ofNat (v / 256 ^ i)

/-- Store a number little-endian in the `k` bytes from `a` on. -/
def store (m : Bytes) (a k v : Nat) : Bytes := m.splice a k (ofNat v)

variable {m m' : Bytes} {a b k j v x : Nat}

theorem splice_inside {src : Bytes} (lower : a ≤ x) (upper : x < a + k) :
    m.splice a k src x = src (x - a) := if_pos ⟨lower, upper⟩

theorem splice_outside {src : Bytes} (out : x < a ∨ a + k ≤ x) : m.splice a k src x = m x :=
  if_neg (by omega)

theorem le_congr (same : ∀ i < k, m (a + i) = m' (b + i)) : m.le a k = m'.le b k := by
  induction k generalizing a b with
  | zero => rfl
  | succ k ih =>
    have first := same 0 (by omega)
    have rest := @ih (a + 1) (b + 1) fun i hi => by
      have := same (i + 1) (by omega)
      rwa [Nat.add_assoc, Nat.add_comm 1 i, Nat.add_assoc, Nat.add_comm 1 i]
    simp only [Nat.add_zero] at first
    simp only [le, first, rest]

theorem le_lt (m : Bytes) (a k : Nat) : m.le a k < 256 ^ k := by
  induction k generalizing a with
  | zero => simp [le]
  | succ k ih =>
    have byte := (m a).toNat_lt
    have rest := ih (a + 1)
    simp only [le, pow_succ]
    omega

theorem le_ofNat (v k : Nat) : (ofNat v).le 0 k = v % 256 ^ k := by
  suffices ∀ i, (ofNat v).le i k = v / 256 ^ i % 256 ^ k by simpa using this 0
  induction k with
  | zero => simp [le, Nat.mod_one]
  | succ k ih =>
    intro i
    have byte : (ofNat v i).toNat = v / 256 ^ i % 256 := by simp [ofNat]
    have high : v / 256 ^ (i + 1) = v / 256 ^ i / 256 := by
      rw [pow_succ, Nat.div_div_eq_div_mul]
    rw [le, byte, ih, high, pow_succ, Nat.mul_comm (256 ^ k), Nat.mod_mul]

theorem le_store (m : Bytes) (a k v : Nat) : (m.store a k v).le a k = v % 256 ^ k := by
  rw [← le_ofNat]
  refine le_congr fun i hi => ?_
  rw [store, splice_inside (by omega) (by omega)]
  congr 1
  omega

/-- Reading back a number that fits. -/
theorem le_store_self (fits : v < 256 ^ k) : (m.store a k v).le a k = v := by
  rw [le_store, Nat.mod_eq_of_lt fits]

theorem le_splice_disjoint {src : Bytes} (apart : b + j ≤ a ∨ a + k ≤ b) :
    (m.splice a k src).le b j = m.le b j :=
  le_congr fun i hi => splice_outside (by omega)

theorem le_store_disjoint (apart : b + j ≤ a ∨ a + k ≤ b) : (m.store a k v).le b j = m.le b j :=
  le_splice_disjoint apart

/-- A field inside a spliced range is read from the source. -/
theorem le_splice_inside {src : Bytes} (lower : a ≤ b) (upper : b + j ≤ a + k) :
    (m.splice a k src).le b j = src.le (b - a) j :=
  le_congr fun i hi => by
    rw [splice_inside (by omega) (by omega)]
    congr 1
    omega

@[simp] theorem le_zero (a k : Nat) : le (fun _ => 0) a k = 0 := by
  induction k generalizing a with
  | zero => rfl
  | succ k ih => simp [le, ih]

end Bytes
