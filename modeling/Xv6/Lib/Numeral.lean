import Mathlib.Data.Nat.Digits.Lemmas

/-! Positional numerals, written with any characters for the digits. -/

namespace Numeral

variable {α : Type} {digit : Nat → α} {minus : α} {b m n k : Nat} {v w : Int}

/-- The digits from the last to the first, which is not 0 unless it is the only one. -/
def reversed (b n : Nat) : List Nat := if n = 0 then [0] else Nat.digits b n

def unsigned (digit : Nat → α) (b n : Nat) : List α := ((reversed b n).map digit).reverse

def signed (digit : Nat → α) (minus : α) (b : Nat) (v : Int) : List α :=
  if v < 0 then minus :: unsigned digit b v.natAbs else unsigned digit b v.natAbs

theorem reversed_small (small : n < b) : reversed b n = [n] := by
  unfold reversed
  split
  next zero => rw [zero]
  next some => exact Nat.digits_of_lt b n some small

theorem reversed_step (base : 1 < b) (large : b ≤ n) : reversed b n = n % b :: reversed b (n / b) := by
  have some : 0 < n / b := Nat.div_pos large (by omega)
  unfold reversed
  rw [if_neg (by omega), if_neg (by omega), Nat.digits_def' base (by omega)]

theorem reversed_below (base : 1 < b) {d : Nat} (member : d ∈ reversed b n) : d < b := by
  unfold reversed at member
  split at member
  · rw [List.mem_singleton] at member
    omega
  · exact Nat.digits_lt_base base member

theorem reversed_injective (same : reversed b m = reversed b n) : m = n := by
  have value (n : Nat) : Nat.ofDigits b (reversed b n) = n := by
    unfold reversed
    split
    next zero => rw [zero, Nat.ofDigits_singleton]
    next => exact Nat.ofDigits_digits b n
  rw [← value m, same, value]

/-- A number has so many digits at most if it is below that power of the base. -/
theorem reversed_length (base : 1 < b) : (reversed b n).length ≤ k + 1 ↔ n < b ^ (k + 1) := by
  unfold reversed
  split
  next zero =>
    rw [zero, List.length_singleton]
    exact iff_of_true (by omega) (Nat.pow_pos (by omega))
  next => exact Nat.digits_length_le_iff base n

theorem unsigned_injective (base : 1 < b) (apart : ∀ i < b, ∀ j < b, digit i = digit j → i = j)
    (same : unsigned digit b m = unsigned digit b n) : m = n := by
  have maps := List.reverse_injective same
  refine @reversed_injective b m n ?_
  have lists : ∀ l l' : List Nat, (∀ d ∈ l, d < b) → (∀ d ∈ l', d < b) →
    l.map digit = l'.map digit → l = l' := by
    intro l
    induction l with
    | nil => exact fun l' _ _ eq => (List.map_eq_nil_iff.mp eq.symm).symm
    | cons d l ih =>
      intro l' below below' eq
      cases l' with
      | nil => cases eq
      | cons d' l' =>
        obtain ⟨first, rest⟩ := List.cons.inj eq
        have head := apart d (below d (List.mem_cons_self ..)) d' (below' d' (List.mem_cons_self ..)) first
        rw [head, ih l' (fun x member => below x (List.mem_cons_of_mem _ member))
          (fun x member => below' x (List.mem_cons_of_mem _ member)) rest]
  exact lists _ _ (fun _ => reversed_below base) (fun _ => reversed_below base) maps

theorem minus_not_mem (base : 1 < b) (apart : ∀ i < b, digit i ≠ minus) : minus ∉ unsigned digit b n := by
  intro member
  unfold unsigned at member
  rw [List.mem_reverse, List.mem_map] at member
  obtain ⟨d, digits, same⟩ := member
  exact apart d (reversed_below base digits) same

theorem signed_injective (base : 1 < b) (apart : ∀ i < b, ∀ j < b, digit i = digit j → i = j)
    (apart' : ∀ i < b, digit i ≠ minus) (same : signed digit minus b v = signed digit minus b w) : v = w := by
  unfold signed at same
  split at same
  next below =>
    split at same
    next below' =>
      have abs := unsigned_injective base apart (List.cons.inj same).2
      omega
    next => exact absurd (same ▸ List.mem_cons_self ..) (minus_not_mem base apart')
  next above =>
    split at same
    next => exact absurd (same ▸ List.mem_cons_self ..) (minus_not_mem base apart')
    next above' =>
      have abs := unsigned_injective base apart same
      omega

end Numeral
