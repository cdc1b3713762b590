import Xv6.Lib.Bytes

namespace Bytes

/-- The memory from an address on. -/
def drop (m : Bytes) (a : Nat) : Bytes := fun x => m (a + x)

/-- One byte before others. -/
def cons (b : UInt8) (m : Bytes) : Bytes
  | 0 => b
  | x + 1 => m x

/-- The bytes of a list, and zeros after them. -/
def ofList (l : List UInt8) : Bytes := fun x => l.getD x 0

/-- The string of at most `n` characters at an address. -/
def str : Nat → Bytes → List UInt8
  | 0, _ => []
  | n + 1, m => if m 0 = 0 then [] else m 0 :: str n (m.drop 1)

end Bytes

/-- `strncmp` of kernel/string.c. -/
def strncmp : Bytes → Bytes → Nat → Int
  | _, _, 0 => 0
  | p, q, n + 1 =>
    if p 0 ≠ 0 ∧ p 0 = q 0 then strncmp (p.drop 1) (q.drop 1) n
    else (p 0).toNat - (q 0).toNat

/-- The `n` characters that `strncpy` of kernel/string.c writes. -/
def strncpy : Bytes → Nat → Bytes
  | _, 0 => fun _ => 0
  | t, n + 1 => Bytes.cons (t 0) (if t 0 = 0 then fun _ => 0 else strncpy (t.drop 1) n)

/-- What is in the buffer after `safestrcpy` of kernel/string.c. -/
def safestrcpy : Bytes → Bytes → Nat → Bytes
  | s, _, 0 => s
  | s, _, 1 => Bytes.cons 0 (s.drop 1)
  | s, t, n + 2 => Bytes.cons (t 0) (if t 0 = 0 then Bytes.cons 0 (s.drop 2) else safestrcpy (s.drop
      1) (t.drop 1) (n + 1))

namespace Bytes

variable {p q s t m m' : Bytes} {k n : Nat}

@[simp] theorem drop_apply (m : Bytes) (a x : Nat) : m.drop a x = m (a + x) := rfl

theorem drop_drop (m : Bytes) (a b : Nat) : (m.drop a).drop b = m.drop (a + b) := by
  funext x
  simp only [drop_apply, Nat.add_assoc]

@[simp] theorem drop_cons (b : UInt8) (m : Bytes) : (cons b m).drop 1 = m := by
  funext x
  simp only [drop_apply, Nat.add_comm 1 x, cons]

theorem str_congr (same : ∀ x < n, m x = m' x) : str n m = str n m' := by
  induction n generalizing m m' with
  | zero => rfl
  | succ n ih =>
    have first := same 0 (by omega)
    have rest := @ih (m.drop 1) (m'.drop 1) fun x small => same (1 + x) (by omega)
    simp only [str, first, rest]

/-- Strings compare equal exactly if they are. -/
theorem strncmp_eq_zero : strncmp p q n = 0 ↔ str n p = str n q := by
  induction n generalizing p q with
  | zero => simp [strncmp, str]
  | succ n ih =>
    simp only [strncmp, str]
    by_cases same : p 0 = q 0
    · by_cases ended : q 0 = 0
      · simp [same, ended]
      · simp [same, ended, ih]
    · have apart : ((p 0).toNat : Int) - (q 0).toNat ≠ 0 := by
        have : (p 0).toNat ≠ (q 0).toNat := fun eq => same (UInt8.toNat_inj.mp eq)
        omega
      rw [if_neg fun both => same both.2]
      constructor
      · exact fun zero => absurd zero apart
      · intro strings
        by_cases first : p 0 = 0
        · rw [if_pos first, if_neg fun second => same (first.trans second.symm)] at strings
          cases strings
        · rw [if_neg first] at strings
          split at strings
          · cases strings
          · exact absurd (List.cons.inj strings).1 same

theorem str_nonzero {b : UInt8} (member : b ∈ str n m) : b ≠ 0 := by
  induction n generalizing m with
  | zero => cases member
  | succ n ih =>
    rw [str] at member
    split at member
    · cases member
    next some =>
      rcases List.mem_cons.mp member with rfl | later
      · exact some
      · exact ih later

theorem str_zero : str n (fun _ => 0) = [] := by
  cases n <;> simp [str]

/-- A copied string is the string. -/
theorem str_strncpy : str n (strncpy t n) = str n t := by
  induction n generalizing t with
  | zero => rfl
  | succ n ih =>
    have first : strncpy t (n + 1) 0 = t 0 := rfl
    have rest : (strncpy t (n + 1)).drop 1 =
      if t 0 = 0 then fun _ => 0 else strncpy (t.drop 1) n := drop_cons ..
    simp only [str, first, rest]
    split
    · rfl
    · rw [ih]

theorem str_succ (n : Nat) (m : Bytes) :
    str (n + 1) m = if m 0 = 0 then [] else m 0 :: str n (m.drop 1) := rfl

/-- A string that ends is found with any larger bound. -/
theorem str_of_end (ends : m k = 0) (bound : k ≤ n) : str n m = str k m := by
  induction k generalizing m n with
  | zero =>
    cases n with
    | zero => rfl
    | succ n => rw [str_succ, if_pos ends, str]
  | succ k ih =>
    obtain ⟨n, rfl⟩ : ∃ j, n = j + 1 := ⟨n - 1, by omega⟩
    have rest : m.drop 1 k = 0 := by rw [drop_apply, Nat.add_comm 1 k, ends]
    rw [str_succ, str_succ, ih rest (by omega)]

/-- A copied string is cut to what fits before the NUL. -/
theorem str_safestrcpy (s t : Bytes) (n : Nat) : str (n + 1) (safestrcpy s t (n + 1)) = str n t := by
  induction n generalizing s t with
  | zero => rfl
  | succ n ih =>
    have first : safestrcpy s t (n + 2) 0 = t 0 := rfl
    have rest : (safestrcpy s t (n + 2)).drop 1 =
        if t 0 = 0 then Bytes.cons 0 (s.drop 2) else safestrcpy (s.drop 1) (t.drop 1) (n + 1) := drop_cons ..
    rw [str_succ (n + 1), first, rest, str_succ n t]
    split
    · rfl
    · rw [ih]

theorem ofList_end (l : List UInt8) : ofList l l.length = 0 := by simp [ofList]

theorem str_ofList {l : List UInt8} (nonzero : ∀ b ∈ l, b ≠ 0) : str n (ofList l) = l.take n := by
  induction n generalizing l with
  | zero => rfl
  | succ n ih =>
    cases l with
    | nil => rfl
    | cons b l =>
      have rest : (ofList (b :: l)).drop 1 = ofList l := by
        funext x
        rw [drop_apply, Nat.add_comm]
        rfl
      have first : ofList (b :: l) 0 = b := rfl
      rw [str, first, if_neg (nonzero b (List.mem_cons_self ..)), rest, ih fun c member =>
        nonzero c (List.mem_cons_of_mem b member)]
      rfl

end Bytes
