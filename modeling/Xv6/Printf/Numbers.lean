import Xv6.Printf.Machine

/-! What the conversions of numbers print. -/

namespace Xv6.Printf

/-- The conversions of numbers. -/
inductive Conversion where
  | d
  | u
  | x
  | ld
  | lu
  | lx
  | lld
  | llu
  | llx

namespace Conversion

def chars : Conversion → List UInt8
  | d => [ascii 'd']
  | u => [ascii 'u']
  | x => [ascii 'x']
  | ld => [ascii 'l', ascii 'd']
  | lu => [ascii 'l', ascii 'u']
  | lx => [ascii 'l', ascii 'x']
  | lld => [ascii 'l', ascii 'l', ascii 'd']
  | llu => [ascii 'l', ascii 'l', ascii 'u']
  | llx => [ascii 'l', ascii 'l', ascii 'x']

def base : Conversion → Nat
  | x | lx | llx => 16
  | _ => 10

def signed : Conversion → Bool
  | d | ld | lld => true
  | _ => false

/-- The bits of the type of the argument. -/
def width : Conversion → Nat
  | d | u | x => 32
  | _ => 64

/-- The value of an argument of that type. -/
def value (k : Conversion) (a : BitVec k.width) : Int := if k.signed then a.toInt else a.toNat

/-- The slot of the argument; the sign bit is extended, whether or not the type is signed. -/
def slot (k : Conversion) (a : BitVec k.width) : Arg := .word ⟨a.signExtend 64⟩

/-- The value that `va_arg` gives. -/
def taken (k : Conversion) (a : BitVec k.width) : Int := if k.width = 32 then a.toInt else a.toNat

/-- The numeral of a value. -/
def numeral (digits : Nat → UInt8) (k : Conversion) (v : Int) : List UInt8 :=
  if k.signed then Numeral.signed digits (ascii '-') k.base v else Numeral.unsigned digits k.base v.natAbs

end Conversion

section Numbers

variable {digits : Nat → UInt8} {base x : Nat} {printint : Int → Nat → Bool → Output} {ap : List Arg}

theorem digitLoop_eq (large : 1 < base) (room x : Nat) : digitLoop digits base (room + 1) x =
    if x < base ^ (room + 1) then .ok ((Numeral.reversed base x).map digits) else .error "out of bounds" := by
  induction room generalizing x with
  | zero =>
    rw [digitLoop, Nat.zero_add, pow_one]
    by_cases small : x < base
    · rw [if_pos (Nat.div_eq_of_lt small), if_pos small, Numeral.reversed_small small, Nat.mod_eq_of_lt small]
      rfl
    · have some : x / base ≠ 0 := (Nat.div_pos (Nat.le_of_not_lt small) (by omega)).ne'
      rw [if_neg some, if_neg small]
      rfl
  | succ room ih =>
    rw [digitLoop]
    by_cases small : x < base
    · have below : x < base ^ (room + 1 + 1) := lt_of_lt_of_le small (Nat.le_self_pow (by omega) base)
      rw [if_pos (Nat.div_eq_of_lt small), if_pos below, Numeral.reversed_small small, Nat.mod_eq_of_lt small]
      rfl
    · have some : x / base ≠ 0 := (Nat.div_pos (Nat.le_of_not_lt small) (by omega)).ne'
      have bound : x / base < base ^ (room + 1) ↔ x < base ^ (room + 1 + 1) := by
        rw [Nat.div_lt_iff_lt_mul (by omega), pow_succ base (room + 1)]
      rw [if_neg some, ih, Numeral.reversed_step large (Nat.le_of_not_lt small)]
      by_cases below : x < base ^ (room + 1 + 1)
      · rw [if_pos below, if_pos (bound.mpr below)]
        rfl
      · rw [if_neg below, if_neg (mt bound.mp below)]
        rfl

/-- A number is printed if its digits and its sign fit in `buf`. -/
theorem printDigits_eq (large : 1 < base) (x : Nat) (neg : Bool) : printDigits digits base x neg =
    if x < base ^ (if neg then bufSize - 1 else bufSize) then
      .ok (if neg then ascii '-' :: Numeral.unsigned digits base x else Numeral.unsigned digits base x)
    else .error "out of bounds" := by
  have room : bufSize = 14 + 1 + 1 := rfl
  unfold printDigits
  rw [room, digitLoop_eq large]
  by_cases below : x < base ^ (14 + 1 + 1)
  swap
  · have above : ¬x < base ^ (if neg then 14 + 1 + 1 - 1 else 14 + 1 + 1) := by
      have less : base ^ (14 + 1) ≤ base ^ (14 + 1 + 1) := Nat.pow_le_pow_right (by omega) (by omega)
      cases neg with
      | true => exact fun small => below (lt_of_lt_of_le small less)
      | false => exact below
    rw [if_neg below, if_neg above]
    rfl
  rw [if_pos below]
  cases neg with
  | false =>
    simp only [Bool.false_eq_true, if_false, if_pos below]
    rfl
  | true =>
    have digit : x < base ^ (14 + 1) ↔ ¬bufSize ≤ ((Numeral.reversed base x).map digits).length := by
      rw [← Numeral.reversed_length large, List.length_map, room]
      omega
    simp only [if_true]
    show (store ((Numeral.reversed base x).map digits) (ascii '-') >>= fun buf => pure buf.reverse) = _
    unfold store
    by_cases fits : x < base ^ (14 + 1)
    · rw [if_neg (digit.mp fits), if_pos fits]
      simp only [pure_bind, List.reverse_append, List.reverse_singleton, List.singleton_append]
      rfl
    · rw [if_pos (not_not.mp (mt digit.mpr fits)), if_neg fits]
      rfl

theorem toInt_bounds (a : BitVec 32) : -2 ^ 31 ≤ a.toInt ∧ a.toInt < 2 ^ 31 := by
  have lower := BitVec.le_two_mul_toInt (x := a)
  have upper := BitVec.two_mul_toInt_lt (x := a)
  omega

theorem toInt_cases (a : BitVec 32) :
    a.toInt = if a.toNat < 2 ^ 31 then (a.toNat : Int) else a.toNat - 2 ^ 32 := by
  rw [BitVec.toInt_eq_toNat_cond]
  split <;> split <;> omega

theorem vaInt_slot (a : BitVec 32) : vaInt (.word ⟨a.signExtend 64⟩ :: ap) = .ok (a.toInt, ap) := by
  have low : (((a.signExtend 64).toNat : Int)).bmod (2 ^ 32) = a.toInt := by
    rw [BitVec.toInt_eq_toNat_bmod, BitVec.toNat_signExtend, BitVec.toNat_setWidth]
    have small := a.isLt
    have most : a.toNat % 2 ^ 64 = a.toNat := Nat.mod_eq_of_lt (by omega)
    rw [most]
    split
    · have whole : ((a.toNat + (2 ^ 64 - 2 ^ 32) : Nat) : Int) % (2 ^ 32 : Nat) = (a.toNat : Int) %
        (2 ^ 32 : Nat) := by omega
      rw [← Int.emod_bmod, whole, Int.emod_bmod]
    · rw [Nat.add_zero]
  exact congrArg (fun v => Except.ok (v, ap)) low

theorem vaUint64_slot (a : BitVec 64) : vaUint64 (.word ⟨a.signExtend 64⟩ :: ap) =
    .ok ((a.toNat : Int), ap) := by
  rw [BitVec.signExtend_eq]
  rfl

theorem va_slot (k : Conversion) (a : BitVec k.width) :
    (if k.width = 32 then vaInt else vaUint64) (k.slot a :: ap) = .ok (k.taken a, ap) := by
  cases k with
  | d | u | x => exact vaInt_slot a
  | _ => exact vaUint64_slot a

/-- Each conversion takes its argument and passes it to `printint`. -/
theorem convert_number (printint : Int → Nat → Bool → Output) (digits : Nat → UInt8)
    (ap : List Arg) (k : Conversion)
    (a : BitVec k.width) (rest : List UInt8) :
    ∃ c0 more, k.chars ++ rest = c0 :: more ∧ more.drop (k.chars.length - 1) = rest ∧
      convert printint digits c0 (more.getD 0 0) (more.getD 1 0) (k.slot a :: ap) =
        (printint (k.taken a) k.base k.signed).map fun out => (out, k.chars.length - 1, ap) := by
  have chain : ∃ c0 more, k.chars ++ rest = c0 :: more ∧ more.drop (k.chars.length - 1) = rest ∧
      ∀ ap, convert printint digits c0 (more.getD 0 0) (more.getD 1 0) ap = do
        let r ← (if k.width = 32 then vaInt else vaUint64) ap
        let out ← printint r.1 k.base k.signed
        return (out, k.chars.length - 1, r.2) := by
    cases k <;> exact ⟨_, _, rfl, rfl, fun _ => rfl⟩
  obtain ⟨c0, more, chars, left, same⟩ := chain
  refine ⟨c0, more, chars, left, ?_⟩
  rw [same, va_slot]
  rfl

/-- A conversion prints a text whatever follows exactly if `printint` gives it. -/
theorem prints_iff {m : Output} {f g : List UInt8 → List Arg → Output} {out : List UInt8}
    (step : ∀ rest ap, f rest ap = m >>= fun out => (g rest ap).map (out ++ ·)) (empty : g [] [] = .ok []) :
    (∀ rest ap, f rest ap = (g rest ap).map (out ++ ·)) ↔ m = .ok out := by
  constructor
  · intro prints
    have alone := (step [] []).symm.trans (prints [] [])
    rw [empty] at alone
    cases m with
    | error e => cases alone
    | ok out' =>
      have same : out' ++ [] = out ++ [] := Except.ok.inj alone
      rw [List.append_nil, List.append_nil] at same
      rw [same]
  · intro printed rest ap
    rw [step, printed]
    rfl

variable {bits n : Nat} {xx v : Int} (large : 1 < base)
  (apart : ∀ i < base, ∀ j < base, digits i = digits j → i = j)

include large apart

/-- A signed value is printed if it is not changed by the type of the parameter, and its numeral fits in
`buf`. -/
theorem printintOf_signed (minus : ∀ i < base, digits i ≠ ascii '-') :
    printintOf digits bits xx base true = .ok (Numeral.signed digits (ascii '-') base v) ↔
      xx.bmod (2 ^ bits) = v ∧ v.natAbs < base ^ (if v < 0 then bufSize - 1 else bufSize) := by
  have most := Nat.two_pow_pos bits
  have lower := @Int.le_bmod xx (2 ^ bits) most
  have upper := @Int.bmod_lt xx (2 ^ bits) most
  have printed : printintOf digits bits xx base true =
      if (xx.bmod (2 ^ bits)).natAbs < base ^ (if xx.bmod (2 ^ bits) < 0 then bufSize - 1 else bufSize) then
        .ok (Numeral.signed digits (ascii '-') base (xx.bmod (2 ^ bits)))
      else .error "out of bounds" := by
    unfold printintOf Numeral.signed
    simp only [Bool.true_and, decide_eq_true_eq]
    rw [printDigits_eq large]
    generalize xx.bmod (2 ^ bits) = y at *
    by_cases neg : y < 0
    · have magnitude : ((-y) % 2 ^ bits).toNat = y.natAbs := by
        rw [Int.emod_eq_of_lt (by omega) (by push_cast at *; omega)]
        omega
      simp only [neg, decide_true, if_true, magnitude]
    · have magnitude : (y % 2 ^ bits).toNat = y.natAbs := by
        rw [Int.emod_eq_of_lt (by omega) (by push_cast at *; omega)]
        omega
      simp only [neg, decide_false, Bool.false_eq_true, if_false, magnitude]
  rw [printed]
  constructor
  · intro ok
    by_cases fits : (xx.bmod (2 ^ bits)).natAbs <
      base ^ (if xx.bmod (2 ^ bits) < 0 then bufSize - 1 else bufSize)
    · rw [if_pos fits] at ok
      have same := Numeral.signed_injective large apart minus (Except.ok.inj ok)
      exact ⟨same, same ▸ fits⟩
    · rw [if_neg fits] at ok
      cases ok
  · rintro ⟨rfl, fits⟩
    rw [if_pos fits]

theorem printintOf_unsigned : printintOf digits bits xx base false = .ok (Numeral.unsigned digits base n) ↔
    (xx % 2 ^ bits).toNat = n ∧ n < base ^ bufSize := by
  have same : xx.bmod (2 ^ bits) % 2 ^ bits = xx % 2 ^ bits := by
    have cast := @Int.bmod_emod xx (2 ^ bits)
    push_cast at cast
    exact cast
  have printed : printintOf digits bits xx base false =
      if (xx % 2 ^ bits).toNat < base ^ bufSize then .ok (Numeral.unsigned digits base (xx % 2 ^ bits).toNat)
      else .error "out of bounds" := by
    unfold printintOf
    simp only [Bool.false_and, Bool.false_eq_true, if_false, same]
    rw [printDigits_eq large]
    rfl
  rw [printed]
  constructor
  · intro ok
    split at ok
    next fits =>
      have same := Numeral.unsigned_injective large apart (Except.ok.inj ok)
      exact ⟨same, same ▸ fits⟩
    next => cases ok
  · rintro ⟨rfl, fits⟩
    rw [if_pos fits]

end Numbers

namespace Kernel

variable {k : Conversion}

/-- Where `printf` of the kernel prints the numeral of a value. -/
def Fits : Conversion → Int → Prop
  | .d, _ | .lx, _ | .llx, _ => True
  | .u, v | .x, v => v < 2 ^ 31
  | .ld, v | .lld, v => -10 ^ 15 < v ∧ v < 10 ^ 16
  | .lu, v | .llu, v => v < 10 ^ 16

theorem printf_conversion (k : Conversion) (a : BitVec k.width) (rest : List UInt8) (ap : List Arg) :
    printf (ascii '%' :: (k.chars ++ rest)) (k.slot a :: ap) =
      printint (k.taken a) k.base k.signed >>= fun out => (printf rest ap).map (out ++ ·) := by
  obtain ⟨c0, more, chars, left, conversion⟩ := convert_number printint digits ap k a rest
  rw [chars, printf, if_neg (not_not.mpr rfl), conversion]
  cases printint (k.taken a) k.base k.signed with
  | error e => rfl
  | ok out =>
    show (printf (more.drop (k.chars.length - 1)) ap >>= fun rest => pure (out ++ rest)) = _
    rw [left]
    rfl

theorem digits_apart : ∀ i < 16, ∀ j < 16, digits i = digits j → i = j := by decide +kernel

theorem digits_minus : ∀ i < 16, digits i ≠ ascii '-' := by decide +kernel

/-- A conversion of the kernel prints the numeral of its argument, inside `buf`, in these cases only. -/
theorem printf_number_iff (k : Conversion) (a : BitVec k.width) :
    (∀ rest ap, printf (ascii '%' :: (k.chars ++ rest)) (k.slot a :: ap) =
      (printf rest ap).map (k.numeral digits (k.value a) ++ ·)) ↔ Fits k (k.value a) := by
  rw [prints_iff (printf_conversion k a) (by rw [printf]; rfl)]
  have decimal : ∀ i < 10, ∀ j < 10, digits i = digits j → i = j := fun i below j below' =>
    digits_apart i (by omega) j (by omega)
  have minus : ∀ i < 10, digits i ≠ ascii '-' := fun i below => digits_minus i (by omega)
  -- The numerals in base 16 always fit in `buf`, and those in base 10 do if they have no more than 16
  -- characters.
  revert a
  cases k with
  | d =>
    intro (a : BitVec 32)
    obtain ⟨lower, upper⟩ := toInt_bounds a
    refine (printintOf_signed (by decide) decimal minus).trans
      (iff_of_true ⟨Int.bmod_eq_of_le ?_ ?_, ?_⟩ trivial)
    · show -((2 ^ 64 : Nat) / 2 : Int) ≤ a.toInt
      omega
    · show a.toInt < ((2 ^ 64 : Nat) + 1 : Int) / 2
      omega
    · show a.toInt.natAbs < 10 ^ (if a.toInt < 0 then 15 else 16)
      split <;> omega
  | u =>
    intro (a : BitVec 32)
    refine (printintOf_unsigned (by decide) decimal).trans ?_
    show (a.toInt % 2 ^ 64).toNat = a.toNat ∧ a.toNat < 10 ^ 16 ↔ (a.toNat : Int) < 2 ^ 31
    rw [toInt_cases a]
    split <;> omega
  | x =>
    intro (a : BitVec 32)
    refine (printintOf_unsigned (by decide) digits_apart).trans ?_
    show (a.toInt % 2 ^ 64).toNat = a.toNat ∧ a.toNat < 16 ^ 16 ↔ (a.toNat : Int) < 2 ^ 31
    rw [toInt_cases a]
    split <;> omega
  | ld | lld =>
    intro (a : BitVec 64)
    refine (printintOf_signed (by decide) decimal minus).trans ?_
    show (a.toNat : Int).bmod (2 ^ 64) = a.toInt ∧ a.toInt.natAbs < 10 ^ (if a.toInt < 0 then 15 else 16) ↔
      -10 ^ 15 < a.toInt ∧ a.toInt < 10 ^ 16
    rw [← BitVec.toInt_eq_toNat_bmod]
    split <;> omega
  | lu | llu =>
    intro (a : BitVec 64)
    refine (printintOf_unsigned (by decide) decimal).trans ?_
    show ((a.toNat : Int) % 2 ^ 64).toNat = a.toNat ∧ a.toNat < 10 ^ 16 ↔ (a.toNat : Int) < 10 ^ 16
    have small : a.toNat < 2 ^ 64 := a.isLt
    omega
  | lx | llx =>
    intro (a : BitVec 64)
    refine (printintOf_unsigned (by decide) digits_apart).trans (iff_of_true ?_ trivial)
    show ((a.toNat : Int) % 2 ^ 64).toNat = a.toNat ∧ a.toNat < 16 ^ 16
    have small : a.toNat < 2 ^ 64 := a.isLt
    omega

/-- `%u` of 4294967295 prints more digits than `buf` has places. -/
theorem printf_u_overruns : printf (ascii '%' :: Conversion.u.chars) [Conversion.u.slot
      (BitVec.allOnes 32)] = .error "out of bounds" ∧
    ¬∀ rest ap, printf (ascii '%' :: (Conversion.u.chars ++ rest))
    (Conversion.u.slot (BitVec.allOnes 32) :: ap) =
      (printf rest ap).map (Conversion.u.numeral digits (Conversion.u.value (BitVec.allOnes 32)) ++ ·) := by
  have overrun : printint (Conversion.u.taken (BitVec.allOnes 32)) Conversion.u.base Conversion.u.signed =
    .error "out of bounds" := rfl
  constructor
  · have conversion := printf_conversion .u (BitVec.allOnes 32) [] []
    rwa [List.append_nil, overrun] at conversion
  · intro prints
    have printed := (prints_iff (printf_conversion .u _) (by rw [printf]; rfl)).mp prints
    cases overrun.symm.trans printed

end Kernel

namespace User

variable {k : Conversion}

/-- Where `vprintf` prints the numeral of a value. -/
def Fits : Conversion → Int → Prop
  | .d, _ | .u, _ | .x, _ => True
  | .ld, v | .lld, v => -2 ^ 31 ≤ v ∧ v < 2 ^ 31
  | .lu, v | .llu, v | .lx, v | .llx, v => v < 2 ^ 32

theorem vprintf_conversion (k : Conversion) (a : BitVec k.width) (rest : List UInt8) (ap : List Arg) :
    vprintf (ascii '%' :: (k.chars ++ rest)) (k.slot a :: ap) =
      printint (k.taken a) k.base k.signed >>= fun out => (vprintf rest ap).map (out ++ ·) := by
  obtain ⟨c0, more, chars, left, conversion⟩ := convert_number printint digits ap k a rest
  unfold vprintf
  rw [chars, vprintfLoop, if_pos rfl, vprintfLoop, conversion]
  cases printint (k.taken a) k.base k.signed with
  | error e => rfl
  | ok out =>
    show (vprintfLoop false (more.drop (k.chars.length - 1)) ap >>= fun rest => pure (out ++ rest)) = _
    rw [left]
    rfl

theorem digits_apart : ∀ i < 16, ∀ j < 16, digits i = digits j → i = j := by decide +kernel

theorem digits_minus : ∀ i < 16, digits i ≠ ascii '-' := by decide +kernel

/-- A conversion of the user library prints the numeral of its argument, inside `buf`, in these cases only. -/
theorem vprintf_number_iff (k : Conversion) (a : BitVec k.width) :
    (∀ rest ap, vprintf (ascii '%' :: (k.chars ++ rest)) (k.slot a :: ap) =
      (vprintf rest ap).map (k.numeral digits (k.value a) ++ ·)) ↔ Fits k (k.value a) := by
  rw [prints_iff (vprintf_conversion k a) (by rw [vprintf, vprintfLoop]; rfl)]
  have decimal : ∀ i < 10, ∀ j < 10, digits i = digits j → i = j := fun i below j below' =>
    digits_apart i (by omega) j (by omega)
  have minus : ∀ i < 10, digits i ≠ ascii '-' := fun i below => digits_minus i (by omega)
  -- Whatever the parameter of type `int` can hold fits in `buf`.
  revert a
  cases k with
  | d =>
    intro (a : BitVec 32)
    obtain ⟨lower, upper⟩ := toInt_bounds a
    refine (printintOf_signed (by decide) decimal minus).trans
      (iff_of_true ⟨Int.bmod_eq_of_le ?_ ?_, ?_⟩ trivial)
    · show -((2 ^ 32 : Nat) / 2 : Int) ≤ a.toInt
      omega
    · show a.toInt < ((2 ^ 32 : Nat) + 1 : Int) / 2
      omega
    · show a.toInt.natAbs < 10 ^ (if a.toInt < 0 then 15 else 16)
      split <;> omega
  | u =>
    intro (a : BitVec 32)
    refine (printintOf_unsigned (by decide) decimal).trans (iff_of_true ?_ trivial)
    show (a.toInt % 2 ^ 32).toNat = a.toNat ∧ a.toNat < 10 ^ 16
    have small := a.isLt
    rw [toInt_cases a]
    split <;> omega
  | x =>
    intro (a : BitVec 32)
    refine (printintOf_unsigned (by decide) digits_apart).trans (iff_of_true ?_ trivial)
    show (a.toInt % 2 ^ 32).toNat = a.toNat ∧ a.toNat < 16 ^ 16
    have small := a.isLt
    rw [toInt_cases a]
    split <;> omega
  | ld | lld =>
    intro (a : BitVec 64)
    refine (printintOf_signed (by decide) decimal minus).trans ?_
    show (a.toNat : Int).bmod (2 ^ 32) = a.toInt ∧ a.toInt.natAbs < 10 ^ (if a.toInt < 0 then 15 else 16) ↔
      -2 ^ 31 ≤ a.toInt ∧ a.toInt < 2 ^ 31
    have low : (a.toNat : Int).bmod (2 ^ 32) = a.toInt.bmod (2 ^ 32) := by
      rw [BitVec.toInt_eq_toNat_cond]
      split
      · rfl
      · rw [← Int.emod_bmod, ← Int.emod_bmod (_ - _)]
        congr 1
        omega
    rw [low]
    constructor
    · rintro ⟨same, -⟩
      have lower := @Int.le_bmod a.toInt (2 ^ 32) (by decide)
      have upper := @Int.bmod_lt a.toInt (2 ^ 32) (by decide)
      omega
    · rintro ⟨lower, upper⟩
      refine ⟨Int.bmod_eq_of_le (by omega) (by omega), ?_⟩
      split <;> omega
  | lu | llu =>
    intro (a : BitVec 64)
    refine (printintOf_unsigned (by decide) decimal).trans ?_
    show ((a.toNat : Int) % 2 ^ 32).toNat = a.toNat ∧ a.toNat < 10 ^ 16 ↔ (a.toNat : Int) < 2 ^ 32
    omega
  | lx | llx =>
    intro (a : BitVec 64)
    refine (printintOf_unsigned (by decide) digits_apart).trans ?_
    show ((a.toNat : Int) % 2 ^ 32).toNat = a.toNat ∧ a.toNat < 16 ^ 16 ↔ (a.toNat : Int) < 2 ^ 32
    omega

/-- `%lu` of 4294967296 prints "0". -/
theorem vprintf_lu_cut : vprintf (ascii '%' :: Conversion.lu.chars) [Conversion.lu.slot 0x100000000] =
    .ok (text "0") ∧
    ¬∀ rest ap, vprintf (ascii '%' :: (Conversion.lu.chars ++ rest)) (Conversion.lu.slot 0x100000000 :: ap) =
      (vprintf rest ap).map (Conversion.lu.numeral digits (Conversion.lu.value 0x100000000) ++ ·) := by
  have cut : printint (Conversion.lu.taken 0x100000000) Conversion.lu.base Conversion.lu.signed =
    .ok (text "0") := by
    decide +kernel
  constructor
  · have conversion := vprintf_conversion .lu 0x100000000 [] []
    have rest : vprintf [] [] = .ok [] := by
      rw [vprintf, vprintfLoop]
      rfl
    rwa [List.append_nil, cut, rest] at conversion
  · intro prints
    have printed := (prints_iff (vprintf_conversion .lu _) (by rw [vprintf, vprintfLoop]; rfl)).mp prints
    have lengths := congrArg List.length (Except.ok.inj (cut.symm.trans printed))
    revert lengths
    decide +kernel

end User

end Xv6.Printf
