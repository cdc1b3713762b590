import Xv6.Lib.Numeral
import Mathlib.Data.UInt

/-! `printf` of kernel/printf.c and `vprintf` of user/printf.c. Formats and strings are the characters before
the NUL. -/

namespace Xv6.Printf

/-- An argument, which takes a slot of 64 bits. -/
inductive Arg where
  | word (v : UInt64)
  | string (s : Option (List UInt8))

/-- The characters that are printed, or an error. -/
abbrev Output := Except String (List UInt8)

/-- `va_arg(ap, int)` -/
def vaInt : List Arg → Except String (Int × List Arg)
  | .word v :: ap => return ((v.toNat : Int).bmod (2 ^ 32), ap)
  | _ => throw "no argument of this type"

/-- `va_arg(ap, uint64)` -/
def vaUint64 : List Arg → Except String (Int × List Arg)
  | .word v :: ap => return (v.toNat, ap)
  | _ => throw "no argument of this type"

/-- `va_arg(ap, char*)` -/
def vaString : List Arg → Except String (Option (List UInt8) × List Arg)
  | .string s :: ap => return (s, ap)
  | _ => throw "no argument of this type"

def ascii (c : Char) : UInt8 := UInt8.ofNat c.toNat

def text (s : String) : List UInt8 := s.toList.map ascii

/-- The size of the array `buf` in each `printint`. -/
def bufSize : Nat := 16

/-- A character stored at the end of what is in `buf`. -/
def store (buf : List UInt8) (c : UInt8) : Output :=
  if bufSize ≤ buf.length then throw "out of bounds" else return buf ++ [c]

/-- The loop of `printint`, with the places of `buf` that are left. -/
def digitLoop (digits : Nat → UInt8) (base : Nat) : Nat → Nat → Output
  | 0, _ => throw "out of bounds"
  | room + 1, x =>
    if x / base = 0 then return [digits (x % base)]
    else do
      let buf ← digitLoop digits base room (x / base)
      return digits (x % base) :: buf

/-- `printint` from where it has the magnitude and the sign. -/
def printDigits (digits : Nat → UInt8) (base x : Nat) (neg : Bool) : Output := do
  let buf ← digitLoop digits base bufSize x
  let buf ← if neg then store buf (ascii '-') else pure buf
  return buf.reverse

/-- `printint`, whose parameter for the value has so many bits. -/
def printintOf (digits : Nat → UInt8) (bits : Nat) (xx : Int) (base : Nat) (sign : Bool) : Output :=
  let xx := xx.bmod (2 ^ bits)
  let neg := sign && decide (xx < 0)
  let x := ((if neg then -xx else xx) % 2 ^ bits).toNat
  printDigits digits base x neg

/-- The loop of `printptr`. -/
def printptr (digits : Nat → UInt8) (x : UInt64) : List UInt8 :=
  text "0x" ++ (List.range 16).map fun i => digits (((x <<< UInt64.ofNat (4 * i)) >>> 60).toNat)

/-- The chain of tests for the characters after `%`, which is the same in both files but for its `printint`
and the digits of a pointer: what is printed, how many more characters belong to the conversion, and the
arguments that are left. -/
def convert (printint : Int → Nat → Bool → Output) (digits : Nat → UInt8) (c0 c1 c2 : UInt8) (ap : List Arg) :
    Except String (List UInt8 × Nat × List Arg) :=
  if c0 = ascii 'd' then do
    let (v, ap) ← vaInt ap
    return (← printint v 10 true, 0, ap)
  else if c0 = ascii 'l' ∧ c1 = ascii 'd' then do
    let (v, ap) ← vaUint64 ap
    return (← printint v 10 true, 1, ap)
  else if c0 = ascii 'l' ∧ c1 = ascii 'l' ∧ c2 = ascii 'd' then do
    let (v, ap) ← vaUint64 ap
    return (← printint v 10 true, 2, ap)
  else if c0 = ascii 'u' then do
    let (v, ap) ← vaInt ap
    return (← printint v 10 false, 0, ap)
  else if c0 = ascii 'l' ∧ c1 = ascii 'u' then do
    let (v, ap) ← vaUint64 ap
    return (← printint v 10 false, 1, ap)
  else if c0 = ascii 'l' ∧ c1 = ascii 'l' ∧ c2 = ascii 'u' then do
    let (v, ap) ← vaUint64 ap
    return (← printint v 10 false, 2, ap)
  else if c0 = ascii 'x' then do
    let (v, ap) ← vaInt ap
    return (← printint v 16 false, 0, ap)
  else if c0 = ascii 'l' ∧ c1 = ascii 'x' then do
    let (v, ap) ← vaUint64 ap
    return (← printint v 16 false, 1, ap)
  else if c0 = ascii 'l' ∧ c1 = ascii 'l' ∧ c2 = ascii 'x' then do
    let (v, ap) ← vaUint64 ap
    return (← printint v 16 false, 2, ap)
  else if c0 = ascii 'p' then do
    let (v, ap) ← vaUint64 ap
    return (printptr digits (UInt64.ofNat v.toNat), 0, ap)
  else if c0 = ascii 's' then do
    let (s, ap) ← vaString ap
    return (s.getD (text "(null)"), 0, ap)
  else if c0 = ascii '%' then return ([ascii '%'], 0, ap)
  -- An unknown sequence is printed to draw attention.
  else return ([ascii '%', c0], 0, ap)

namespace Kernel

/-! ### kernel/printf.c, while no other `printf` is printing -/

def digits (d : Nat) : UInt8 := (text "0123456789abcdef").getD d 0

/-- `printint`, whose first parameter is a `long long`. -/
def printint (xx : Int) (base : Nat) (sign : Bool) : Output := printintOf digits 64 xx base sign

def printf : List UInt8 → List Arg → Output
  | [], _ => return []
  | cx :: fmt, ap =>
    if cx ≠ ascii '%' then do
      let out ← printf fmt ap
      return cx :: out
    else match fmt with
      | [] => return []
      | c0 :: rest => do
        let (out, n, ap) ← convert printint digits c0 (rest.getD 0 0) (rest.getD 1 0) ap
        let more ← printf (rest.drop n) ap
        return out ++ more
termination_by fmt => fmt.length
decreasing_by
  · exact Nat.lt_succ_self _
  · simp only [List.length_drop, List.length_cons]
    omega

end Kernel

namespace User

/-! ### user/printf.c -/

def digits (d : Nat) : UInt8 := (text "0123456789ABCDEF").getD d 0

/-- `printint`, whose second parameter is an `int`. -/
def printint (xx : Int) (base : Nat) (sgn : Bool) : Output := printintOf digits 32 xx base sgn

/-- The loop of `vprintf`, in the state `'%'` or 0. -/
def vprintfLoop : Bool → List UInt8 → List Arg → Output
  | _, [], _ => return []
  | false, c0 :: fmt, ap =>
    if c0 = ascii '%' then vprintfLoop true fmt ap
    else do
      let out ← vprintfLoop false fmt ap
      return c0 :: out
  | true, c0 :: fmt, ap => do
    let (out, n, ap) ← convert printint digits c0 (fmt.getD 0 0) (fmt.getD 1 0) ap
    let more ← vprintfLoop false (fmt.drop n) ap
    return out ++ more
termination_by _ fmt => fmt.length
decreasing_by
  · exact Nat.lt_succ_self _
  · exact Nat.lt_succ_self _
  · simp only [List.length_drop, List.length_cons]
    omega

def vprintf (fmt : List UInt8) (ap : List Arg) : Output := vprintfLoop false fmt ap

end User

end Xv6.Printf
