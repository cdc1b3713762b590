import Xv6.Grep.Matcher
import Xv6.Lib.CString
import Mathlib.Logic.Function.Basic

/-! `grep` of user/grep.c, with `strchr` and `memmove` of user/ulib.c. -/

namespace Xv6.Grep

def newline : UInt8 := 10

/-- `sizeof(buf)` -/
def bufSize : Nat := 1024

/-- A character stored in `buf`. -/
def store (buf : Bytes) (x : Nat) (c : UInt8) : Except String Bytes :=
  if x < bufSize then return Function.update buf x c else throw "out of bounds"

/-- `strchr` from a place of `buf`, with the places that are left there. -/
def strchr (buf : Bytes) (c : UInt8) : Nat → Nat → Except String (Option Nat)
  | 0, _ => throw "out of bounds"
  | room + 1, s => if buf s = 0 then return none else if buf s = c then return some s else strchr buf c room (s + 1)

/-- The first loop of `memmove`. -/
def memmoveUp (buf : Bytes) (dst src : Nat) : Nat → Bytes
  | 0 => buf
  | n + 1 => memmoveUp (Function.update buf dst (buf src)) (dst + 1) (src + 1) n

/-- The second loop of `memmove`. -/
def memmoveDown (buf : Bytes) (dst src : Nat) : Nat → Bytes
  | 0 => buf
  | n + 1 => memmoveDown (Function.update buf (dst + n) (buf (src + n))) dst src n

/-- `memmove` -/
def memmove (buf : Bytes) (dst src n : Nat) : Bytes :=
  if dst < src then memmoveUp buf dst src n else memmoveDown buf dst src n

/-- The string at a place of `buf`. -/
def stringAt (buf : Bytes) (p : Nat) : List UInt8 := Bytes.str (bufSize - p) (buf.drop p)

/-- The `n` bytes at a place of `buf`. -/
def bytesAt (buf : Bytes) (p n : Nat) : List UInt8 := (List.range n).map (buf.drop p)

/-- How many bytes a call of read for `n` of them gives: none if none are asked for or left, or else at least
one and at most those that are asked for and left. -/
def readCount (size n left : Nat) : Nat := if n = 0 ∨ left = 0 then 0 else max 1 (min size (min n left))

theorem readCount_le (size n left : Nat) : readCount size n left ≤ left := by
  unfold readCount
  split <;> omega

/-- The inner loop of `grep`, with the number of lines that `buf` has room for: what is written, `buf`, and
`p`. -/
def lineLoop (pattern : List UInt8) : Nat → Bytes → Nat → Except String (List UInt8 × Bytes × Nat)
  | 0, _, _ => throw "out of bounds"
  | lines + 1, buf, p => do
    match ← strchr buf newline (bufSize - p) p with
    | none => return ([], buf, p)
    | some q =>
      let buf ← store buf q 0
      if matchText pattern (stringAt buf p) then
        let buf ← store buf q newline
        let (written, left, p') ← lineLoop pattern lines buf (q + 1)
        return (bytesAt buf p (q + 1 - p) ++ written, left, p')
      else lineLoop pattern lines buf (q + 1)

/-- The outer loop of `grep` from a call of read on, whose sizes are given: what is written, and what of the
stream is not read. -/
def grepLoop (pattern : List UInt8) (sizes : Nat → Nat) (calls : Nat) (buf : Bytes) (m : Nat)
    (stream : List UInt8) :
    Except String (List UInt8 × List UInt8) :=
  let n := readCount (sizes calls) (bufSize - m - 1) stream.length
  if 0 < n then do
    let buf ← store (buf.splice m n (Bytes.ofList stream)) (m + n) 0
    let (written, buf, p) ← lineLoop pattern bufSize buf 0
    let m := m + n - p
    let (later, left) ← grepLoop pattern sizes (calls + 1) (memmove buf 0 p m) m (stream.drop n)
    return (written ++ later, left)
  else return ([], stream)
termination_by stream.length
decreasing_by
  rename_i more
  have bound : n ≤ stream.length := readCount_le ..
  rw [List.length_drop]
  change stream.length - n < stream.length
  omega

/-- `grep`, with what an earlier call left in `buf`. -/
def grep (pattern : List UInt8) (sizes : Nat → Nat) (buf : Bytes) (stream : List UInt8) :
    Except String (List UInt8 × List UInt8) := grepLoop pattern sizes 0 buf 0 stream

theorem memmoveUp_eq (buf : Bytes) {dst src : Nat} (below : dst < src) (n : Nat) :
    memmoveUp buf dst src n = buf.splice dst n (buf.drop src) := by
  induction n generalizing buf dst src with
  | zero =>
    funext x
    exact (Bytes.splice_outside (by omega)).symm
  | succ n ih =>
    rw [memmoveUp, ih _ (Nat.succ_lt_succ below)]
    funext x
    unfold Bytes.splice Bytes.drop
    grind

theorem memmoveDown_eq (buf : Bytes) {dst src : Nat} (above : src ≤ dst) (n : Nat) :
    memmoveDown buf dst src n = buf.splice dst n (buf.drop src) := by
  induction n generalizing buf with
  | zero =>
    funext x
    exact (Bytes.splice_outside (by omega)).symm
  | succ n ih =>
    rw [memmoveDown, ih]
    funext x
    unfold Bytes.splice Bytes.drop
    grind

/-- The bytes move as if they were all read before the first is written. -/
theorem memmove_eq (buf : Bytes) (dst src n : Nat) :
    memmove buf dst src n = buf.splice dst n (buf.drop src) := by
  unfold memmove
  split
  next below => exact memmoveUp_eq buf below n
  next above => exact memmoveDown_eq buf (by omega) n

end Xv6.Grep
