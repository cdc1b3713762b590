import Mathlib.Computability.Language

/-! The matcher of user/grep.c. A pattern and a text are the characters before the NUL. -/

namespace Xv6.Grep

def caret : UInt8 := 94
def star : UInt8 := 42
def dollar : UInt8 := 36
def dot : UInt8 := 46

mutual

/-- `matchhere` -/
def matchhere (re text : List UInt8) : Bool :=
  match re with
  | [] => true
  | c :: re =>
    if re.head? = some star then matchstar c re.tail text
    else if c = dollar ∧ re = [] then text.isEmpty
    else match text with
      | [] => false
      | t :: text => if c = dot ∨ c = t then matchhere re text else false
termination_by (re.length, text.length, 0)
decreasing_by
  · refine .left _ _ ?_
    rw [List.length_tail, List.length_cons]
    omega
  · exact .left _ _ (Nat.lt_succ_self _)

/-- `matchstar` -/
def matchstar (c : UInt8) (re text : List UInt8) : Bool :=
  if matchhere re text then true
  else match text with
    | [] => false
    | t :: text => if t = c ∨ c = dot then matchstar c re text else false
termination_by (re.length, text.length, 1)
decreasing_by
  · exact .right _ (.right _ Nat.zero_lt_one)
  · exact .right _ (.left _ _ (Nat.lt_succ_self _))

end

/-- The loop of `match`. -/
def matchAny (re : List UInt8) : List UInt8 → Bool
  | [] => matchhere re []
  | t :: text => if matchhere re (t :: text) then true else matchAny re text

/-- `match` -/
def matchText (re text : List UInt8) : Bool :=
  match re with
  | [] => matchAny [] text
  | c :: rest => if c = caret then matchhere rest text else matchAny (c :: rest) text

end Xv6.Grep
