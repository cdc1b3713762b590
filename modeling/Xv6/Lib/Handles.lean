import Mathlib.Logic.Function.Basic

/-- What a process has in its hands of a table of counted and locked entries: for every entry
its number of references, the key they stand for, and the contents while it holds the lock. -/
@[ext] structure Handles (B K D : Type) where
  mine : B → Nat
  key : B → Option K
  held : B → Option D

namespace Handles

variable {B K D : Type} [DecidableEq B]

/-- One more reference to an entry that stands for a key. -/
def take (v : Handles B K D) (b : B) (k : K) : Handles B K D :=
  { v with mine := Function.update v.mine b (v.mine b + 1), key := Function.update v.key b (some k) }

/-- The contents seen under the lock, or nothing without it. -/
def hold (v : Handles B K D) (b : B) (x : Option D) : Handles B K D :=
  { v with held := Function.update v.held b x }

/-- One reference less. -/
def drop (v : Handles B K D) (b : B) : Handles B K D :=
  { v with
    mine := Function.update v.mine b (v.mine b - 1)
    key := Function.update v.key b (if v.mine b = 1 then none else v.key b) }

/-- One more reference, and the lock. -/
def get (v : Handles B K D) (b : B) (k : K) (x : D) : Handles B K D := (v.take b k).hold b (some x)

/-- Unlock and give the reference back. -/
def release (v : Handles B K D) (b : B) : Handles B K D := (v.hold b none).drop b

variable {v : Handles B K D} {a b : B} {k l : K} {x y z : D}

@[simp] theorem take_mine : (v.take b k).mine b = v.mine b + 1 := by simp [take]

@[simp] theorem take_key : (v.take b k).key b = some k := by simp [take]

@[simp] theorem take_held : (v.take b k).held = v.held := rfl

@[simp] theorem get_mine : (v.get b k x).mine b = v.mine b + 1 := by simp [get, hold]

@[simp] theorem get_key : (v.get b k x).key b = some k := by simp [get, hold]

@[simp] theorem get_held : (v.get b k x).held b = some x := by simp [get, hold]

/-- An entry that is not locked is not the one that is. -/
theorem ne_of_free (free : (v.get a k x).held b = none) : b ≠ a := by
  rintro rfl
  simp at free

@[simp] theorem get_mine_ne (apart : b ≠ a) : (v.get a k x).mine b = v.mine b := by
  simp [get, hold, take, apart]

@[simp] theorem get_key_ne (apart : b ≠ a) : (v.get a k x).key b = v.key b := by
  simp [get, hold, take, apart]

@[simp] theorem get_held_ne (apart : b ≠ a) : (v.get a k x).held b = v.held b := by
  simp [get, hold, take, apart]

@[simp] theorem get_hold : (v.get b k x).hold b (some y) = v.get b k y := by simp [get, hold]

theorem get_get_hold (apart : b ≠ a) : ((v.get a k x).get b l y).hold a (some z) =
    (v.get a k z).get b l y := by
  simp [get, hold, take, Function.update_comm apart]

/-- Giving a reference back undoes taking it. -/
theorem take_drop (key : v.key b = if v.mine b = 0 then none else some k) : (v.take b k).drop b = v := by
  refine Handles.ext (funext fun c => ?_) (funext fun c => ?_) rfl
  all_goals by_cases same : c = b
  all_goals simp [take, drop, same, key]

theorem get_release (free : v.held b = none) (key : v.key b = if v.mine b = 0 then none else some k) :
    (v.get b k x).release b = v := by
  have unlock : (v.get b k x).hold b none = v.take b k := by
    simp [get, hold, take, ← free]
  rw [release, unlock, take_drop key]

theorem get_get_release (apart : b ≠ a) (free : v.held a = none)
    (key : v.key a = if v.mine a = 0 then none else some k) :
    ((v.get a k x).get b l y).release a = v.get b l y := by
  refine Handles.ext (funext fun c => ?_) (funext fun c => ?_) (funext fun c => ?_)
  all_goals by_cases atA : c = a
  all_goals simp [get, release, take, hold, drop, atA, free, key, apart.symm]
  all_goals grind

end Handles
