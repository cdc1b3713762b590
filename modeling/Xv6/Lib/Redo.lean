import Mathlib.Logic.Function.Basic
import Mathlib.Data.List.Nodup
import Mathlib.Data.List.GetD

/-! Redo logging on a disk of numbered cells. The cells `start + 1, start + 2, ...` hold the new
contents of the cells that the header lists. -/

namespace Redo

variable {β : Type}

/-- The disk after the first `k` log slots have been filled. -/
def fill (start : Nat) (vals : Nat → β) : Nat → (Nat → β) → Nat → β
  | 0, disk => disk
  | k + 1, disk => Function.update (fill start vals k disk) (start + k + 1) (vals k)

/-- The disk after the first `k` log slots have been copied home. -/
def install (start : Nat) (header : List Nat) : Nat → (Nat → β) → Nat → β
  | 0, disk => disk
  | k + 1, disk => Function.update (install start header k disk) (header.getD k 0)
      (install start header k disk (start + k + 1))

/-- What recovery makes of a disk whose header is `header`. -/
def replay (start : Nat) (header : List Nat) (disk : Nat → β) : Nat → β :=
  install start header header.length disk

/-- No cell that the header lists is the header cell or a log slot in use. -/
def Apart (start : Nat) (header : List Nat) : Prop :=
  ∀ n ∈ header, n < start ∨ start + header.length < n

variable {start k n i : Nat} {vals : Nat → β} {header : List Nat} {disk : Nat → β}

theorem fill_outside (out : n ≤ start ∨ start + k < n) : fill start vals k disk n = disk n := by
  induction k with
  | zero => rfl
  | succ k ih => rw [fill, Function.update_of_ne (by omega), ih (by omega)]

theorem fill_slot (bound : i < k) : fill start vals k disk (start + i + 1) = vals i := by
  induction k with
  | zero => omega
  | succ k ih =>
    by_cases last : i = k
    · rw [fill, last, Function.update_self]
    · rw [fill, Function.update_of_ne (by omega), ih (by omega)]

theorem install_of_notMem (bound : k ≤ header.length) (absent : n ∉ header) :
    install start header k disk n = disk n := by
  induction k with
  | zero => rfl
  | succ k ih =>
    have different : n ≠ header.getD k 0 := by
      rw [List.getD_eq_getElem _ _ (by omega)]
      exact fun same => absent (same ▸ List.getElem_mem _)
    rw [install, Function.update_of_ne different, ih (by omega)]

theorem Apart.slot (apart : Apart start header) (bound : i < header.length) : start + i + 1 ∉ header :=
  fun member => by
    have := apart _ member
    omega

theorem Apart.head (apart : Apart start header) : start ∉ header := fun member => by
  have := apart _ member
  omega

/-- Installing writes nothing but the listed cells. -/
theorem install_slot (apart : Apart start header) (bound : k ≤ header.length) (slot : i < header.length) :
    install start header k disk (start + i + 1) = disk (start + i + 1) :=
  install_of_notMem bound (apart.slot slot)

theorem install_getElem (nodup : header.Nodup) (apart : Apart start header) (bound : k ≤ header.length)
    (inside : i < header.length) :
    install start header k disk header[i] = if i < k then disk (start + i + 1) else disk header[i] := by
  induction k with
  | zero => rfl
  | succ k ih =>
    rw [install, List.getD_eq_getElem _ _ (by omega)]
    by_cases last : i = k
    · subst last
      rw [Function.update_self, if_pos (by omega), install_slot apart (by omega) inside]
    · have different : header[i] ≠ header[k] := fun same => last ((nodup.getElem_inj_iff).mp same)
      rw [Function.update_of_ne different, ih (by omega)]
      split <;> split <;> first | rfl | omega

theorem replay_of_notMem (absent : n ∉ header) : replay start header disk n = disk n :=
  install_of_notMem (Nat.le_refl _) absent

theorem replay_getElem (nodup : header.Nodup) (apart : Apart start header) (inside : i < header.length) :
    replay start header disk header[i] = disk (start + i + 1) := by
  rw [replay, install_getElem nodup apart (Nat.le_refl _) inside, if_pos inside]

@[simp] theorem replay_nil : replay start [] disk = disk := rfl

/-- Replay only depends on the log slots and on the cells that are not listed. -/
theorem replay_congr {disk' : Nat → β} (nodup : header.Nodup) (apart : Apart start header)
    (slots : ∀ i < header.length, disk (start + i + 1) = disk' (start + i + 1))
    (rest : n ∉ header → disk n = disk' n) : replay start header disk n = replay start header disk' n := by
  by_cases member : n ∈ header
  · obtain ⟨i, inside, rfl⟩ := List.getElem_of_mem member
    rw [replay_getElem nodup apart inside, replay_getElem nodup apart inside, slots i inside]
  · rw [replay_of_notMem member, replay_of_notMem member, rest member]

/-- Replay is idempotent, also on a disk where it was interrupted. -/
theorem replay_install (nodup : header.Nodup) (apart : Apart start header) (bound : k ≤ header.length) :
    replay start header (install start header k disk) = replay start header disk :=
  funext fun _ => replay_congr nodup apart (fun _ slot => install_slot apart bound slot)
    fun absent => install_of_notMem bound absent

/-- Replaying filled slots gives the listed cells their new contents. -/
theorem replay_fill (nodup : header.Nodup) (apart : Apart start header) {new : Nat → β} :
    replay start header (fill start (fun i => new (header.getD i 0)) header.length disk) n =
      if n ∈ header then new n
      else fill start (fun i => new (header.getD i 0)) header.length disk n := by
  split
  · next member =>
    obtain ⟨i, inside, rfl⟩ := List.getElem_of_mem member
    rw [replay_getElem nodup apart inside, fill_slot inside, List.getD_eq_getElem _ _ inside]
  · next absent => exact replay_of_notMem absent

end Redo
