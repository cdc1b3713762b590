import Mathlib.Data.List.Basic
import Mathlib.Logic.Function.Basic

/-! Copying cells of a memory one after another, where a cell that was copied to may be copied from later. -/

namespace Moves
open Function (update)

variable {A B ι : Type} [DecidableEq A] {d s : ι → A} {mem : A → B} {l : List ι} {i : ι} {a : A}

/-- The memory after the cells of `l` were copied in turn, each from its place under `s` to that under `d`. -/
def moves (d s : ι → A) (mem : A → B) (l : List ι) : A → B :=
  l.foldl (fun mem i => update mem (d i) (mem (s i))) mem

@[simp] theorem moves_nil : moves d s mem [] = mem := rfl

@[simp] theorem moves_cons : moves d s mem (i :: l) = moves d s (update mem (d i) (mem (s i))) l := rfl

/-- No cell is copied to before it is copied from, and none is copied to twice. -/
def Apart (d s : ι → A) (l : List ι) : Prop := l.Pairwise fun i j => d i ≠ s j ∧ d i ≠ d j

theorem moves_elsewhere (elsewhere : ∀ i ∈ l, a ≠ d i) : moves d s mem l a = mem a := by
  induction l generalizing mem with
  | nil => rfl
  | cons i l ih =>
    rw [moves_cons, ih fun j member => elsewhere j (List.mem_cons_of_mem i member)]
    exact Function.update_of_ne (elsewhere i List.mem_cons_self) ..

/-- Where the copies are apart, each of them gives the contents there were at first. -/
theorem moves_copied (apart : Apart d s l) (member : i ∈ l) : moves d s mem l (d i) = mem (s i) := by
  induction l generalizing mem with
  | nil => cases member
  | cons j l ih =>
    obtain ⟨first, rest⟩ := List.pairwise_cons.mp apart
    rw [moves_cons]
    rcases List.mem_cons.mp member with rfl | later
    · rw [moves_elsewhere fun j inside => (first j inside).2]
      exact Function.update_self ..
    · rw [ih rest later]
      exact Function.update_of_ne (first i later).1.symm ..

end Moves
