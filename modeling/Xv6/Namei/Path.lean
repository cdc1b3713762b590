import Xv6.Namei.Machine
import Mathlib.Data.List.TakeWhile

/-! What a path means, and that `skipelem` takes it apart. -/

namespace Xv6.Namei
open Function Content

/-- The parts of a path between slashes that are not empty. -/
def components (path : List UInt8) : List (List UInt8) := (path.splitOn slash).filter (· ≠ [])

/-- The inode that a name stands for in a directory. -/
def child (v : Volume) (d : Nat) (name : Name) : Option Nat :=
  if (v.inode d).type = T_DIR then
    ((List.range (v.count d)).find? fun k => decide (v.inum d k ≠ 0 ∧ v.name d k = name)).map (v.inum d)
  else none

/-- The inode that is reached by following names, of which `DIRSIZ` characters count. -/
def follow (v : Volume) : Nat → List (List UInt8) → Option Nat
  | d, [] => some d
  | d, c :: cs => (child v d (c.take DIRSIZ)).bind fun i => follow v i cs

/-- The directory in which the last name is to be looked up. -/
def parent (v : Volume) : Nat → List (List UInt8) → Option Nat
  | _, [] => none
  | d, [_] => if (v.inode d).type = T_DIR then some d else none
  | d, c :: cs => (child v d (c.take DIRSIZ)).bind fun i => parent v i cs

/-- One of the names is not in its directory, or it is looked up in what is not a directory. -/
def Missing (v : Volume) (d : Nat) (cs : List (List UInt8)) : Prop :=
  ∃ before c after i, cs = before ++ c :: after ∧ follow v d before = some i ∧
    ((v.inode i).type ≠ T_DIR ∨ ∀ k < v.count i, v.inum i k ≠ 0 → v.name i k ≠ c.take DIRSIZ)

section Path

variable {v : Volume} {d e : Nat} {path elem rest : List UInt8} {cs : List (List UInt8)}

/-- The last name is looked up in the directory for it. -/
theorem follow_parent (up : parent v d cs = some e) :
    follow v d cs = child v e ((cs.getLastD []).take DIRSIZ) := by
  induction cs generalizing d with
  | nil => cases up
  | cons c rest ih =>
    cases rest with
    | nil =>
      simp only [parent] at up
      split at up
      next =>
        cases up
        exact Option.bind_fun_some _
      next => cases up
    | cons c' rest =>
      obtain ⟨i, here, up⟩ := Option.bind_eq_some_iff.mp up
      simp only [follow, here, Option.bind_some]
      exact ih up

theorem parent_cons (c c' : List UInt8) (cs : List (List UInt8)) :
    parent v d (c :: c' :: cs) = (child v d (c.take DIRSIZ)).bind fun i => parent v i (c' :: cs) := rfl

theorem parent_eq (some : cs ≠ []) : parent v d cs = (follow v d cs.dropLast).filter fun i =>
    (v.inode i).type = T_DIR := by
  induction cs generalizing d with
  | nil => exact absurd rfl some
  | cons c cs ih =>
    cases cs with
    | nil =>
      rw [List.dropLast_singleton, parent, follow, Option.filter_some]
      simp only [decide_eq_true_eq]
    | cons c' cs =>
      rw [List.dropLast_cons_cons, parent_cons, follow]
      cases child v d (c.take DIRSIZ) with
      | none => rfl
      | some i => exact ih (List.cons_ne_nil c' cs)

/-- No name leads on from a directory without it. -/
theorem follow_none {c : List UInt8} (none : child v d (c.take DIRSIZ) = none) (cs : List (List UInt8)) :
    follow v d (c :: cs) = .none := by
  rw [follow, none, Option.bind_none]

theorem parent_none {c : List UInt8} (none : child v d (c.take DIRSIZ) = none) (more : cs ≠ []) :
    parent v d (c :: cs) = .none := by
  cases cs with
  | nil => exact absurd rfl more
  | cons c' cs => rw [parent_cons, none, Option.bind_none]

theorem child_file (file : (v.inode d).type ≠ T_DIR) (name : Name) : child v d name = none := if_neg file

theorem parent_file (file : (v.inode d).type ≠ T_DIR) : parent v d cs = none := by
  cases cs with
  | nil => rfl
  | cons c cs =>
    cases cs with
    | nil => exact if_neg file
    | cons c' cs => exact parent_none (child_file file _) (List.cons_ne_nil c' cs)

theorem child_none (name : Name) :
    child v d name = none ↔ (v.inode d).type ≠ T_DIR ∨ ∀ k < v.count d, v.inum d k ≠ 0 →
    v.name d k ≠ name := by
  by_cases dir : (v.inode d).type = T_DIR
  · rw [child, if_pos dir, Option.map_eq_none_iff]
    simp [dir]
  · rw [child, if_neg dir]
    simp [dir]

theorem follow_none_iff : follow v d cs = none ↔ Missing v d cs := by
  induction cs generalizing d with
  | nil => exact ⟨nofun, fun ⟨before, c, after, i, eq, _⟩ => by simp at eq⟩
  | cons c cs ih =>
    rw [follow]
    constructor
    · intro none
      cases first : child v d (c.take DIRSIZ) with
      | none => exact ⟨[], c, cs, d, rfl, rfl, (child_none _).mp first⟩
      | some i =>
        rw [first, Option.bind_some] at none
        obtain ⟨before, c', after, j, rfl, reached, why⟩ := ih.mp none
        exact ⟨c :: before, c', after, j, rfl, by rw [follow, first, Option.bind_some, reached], why⟩
    · rintro ⟨before, c', after, j, eq, reached, why⟩
      cases before with
      | nil =>
        obtain ⟨rfl, rfl⟩ := List.cons.inj eq
        obtain rfl := Option.some.inj reached
        rw [(child_none _).mpr why, Option.bind_none]
      | cons c'' before =>
        obtain ⟨rfl, rfl⟩ := List.cons.inj eq
        rw [follow] at reached
        cases first : child v d (c.take DIRSIZ) with
        | none => rfl
        | some i =>
          rw [first, Option.bind_some] at reached
          exact ih.mpr ⟨before, c', after, j, rfl, reached, why⟩

theorem components_nil : components [] = [] := by
  unfold components
  rw [List.splitOn_nil]
  rfl

theorem components_slash (path : List UInt8) : components (slash :: path) = components path := by
  unfold components
  rw [List.splitOn_cons_eq_if_modifyHead, if_pos (BEq.refl slash), List.filter_cons_of_neg (by decide)]

theorem components_dropWhile (path : List UInt8) : components (path.dropWhile (· = slash)) =
    components path := by
  induction path with
  | nil => rfl
  | cons b path ih =>
    by_cases here : b = slash
    · rw [List.dropWhile_cons_of_pos (by simpa using here), ih, here, components_slash]
    · rw [List.dropWhile_cons_of_neg (by simpa using here)]

/-- The first component, up to the end of the path or a slash. -/
theorem components_append (some : elem ≠ []) (none : slash ∉ elem) (stop : ∀ b ∈ rest.head?, b = slash) :
    components (elem ++ rest) = elem :: components rest := by
  cases rest with
  | nil =>
    unfold components
    rw [List.append_nil, List.splitOn_eq_singleton none, List.splitOn_nil, List.filter_cons_of_pos
      (by simpa using some)]
    rfl
  | cons b rest =>
    obtain rfl : b = slash := stop b rfl
    rw [components_slash]
    unfold components
    rw [List.splitOn_append_cons_self_of_not_mem none, List.filter_cons_of_pos (by simpa using some)]

theorem head_dropWhile (p : UInt8 → Bool) (path : List UInt8) :
    ∀ b ∈ (path.dropWhile p).head?, p b = false := by
  intro b first
  have stopped := List.head?_dropWhile_not p path
  rw [Option.mem_def.mp first] at stopped
  exact stopped

/-- A path that does not start with a slash has a component, unless it is empty. -/
theorem components_start (some : path ≠ []) (start : ∀ b ∈ path.head?, b ≠ slash) : components path =
    path.takeWhile (· ≠ slash) :: components (path.dropWhile (· ≠ slash)) := by
  cases path with
  | nil => exact absurd rfl some
  | cons b path =>
    have elem : (b :: path).takeWhile (· ≠ slash) ≠ [] := by
      rw [List.takeWhile_cons_of_pos (by simpa using start b rfl)]
      exact List.cons_ne_nil _ _
    have whole : components ((b :: path).takeWhile (· ≠ slash) ++ (b :: path).dropWhile (· ≠ slash)) = _ :=
      components_append elem (fun member => ?_) fun c first => ?_
    · rwa [List.takeWhile_append_dropWhile] at whole
    · simpa using List.mem_takeWhile_imp member
    · simpa using head_dropWhile _ _ c first

/-- What `skipelem` leaves in `name`. -/
theorem nameKey_elem (name : Bytes) (nonzero : ∀ b ∈ elem, b ≠ 0) :
    nameKey (if DIRSIZ ≤ elem.length then name.splice 0 DIRSIZ (Bytes.ofList elem)
      else update (name.splice 0 elem.length (Bytes.ofList elem)) elem.length 0) = elem.take DIRSIZ := by
  unfold nameKey
  split
  next long =>
    rw [← Bytes.str_ofList nonzero]
    exact Bytes.str_congr fun x small => Bytes.splice_inside (Nat.zero_le x) (by omega)
  next short =>
    rw [Bytes.str_of_end (update_self ..) (by omega), ← Bytes.str_ofList nonzero,
      Bytes.str_of_end (k := elem.length) (Bytes.ofList_end elem) (by omega)]
    refine Bytes.str_congr fun x small => ?_
    rw [update_of_ne (by omega), Bytes.splice_inside (Nat.zero_le x) (by omega)]
    rfl

/-- `skipelem` removes one component. -/
theorem skipelem_spec (path : List UInt8) (name : Bytes) :
    skipelem path name = none ∧ components path = [] ∨ ∃ c rest name', skipelem path name =
    some (rest, name') ∧
      components path = c :: components rest ∧ (rest = [] ↔ components rest = []) ∧
      rest.length < path.length ∧ rest <:+ path ∧
      ((∀ b ∈ path, b ≠ 0) → nameKey name' = c.take DIRSIZ) := by
  unfold skipelem
  dsimp only
  have same := components_dropWhile path
  have start : ∀ b ∈ (path.dropWhile (· = slash)).head?, b ≠ slash := fun b first => by
    simpa using head_dropWhile _ _ b first
  have part := List.dropWhile_suffix (l := path) (· = slash)
  generalize path.dropWhile (· = slash) = path' at same start part ⊢
  by_cases empty : path' = []
  · rw [if_pos empty]
    rw [empty, components_nil] at same
    exact .inl ⟨rfl, same.symm⟩
  · rw [if_neg empty]
    have whole := components_start empty start
    have nonempty : path'.takeWhile (· ≠ slash) ≠ [] := by
      intro none
      rw [none] at whole
      have listed : [] ∈ components path' := whole ▸ List.mem_cons_self ..
      simp [components] at listed
    have length := congrArg List.length (List.takeWhile_append_dropWhile
      (p := fun b => decide (b ≠ slash)) (l := path'))
    have more := List.length_pos_iff.mpr nonempty
    have shorter := part.length_le
    have start' := head_dropWhile (fun b => decide (b = slash)) (path'.dropWhile (· ≠ slash))
    have rest := (List.dropWhile_suffix (l := path'.dropWhile (· ≠ slash)) (· = slash)).trans
      (List.dropWhile_suffix (l := path') (· ≠ slash))
    have left := (List.dropWhile_suffix (l := path'.dropWhile (· ≠ slash)) (· = slash)).length_le
    rw [← components_dropWhile (path'.dropWhile (· ≠ slash))] at whole
    rw [List.length_append] at length
    refine .inr ⟨_, _, _, rfl, same ▸ whole, ⟨fun none => by rw [none, components_nil], fun none => ?_⟩,
      by omega,
      rest.trans part, fun nonzero => nameKey_elem name fun b member => ?_⟩
    · by_contra some
      rw [components_start some fun b first => by simpa using start' b first] at none
      cases none
    · exact nonzero b (part.subset ((List.takeWhile_prefix _).subset member))

end Path

end Xv6.Namei
