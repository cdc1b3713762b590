import Xv6.Lib.Hierarchy
import Xv6.Links.Blocks
import Xv6.Sysfile.Table
import Xv6.Content.DirRuns

/-! The directories of a disk as a tree, and its inodes with as many links as there are names for them. -/

namespace Xv6.Sysfile.Links
open Function Content Content.Volume Namei

/-- The names that a directory has always. -/
def dotKey : Name := nameKey dot
def dotdotKey : Name := nameKey dotdot

/-- A directory that has not been removed. -/
def IsDir (v : Volume) (d : Nat) : Prop := (v.inode d).type = T_DIR ∧ (v.inode d).nlink ≠ 0

/-- What a name stands for in a directory that has not been removed. -/
def names (v : Volume) (d : Nat) (x : Name) : Option Nat :=
  if (v.inode d).nlink = 0 then none else child v d x

/-- The directories of a disk that have not been removed, with their names but for "." and "..". -/
def tree (v : Volume) : Hierarchy Nat Name where
  root := ROOTINO
  above d := names v d dotdotKey
  entry d x := if x = dotKey ∨ x = dotdotKey then none else names v d x

/-- Directories that form a tree, without holes, in which every name leads to an inode that is allocated and
that has one link for each of its names and each directory right below it. There are `n` inodes. -/
structure Linked (n : Nat) (v : Volume) : Prop where
  cons : v.Consistent
  inside {i} : (v.inode i).type ≠ 0 → 0 < i ∧ i < n
  full {i} : (v.inode i).type ≠ 0 → v.NoHoles i
  dirs {d} : IsDir v d → ∃ m, DirOk v d m ∧ m dotKey = d
  sound : (tree v).Sound
  present {d x i} : (tree v).entry d x = some i → (v.inode i).type ≠ 0
  nlink {i} : (v.inode i).type ≠ 0 → (v.inode i).nlink = (tree v).links i

/-- Name `x` of directory `d` stands for inode `r`, or for nothing if that is 0, and the other directories are
as they were. -/
structure Renamed (d : Nat) (x : Name) (r : Nat) (v v' : Volume) : Prop where
  cons : v'.Consistent
  full {e} : (v.inode e).type ≠ 0 → v'.NoHoles e
  kept {e} : e ≠ d → (v.inode e).type = T_DIR → (v'.inode e).type = T_DIR → Volume.Kept e v v'
  dir {m} : DirOk v d m → DirOk v' d (update m x r)

section Tree

variable {n d e i k : Nat} {v v' : Volume} {x y : Name} {m : Name → Nat}

theorem child_eq (ok : DirOk v d m) (x : Name) : child v d x = if m x = 0 then none else some (m x) := by
  unfold Namei.child
  rw [if_pos ok.dir]
  cases found : (List.range (v.count d)).find? fun k => decide (v.inum d k ≠ 0 ∧ v.name d k = x) with
  | none =>
    rw [List.find?_range_eq_none] at found
    rw [if_pos, Option.map_none]
    by_contra some
    obtain ⟨k, below, live, same⟩ := ok.only x some
    simpa [live, same] using found k below
  | some k =>
    rw [List.find?_range_eq_some, List.mem_range, decide_eq_true_eq] at found
    obtain ⟨⟨live, rfl⟩, below, -⟩ := found
    have value := ok.map k below live
    rw [if_neg (value ▸ live), value, Option.map_some]

theorem dots_live (ok : DirOk v d m) : m dotKey ≠ 0 ∧ m dotdotKey ≠ 0 := by
  obtain ⟨two, live₀, name₀, live₁, name₁⟩ := ok.dots
  have first := ok.map 0 (by omega) live₀
  have second := ok.map 1 (by omega) live₁
  rw [name₀] at first
  rw [name₁] at second
  exact ⟨first.trans_ne live₀, second.trans_ne live₁⟩

theorem tree_entry (v : Volume) (d : Nat) (x : Name) :
    (tree v).entry d x = if x = dotKey ∨ x = dotdotKey then none else names v d x := rfl

theorem names_dir (dir : IsDir v d) (x : Name) : names v d x = child v d x := if_neg dir.2

theorem names_eq (dir : IsDir v d) (ok : DirOk v d m) (x : Name) :
    names v d x = if m x = 0 then none else some (m x) :=
  (names_dir dir x).trans (child_eq ok x)

theorem names_file (file : ¬IsDir v d) (x : Name) : names v d x = none := by
  unfold names
  split
  next => rfl
  next linked => exact child_file (fun dir => file ⟨dir, linked⟩) x

theorem names_some (here : names v d x = some i) : IsDir v d := by
  by_contra file
  rw [names_file file] at here
  cases here

theorem tree_named (here : (tree v).entry d x = some i) : x ≠ dotKey ∧ x ≠ dotdotKey ∧
    names v d x = some i := by
  rw [tree_entry] at here
  split at here
  next => cases here
  next other => exact ⟨fun same => other (.inl same), fun same => other (.inr same), here⟩

theorem tree_absent (absent : names v d x = none) : (tree v).entry d x = none := by
  rw [tree_entry, absent, ite_self]

theorem names_kept (dirs : IsDir v' d ↔ IsDir v d) (same : IsDir v d → child v' d x = child v d x) :
    names v' d x = names v d x := by
  by_cases dir : IsDir v d
  · rw [names_dir dir, names_dir (dirs.mpr dir), same dir]
  · rw [names_file dir, names_file fun dir' => dir (dirs.mp dir')]

/-- Directories with the same names make the same tree. -/
theorem tree_congr (dirs : ∀ d, IsDir v' d ↔ IsDir v d) (same : ∀ d x, IsDir v d →
      child v' d x = child v d x) : tree v' = tree v := by
  have all (d : Nat) (x : Name) : names v' d x = names v d x := names_kept (dirs d) (same d x)
  unfold tree
  congr 1
  · exact funext fun d => all d _
  · exact funext fun d => funext fun x => by rw [all]

/-- Those that have one above them are the directories. -/
theorem Linked.above (linked : Linked n v) : (tree v).above d ≠ none ↔ IsDir v d := by
  refine ⟨fun some => ?_, fun dir => ?_⟩
  · obtain ⟨e, upward⟩ := Option.ne_none_iff_exists'.mp some
    exact names_some upward
  · obtain ⟨m, ok, -⟩ := linked.dirs dir
    show names v d dotdotKey ≠ none
    rw [names_eq dir ok, if_neg (dots_live ok).2]
    exact Option.some_ne_none _

theorem Linked.file (linked : Linked n v) : (tree v).above d = none ↔ ¬IsDir v d := by
  rw [← not_iff_not, ← ne_eq, linked.above, not_not]

theorem IsDir.used (dir : IsDir v d) : (v.inode d).type ≠ 0 := by
  rw [dir.1]
  decide

/-- Links are there for what a name leads to. -/
theorem Linked.linked (linked : Linked n v) (dir : IsDir v d) (here : child v d x = some i) :
    (v.inode i).type ≠ 0 ∧ (v.inode i).nlink ≠ 0 := by
  obtain ⟨m, ok, self⟩ := linked.dirs dir
  by_cases first : x = dotKey
  · rw [first, child_eq ok, self] at here
    split at here
    next => cases here
    next => exact Option.some.inj here ▸ ⟨dir.used, dir.2⟩
  by_cases second : x = dotdotKey
  · have upward : (tree v).above d = some i := by
      rw [← here, second]
      exact names_dir dir _
    have upper := linked.above.mp (linked.sound.dir_above upward)
    exact ⟨upper.used, upper.2⟩
  · have entry : (tree v).entry d x = some i :=
      by rw [tree_entry, if_neg (not_or.mpr ⟨first, second⟩), names_dir dir, here]
    have live := linked.present entry
    have some := linked.sound.links_pos entry
    have nlink := linked.nlink live
    exact ⟨live, by omega⟩

/-- The root is never removed. -/
theorem Linked.root (linked : Linked n v) : IsDir v ROOTINO :=
  linked.above.mp (linked.sound.root ▸ Option.some_ne_none (α := Nat) _)

theorem Linked.nonneg (linked : Linked n v) (live : (v.inode i).type ≠ 0) : 0 ≤ (v.inode i).nlink := by
  rw [linked.nlink live]
  exact Int.natCast_nonneg _

theorem Linked.directory (linked : Linked n v) (dir : IsDir v d) : Directory v d := by
  obtain ⟨m, ok, -⟩ := linked.dirs dir
  exact ⟨dir.1, ok.full, ok.aligned⟩

/-! ### Changes that leave the names as they are -/

/-- The inodes that are not directories may get other contents. -/
theorem Linked.same (linked : Linked n v) (cons : v'.Consistent)
    (types : ∀ e, (v'.inode e).type = (v.inode e).type) (nlinks : ∀ e, (v.inode e).type ≠ 0 →
      (v'.inode e).nlink = (v.inode e).nlink)
    (full : ∀ e, (v.inode e).type ≠ 0 → v'.NoHoles e) (kept : ∀ e, (v.inode e).type = T_DIR →
      Volume.Kept e v v') :
    Linked n v' ∧ tree v' = tree v := by
  have dirs (d : Nat) : IsDir v' d ↔ IsDir v d := by
    unfold IsDir
    rw [types]
    exact and_congr_right fun dir => by rw [nlinks d (by rw [dir]; decide)]
  have trees : tree v' = tree v := tree_congr dirs fun d x dir => child_kept (kept d dir.1) x
  refine ⟨⟨cons, fun {i} live => ?_, fun {i} live => ?_, fun {d} dir => ?_, ?_, fun {d x i} here => ?_,
    fun {i} live => ?_⟩, trees⟩
  · exact linked.inside (by rwa [← types])
  · exact full i (by rwa [← types])
  · obtain ⟨m, ok, self⟩ := linked.dirs ((dirs d).mp dir)
    exact ⟨m, ok.keep (kept d ok.dir), self⟩
  · rw [trees]
    exact linked.sound
  · rw [trees] at here
    rw [types]
    exact linked.present here
  · rw [types] at live
    rw [nlinks i live, trees]
    exact linked.nlink live

/-- An inode without links is freed. -/
theorem Linked.free (linked : Linked n v) (used : (v.inode i).type ≠ 0) (unlinked : (v.inode i).nlink = 0)
    (run : v.iputFree i = .ok v') :
    Linked n v' ∧ tree v' = tree v ∧ Only i v v' ∧ (v'.inode i).type = 0 := by
  obtain ⟨v₁, run', cons, only, type⟩ := free_only (d := i) linked.cons
  rw [run] at run'
  obtain rfl := Except.ok.inj run'
  have none : (tree v).links i = 0 := by
    have nlink := linked.nlink used
    omega
  obtain ⟨-, unnamed, -⟩ := linked.sound.unlinked none
  have other {d : Nat} (dir : IsDir v d) : d ≠ i := by
    rintro rfl
    exact dir.2 unlinked
  have dirs (d : Nat) : IsDir v' d ↔ IsDir v d := by
    by_cases here : d = i
    · rw [here]
      refine iff_of_false (fun dir => ?_) fun dir => dir.2 unlinked
      exact dir.used type
    · unfold IsDir
      rw [(only d here).1]
  have kept {d : Nat} (dir : IsDir v d) : Volume.Kept d v v' := (only d (other dir)).2 (linked.full dir.used)
  have trees : tree v' = tree v := tree_congr dirs fun d x dir => child_kept (kept dir) x
  have old {j : Nat} (live : (v'.inode j).type ≠ 0) : j ≠ i := by
    rintro rfl
    exact live type
  refine ⟨⟨cons, fun {j} live => ?_, fun {j} live => ?_, fun {d} dir => ?_, ?_, fun {d x j} here => ?_,
    fun {j} live => ?_⟩, trees, only, type⟩
  · have apart := old live
    rw [(only j apart).1] at live
    exact linked.inside live
  · have apart := old live
    rw [(only j apart).1] at live
    exact ((only j apart).2 (linked.full live)).full
  · have dir := (dirs d).mp dir
    obtain ⟨m, ok, self⟩ := linked.dirs dir
    exact ⟨m, ok.keep (kept dir), self⟩
  · rw [trees]
    exact linked.sound
  · rw [trees] at here
    have apart : j ≠ i := by
      rintro rfl
      exact unnamed d x here
    rw [(only j apart).1]
    exact linked.present here
  · have apart := old live
    rw [(only j apart).1] at live ⊢
    rw [trees]
    exact linked.nlink live

/-- An inode that is free has no links. -/
theorem Linked.fresh (linked : Linked n v) (free : (v.inode i).type = 0) : (tree v).links i = 0 :=
  linked.sound.no_links (linked.file.mpr fun dir => dir.used free) fun _ _ here => linked.present here free

/-- An inode is allocated, without links. -/
theorem Linked.alloc (linked : Linked n v) (free : (v.inode i).type = 0) (inside : 0 < i ∧ i < n)
    (cons : v'.Consistent)
    (full : v'.NoHoles i) (unlinked : (v'.inode i).nlink = 0)
    (others : ∀ e, e ≠ i → (v'.inode e).type = (v.inode e).type ∧ (v'.inode e).nlink = (v.inode e).nlink)
    (kept : ∀ e, (v.inode e).type ≠ 0 → Volume.Kept e v v') : Linked n v' ∧ tree v' = tree v := by
  have dirs (d : Nat) : IsDir v' d ↔ IsDir v d := by
    by_cases here : d = i
    · rw [here]
      exact iff_of_false (fun dir => dir.2 unlinked) fun dir => dir.used free
    · unfold IsDir
      rw [(others d here).1, (others d here).2]
  have trees : tree v' = tree v := tree_congr dirs fun d x dir => child_kept (kept d dir.used) x
  have unnamed := linked.fresh free
  refine ⟨⟨cons, fun {e} used => ?_, fun {e} used => ?_, fun {d} dir => ?_, ?_, fun {d x j} here => ?_,
    fun {e} used => ?_⟩, trees⟩
  · by_cases here : e = i
    · exact here ▸ inside
    · exact linked.inside ((others e here).1 ▸ used)
  · by_cases here : e = i
    · exact here ▸ full
    · exact (kept e ((others e here).1 ▸ used)).full
  · have dir := (dirs d).mp dir
    obtain ⟨m, ok, self⟩ := linked.dirs dir
    exact ⟨m, ok.keep (kept d dir.used), self⟩
  · rw [trees]
    exact linked.sound
  · rw [trees] at here
    have live := linked.present here
    have apart : j ≠ i := by
      rintro rfl
      exact live free
    rwa [(others j apart).1]
  · rw [trees]
    by_cases here : e = i
    · rw [here, unlinked, unnamed]
      rfl
    · rw [(others e here).1] at used
      rw [(others e here).2]
      exact linked.nlink used

/-! ### Changes of one name -/

theorem Linked.not_dots (linked : Linked n v) (dir : IsDir v d) (absent : child v d x = none) :
    x ≠ dotKey ∧ x ≠ dotdotKey := by
  obtain ⟨m, ok, -⟩ := linked.dirs dir
  have zero : m x = 0 := by
    by_contra some
    rw [child_eq ok, if_neg some] at absent
    cases absent
  refine ⟨?_, ?_⟩
  · rintro rfl
    exact (dots_live ok).1 zero
  · rintro rfl
    exact (dots_live ok).2 zero

/-- What the names of a directory stand for after one has changed. -/
theorem Renamed.names {r : Nat} (w : Renamed d x r v v') (linked : Linked n v) (dir : IsDir v d)
    (e : Nat) (dirs : IsDir v' e ↔ IsDir v e)
    (y : Name) : names v' e y = if e = d ∧ y = x then if r = 0 then none else some r else Links.names v e y := by
  by_cases here : e = d
  · subst here
    obtain ⟨m, ok, -⟩ := linked.dirs dir
    rw [names_eq (dirs.mpr dir) (w.dir ok), names_eq dir ok]
    by_cases there : y = x
    · rw [there, update_self, if_pos (⟨rfl, rfl⟩ : e = e ∧ x = x)]
    · rw [update_of_ne there, if_neg (fun both => there both.2 : ¬(e = e ∧ y = x))]
  · rw [if_neg fun both => here both.1]
    exact names_kept dirs fun dir => child_kept (w.kept here dir.1 (dirs.mpr dir).1) y

/-- The directories that were there are still there, with "." in each. -/
theorem Renamed.dirs {r : Nat} (w : Renamed d x r v v') (linked : Linked n v) (other : x ≠ dotKey) {e : Nat}
    (dir : IsDir v e) (dir' : IsDir v' e) : ∃ m, DirOk v' e m ∧ m dotKey = e := by
  obtain ⟨m, ok, self⟩ := linked.dirs dir
  by_cases here : e = d
  · subst here
    exact ⟨_, w.dir ok, by rw [update_of_ne other.symm, self]⟩
  · exact ⟨m, ok.keep (w.kept here dir.1 dir'.1), self⟩

/-- A name is given to an inode that is not a directory. -/
theorem Linked.link (linked : Linked n v) (w : Renamed d x i v v') (dir : IsDir v d)
    (absent : child v d x = none)
    (file : (v.inode i).type ≠ T_DIR) (inside : 0 < i ∧ i < n) (live : (v'.inode i).type ≠ 0)
    (file' : (v'.inode i).type ≠ T_DIR)
    (full : v'.NoHoles i) (nlink : (v'.inode i).nlink = (tree v).links i + 1)
    (others : ∀ e, e ≠ i → (v'.inode e).type = (v.inode e).type ∧ (v'.inode e).nlink = (v.inode e).nlink) :
    Linked n v' ∧ tree v' = (tree v).link d x i := by
  obtain ⟨first, second⟩ := linked.not_dots dir absent
  have dirs (e : Nat) : IsDir v' e ↔ IsDir v e := by
    by_cases here : e = i
    · rw [here]
      exact iff_of_false (fun dir => file' dir.1) fun dir => file dir.1
    · unfold IsDir
      rw [(others e here).1, (others e here).2]
  have names (e : Nat) (y : Name) :
    Links.names v' e y = if e = d ∧ y = x then some i else Links.names v e y := by
    rw [w.names linked dir e (dirs e), if_neg inside.1.ne']
  have missing : (tree v).entry d x = none := tree_absent ((names_dir dir x).trans absent)
  have trees : tree v' = (tree v).link d x i := by
    refine Hierarchy.ext rfl (funext fun e => ?_) (funext fun e => funext fun y => ?_)
    · show Links.names v' e dotdotKey = Links.names v e dotdotKey
      rw [names, if_neg fun both => second both.2.symm]
    · rw [Hierarchy.link_entry, tree_entry, tree_entry, names]
      by_cases here : e = d ∧ y = x
      · rw [if_pos here, if_pos here, if_neg]
        rw [here.2]
        exact not_or.mpr ⟨first, second⟩
      · rw [if_neg here, if_neg here]
  refine ⟨⟨w.cons, fun {e} used => ?_, fun {e} used => ?_, fun {e} dir' => ?_, ?_, fun {e y j} here => ?_,
    fun {e} used => ?_⟩, trees⟩
  · by_cases here : e = i
    · exact here ▸ inside
    · exact linked.inside ((others e here).1 ▸ used)
  · by_cases here : e = i
    · exact here ▸ full
    · exact w.full ((others e here).1 ▸ used)
  · exact w.dirs linked first ((dirs e).mp dir') dir'
  · rw [trees]
    exact linked.sound.link (linked.above.mpr dir) missing (linked.file.mpr fun dir => file dir.1)
  · rw [trees, Hierarchy.link_entry] at here
    by_cases same : j = i
    · exact same ▸ live
    · rw [(others j same).1]
      split at here
      next => exact absurd (Option.some.inj here).symm same
      next => exact linked.present here
  · rw [trees, linked.sound.link_links missing]
    by_cases here : e = i
    · rw [here, if_pos rfl, nlink]
      push_cast
      rfl
    · rw [(others e here).1] at used
      rw [(others e here).2, if_neg here, Nat.add_zero]
      exact linked.nlink used

/-- A name is given to a new directory. -/
theorem Linked.mkdir (linked : Linked n v) (w : Renamed d x i v v') (dir : IsDir v d)
    (absent : child v d x = none)
    (free : (v.inode i).type = 0) (inside : 0 < i ∧ i < n) (new : DirOk v' i (dots i d))
    (nlink : (v'.inode i).nlink = 1)
    (more : (v'.inode d).nlink = (v.inode d).nlink + 1)
    (types : ∀ e, e ≠ i → (v'.inode e).type = (v.inode e).type)
    (nlinks : ∀ e, e ≠ i → e ≠ d → (v'.inode e).nlink = (v.inode e).nlink) : Linked n v' ∧
    tree v' = (tree v).mkdir d x i := by
  obtain ⟨first, second⟩ := linked.not_dots dir absent
  have none := linked.fresh free
  have file : ¬IsDir v i := fun dir => dir.used free
  have apart : i ≠ d := by
    rintro rfl
    exact file dir
  have positive : 0 < d := (linked.inside dir.used).1
  have new' : IsDir v' i := ⟨new.dir, by rw [nlink]; decide⟩
  have dirs {e : Nat} (other : e ≠ i) : IsDir v' e ↔ IsDir v e := by
    unfold IsDir
    rw [types e other]
    by_cases here : e = d
    · have nonneg := linked.nonneg dir.used
      have nonzero := dir.2
      rw [here, more]
      exact and_congr_right fun _ => by omega
    · rw [nlinks e other here]
  have names {e : Nat} (other : e ≠ i) (y : Name) :
    Links.names v' e y = if e = d ∧ y = x then some i else Links.names v e y := by
    rw [w.names linked dir e (dirs other), if_neg inside.1.ne']
  have missing : (tree v).entry d x = .none := tree_absent ((names_dir dir x).trans absent)
  have trees : tree v' = (tree v).mkdir d x i := by
    refine Hierarchy.ext rfl (funext fun e => ?_) (funext fun e => funext fun y => ?_)
    · show Links.names v' e dotdotKey = update (tree v).above i (some d) e
      by_cases here : e = i
      · have value : dots i d dotdotKey = d := update_self ..
        rw [here, update_self, names_eq new' new, value, if_neg positive.ne']
      · rw [update_of_ne here, names here, if_neg fun both => second both.2.symm]
        rfl
    · show (tree v').entry e y = ((tree v).link d x i).entry e y
      rw [Hierarchy.link_entry, tree_entry, tree_entry]
      by_cases here : e = i
      · have other : ¬(i = d ∧ y = x) := fun both => apart both.1
        rw [here, names_file file, ite_self, ite_cond_eq_false _ _ (eq_false other)]
        split
        next => rfl
        next other =>
          obtain ⟨notDot, notDotdot⟩ := not_or.mp other
          have value : dots i d y = 0 := (update_of_ne notDotdot ..).trans (update_of_ne notDot ..)
          rw [names_eq new' new, if_pos value]
      · rw [names here]
        by_cases here : e = d ∧ y = x
        · rw [if_pos here, if_pos here, if_neg]
          rw [here.2]
          exact not_or.mpr ⟨first, second⟩
        · rw [if_neg here, if_neg here]
  refine ⟨⟨w.cons, fun {e} used => ?_, fun {e} used => ?_, fun {e} dir' => ?_, ?_, fun {e y j} here => ?_,
    fun {e} used => ?_⟩, trees⟩
  · by_cases here : e = i
    · exact here ▸ inside
    · exact linked.inside (types e here ▸ used)
  · by_cases here : e = i
    · exact here ▸ new.full
    · exact w.full (types e here ▸ used)
  · by_cases here : e = i
    · subst here
      exact ⟨_, new, (update_of_ne (by decide) ..).trans (update_self ..)⟩
    · exact w.dirs linked first ((dirs here).mp dir') dir'
  · rw [trees]
    exact linked.sound.mkdir (linked.above.mpr dir) missing none
  · rw [trees] at here
    have here : ((tree v).link d x i).entry e y = some j := here
    rw [Hierarchy.link_entry] at here
    by_cases same : j = i
    · rw [same, new.dir]
      decide
    · rw [types j same]
      split at here
      next => exact absurd (Option.some.inj here).symm same
      next => exact linked.present here
  · rw [trees, linked.sound.mkdir_links missing none]
    by_cases here : e = i
    · rw [here, if_pos rfl, if_neg apart, none, nlink]
      rfl
    · rw [types e here] at used
      rw [if_neg here, Nat.add_zero]
      have old := linked.nlink used
      by_cases there : e = d
      · rw [there] at old ⊢
        rw [if_pos rfl, more, old]
        push_cast
        rfl
      · rw [if_neg there, Nat.add_zero, nlinks e here there, old]

/-- The name of an inode that is not a directory is taken away. -/
theorem Linked.unlink (linked : Linked n v) (w : Renamed d x 0 v v') (here : (tree v).entry d x = some i)
    (file : (v.inode i).type ≠ T_DIR)
    (types : ∀ e, (v'.inode e).type = (v.inode e).type) (nlink : (v'.inode i).nlink = (v.inode i).nlink - 1)
    (others : ∀ e, e ≠ i → (v'.inode e).nlink = (v.inode e).nlink) : Linked n v' ∧
    tree v' = (tree v).unlink d x := by
  obtain ⟨first, second, found⟩ := tree_named here
  have dirs (e : Nat) : IsDir v' e ↔ IsDir v e := by
    by_cases here : e = i
    · rw [here]
      exact iff_of_false (fun dir => file ((types i).symm.trans dir.1)) fun dir => file dir.1
    · unfold IsDir
      rw [types, others e here]
  have names (e : Nat) (y : Name) :
    Links.names v' e y = if e = d ∧ y = x then none else Links.names v e y := by
    rw [w.names linked (names_some found) e (dirs e), if_pos rfl]
  have trees : tree v' = (tree v).unlink d x := by
    refine Hierarchy.ext rfl (funext fun e => ?_) (funext fun e => funext fun y => ?_)
    · show Links.names v' e dotdotKey = Links.names v e dotdotKey
      rw [names, if_neg fun both => second both.2.symm]
    · rw [Hierarchy.unlink_entry, tree_entry, tree_entry, names]
      by_cases here : e = d ∧ y = x
      · rw [if_pos here, if_pos here, ite_self]
      · rw [if_neg here, if_neg here]
  refine ⟨⟨w.cons, fun {e} used => linked.inside (types e ▸ used), fun {e} used => w.full (types e ▸ used),
    fun {e} dir' => w.dirs linked first ((dirs e).mp dir') dir', ?_, fun {e y j} there => ?_,
    fun {e} used => ?_⟩, trees⟩
  · rw [trees]
    exact linked.sound.unlink here (linked.file.mpr fun dir => file dir.1)
  · rw [trees] at there
    rw [types]
    exact linked.present (Hierarchy.unlink_entry_some there)
  · rw [types] at used
    have old := linked.nlink used
    have count := linked.sound.unlink_links here e
    rw [trees]
    by_cases same : e = i
    · rw [if_pos same] at count
      rw [same] at old count ⊢
      rw [nlink, old, ← count]
      push_cast
      omega
    · rw [if_neg same] at count
      rw [others e same, old, ← count, Nat.add_zero]

/-- An empty directory is removed. -/
theorem Linked.rmdir (linked : Linked n v) (w : Renamed d x 0 v v') (here : (tree v).entry d x = some i)
    (dirI : IsDir v i)
    (empty : ∀ y, (tree v).entry i y = none) (types : ∀ e, (v'.inode e).type = (v.inode e).type)
    (gone : (v'.inode i).nlink = 0)
    (less : (v'.inode d).nlink = (v.inode d).nlink - 1) (nlinks : ∀ e, e ≠ i → e ≠ d →
      (v'.inode e).nlink = (v.inode e).nlink) :
    Linked n v' ∧ tree v' = (tree v).rmdir d x i := by
  obtain ⟨first, second, found⟩ := tree_named here
  have dir := names_some found
  have apart := linked.sound.entry_ne here
  have sound := linked.sound.rmdir here (linked.above.mpr dirI) empty
  have counts := linked.sound.rmdir_links here (linked.above.mpr dirI)
  have still : (v'.inode d).nlink = ((tree v).rmdir d x i).links d := by
    have count := counts d
    rw [if_neg apart.symm, if_pos rfl] at count
    rw [less, linked.nlink dir.used, ← count]
    push_cast
    omega
  have upper : IsDir v' d := by
    refine ⟨(types d).trans dir.1, ?_⟩
    have upward : ((tree v).rmdir d x i).above d ≠ none := by
      show update (tree v).above i none d ≠ none
      rw [update_of_ne apart.symm]
      exact linked.above.mpr dir
    have some := sound.dir_links upward
    omega
  have dirs {e : Nat} (other : e ≠ i) : IsDir v' e ↔ IsDir v e := by
    by_cases here : e = d
    · rw [here]
      exact iff_of_true upper dir
    · unfold IsDir
      rw [types, nlinks e other here]
  have other {e : Nat} (dir' : IsDir v' e) : e ≠ i := by
    rintro rfl
    exact dir'.2 gone
  have names {e : Nat} (other : e ≠ i) (y : Name) :
    Links.names v' e y = if e = d ∧ y = x then none else Links.names v e y := by
    rw [w.names linked dir e (dirs other), if_pos rfl]
  have lost (y : Name) : Links.names v' i y = none := if_pos gone
  have trees : tree v' = (tree v).rmdir d x i := by
    refine Hierarchy.ext rfl (funext fun e => ?_) (funext fun e => funext fun y => ?_)
    · show Links.names v' e dotdotKey = update (tree v).above i none e
      by_cases here : e = i
      · rw [here, update_self, lost]
      · rw [update_of_ne here, names here, if_neg fun both => second both.2.symm]
        rfl
    · show (tree v').entry e y = ((tree v).unlink d x).entry e y
      rw [Hierarchy.unlink_entry]
      by_cases here : e = i
      · rw [here, if_neg fun both => apart both.1, empty, tree_entry, lost, ite_self]
      · rw [tree_entry, tree_entry, names here]
        by_cases here : e = d ∧ y = x
        · rw [if_pos here, if_pos here, ite_self]
        · rw [if_neg here, if_neg here]
  refine ⟨⟨w.cons, fun {e} used => linked.inside (types e ▸ used), fun {e} used => w.full (types e ▸ used),
    fun {e} dir' => w.dirs linked first ((dirs (other dir')).mp dir') dir', ?_, fun {e y j} there => ?_,
    fun {e} used => ?_⟩, trees⟩
  · rw [trees]
    exact sound
  · rw [trees] at there
    have kept : ((tree v).unlink d x).entry e y = some j := there
    rw [types]
    exact linked.present (Hierarchy.unlink_entry_some kept)
  · rw [types] at used
    have old := linked.nlink used
    have count := counts e
    rw [trees]
    by_cases same : e = i
    · have one := linked.sound.empty_links (linked.above.mpr dirI) here empty
      rw [if_pos same] at count
      rw [same] at count ⊢
      rw [gone]
      omega
    · by_cases there : e = d
      · rw [there, still]
      · rw [if_neg same, if_neg there] at count
        rw [nlinks e same there, old, ← count]
        rfl

end Tree

end Xv6.Sysfile.Links
