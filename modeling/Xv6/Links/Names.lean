import Xv6.Links.Volume
import Xv6.Sysfile.Create

/-! What the calls do to the disk: the names that they make and take away, and new inodes. -/

namespace Xv6.Sysfile.Links
open Function Content Content.Volume Namei

section Names

variable {start n d e i k inum : Nat} {v v₁ v' : Volume} {x : Name} {name : Bytes} {r : Int}

theorem Renamed.before {j : Nat} (same : ∀ e, (v.inode e).type ≠ 0 → Volume.Kept e v v₁)
    (w : Renamed d x j v₁ v') : Renamed d x j v v' where
  cons := w.cons
  full {e} used := w.full (by rwa [(same e used).type])
  kept {e} apart dir dir' := by
    have first := same e (by rw [dir]; decide)
    exact first.trans (w.kept apart (first.type.trans dir) dir')
  dir {m} ok := w.dir (ok.keep (same d (by rw [ok.dir]; decide)))

theorem Renamed.after {j : Nat} (w : Renamed d x j v v₁) (cons : v'.Consistent)
    (same : ∀ e, v₁.NoHoles e → Volume.Kept e v₁ v')
    (types : ∀ e, (v'.inode e).type = (v₁.inode e).type) : Renamed d x j v v' where
  cons := cons
  full {e} used := (same e (w.full used)).full
  kept {e} apart dir dir' := by
    have second := same e (w.full (by rw [dir]; decide))
    exact (w.kept apart dir ((types e).symm.trans dir')).trans second
  dir ok := (w.dir ok).keep (same d (w.dir ok).full)

theorem addEntry_tight (tight : Tight start v) (cons : v.Consistent) (dir : Directory v d)
    (run : addEntry v d name inum = .ok (r, v')) :
    Tight start v' := by
  obtain ⟨k, at_most, look, -⟩ :=
    emptyLoop_spec (v.inode d).size (j := 0) cons dir.full dir.aligned (Nat.zero_le _)
    (by have := count_le_size (s := v) (d := d); omega)
  obtain ⟨r', v'', write, -⟩ := writeDirent_spec (dirent inum name) cons dir.full dir.aligned at_most
  rw [Nat.mul_zero] at look
  have whole : addEntry v d name inum = .ok (if r' = direntSize then 0 else -1, v'') := by
    simp [addEntry, look, write, Bind.bind, Except.bind, Pure.pure, Except.pure]
  rw [run] at whole
  cases whole
  exact tight.writei cons (by rw [dir.dir]; decide) write (by decide)

/-- An entry is made for a name that is not there, or a directory is left as it was. -/
structure Entered (start d : Nat) (x : Name) (inum : Nat) (v : Volume) (r : Int) (v' : Volume) : Prop where
  cons : v'.Consistent
  tight : Tight start v'
  only : Only d v v'
  type : (v'.inode d).type = (v.inode d).type
  nlink : (v'.inode d).nlink = (v.inode d).nlink
  result : r = 0 ∧ Renamed d x inum v v' ∨ r = -1 ∧ Volume.Kept d v v'

theorem Entered.types (w : Entered start d x inum v r v') (e : Nat) :
    (v'.inode e).type = (v.inode e).type := by
  by_cases here : e = d
  · rw [here, w.type]
  · rw [(w.only e here).1]

theorem Entered.nlinks (w : Entered start d x inum v r v') (e : Nat) :
    (v'.inode e).nlink = (v.inode e).nlink := by
  by_cases here : e = d
  · rw [here, w.nlink]
  · rw [(w.only e here).1]

/-- Nothing happens if the entry cannot be made. -/
theorem Entered.failed (w : Entered start d x inum v r v') (negative : r < 0) {e : Nat}
    (full : v.NoHoles e) : Volume.Kept e v v' := by
  by_cases here : e = d
  · rcases w.result with ⟨rfl, -⟩ | ⟨-, kept⟩
    · cases negative
    · exact here ▸ kept
  · exact (w.only e here).2 full

theorem Entered.renamed (w : Entered start d x inum v r v') (done : ¬r < 0) : Renamed d x inum v v' := by
  rcases w.result with ⟨-, renamed⟩ | ⟨rfl, -⟩
  · exact renamed
  · exact absurd (by decide) done

theorem addEntry_entered (tight : Tight start v) (cons : v.Consistent)
    (full : ∀ e, (v.inode e).type ≠ 0 → v.NoHoles e)
    (dir : Directory v d) (absent : child v d (nameKey name) = none) (live : 0 < inum ∧ inum < 65536) :
    ∃ r v', addEntry v d name inum = .ok (r, v') ∧ Entered start d (nameKey name) inum v r v' := by
  obtain ⟨r, v', run, cons', only, nlink, -, k, at_most, empty, r', written, answer⟩ :=
    addEntry_spec name inum cons dir.full dir.aligned
  refine ⟨r, v', run, cons', addEntry_tight tight cons dir run, only, written.fields, nlink, ?_⟩
  by_cases done : r' = direntSize
  · rw [if_pos done] at answer
    refine .inl ⟨answer, cons', fun {e} used => written.safe.noHoles e (full e used),
      fun {e} apart dir' _ => ?_, fun {m} ok => ?_⟩
    · exact (only e apart).2 (full e (by rw [dir']; decide))
    · have value : inumOf (dirent inum name) = inum := dirent_inum live.2
      have linked := ok.link written done at_most empty (by rw [value]; omega) fun j below live same => by
        rw [dirent_name] at same
        exact ((child_none _).mp absent).elim (fun file => file dir.dir) fun none => none j below live same
      rwa [value, dirent_name] at linked
  · rw [if_neg done] at answer
    exact .inr ⟨answer, written.failed done⟩

/-- An entry is taken away. -/
theorem removeEntry (linked : Linked n v) (tight : Tight start v) (dir : IsDir v d) (below : k < v.count d)
    (live : v.inum d k ≠ 0)
    (notDots : v.name d k ≠ dotKey ∧ v.name d k ≠ dotdotKey) : ∃ v',
      v.writei d (fun _ => 0) none (direntSize * k) direntSize = .ok ((direntSize : Int), v') ∧
      Tight start v' ∧ Only d v v' ∧
      (v'.inode d).type = (v.inode d).type ∧ (v'.inode d).nlink = (v.inode d).nlink ∧
      Renamed d (v.name d k) 0 v v' := by
  have directory := linked.directory dir
  obtain ⟨r, v', run, written⟩ :=
    writeDirent_spec (fun _ => 0) linked.cons directory.full directory.aligned (Nat.le_of_lt below)
  have done := written.present below
  obtain ⟨only, nlink⟩ := writei_only linked.cons (by decide) run
  refine ⟨v', done ▸ run, tight.writei linked.cons dir.used run (by decide), only, written.fields,
    nlink, written.safe.cons,
    fun {e} used => written.safe.noHoles e (linked.full used), fun {e} apart dir' _ => ?_, fun {m} ok => ?_⟩
  · exact (only e apart).2 (linked.full (by rw [dir']; decide))
  · exact ok.unlink written done below live (Bytes.le_zero ..) notDots

/-- A directory is empty if all its names but "." and ".." have been taken away. -/
theorem isdirempty_names (linked : Linked n v) (dir : IsDir v i) : ∃ empty, v.isdirempty i = .ok (empty, v) ∧
    (empty = true → ∀ y, (tree v).entry i y = none) := by
  obtain ⟨m, ok, -⟩ := linked.dirs dir
  obtain ⟨empty, run, correct⟩ := isdirempty_spec linked.cons ok.full ok.aligned
  refine ⟨empty, run, fun nothing y => ?_⟩
  rw [tree_entry]
  split
  next => rfl
  next other =>
    rw [names_eq dir ok, if_pos]
    by_contra some
    obtain ⟨k, below, live, same⟩ := ok.only y some
    obtain ⟨-, -, first, -, second⟩ := ok.dots
    by_cases small : 2 ≤ k
    · exact live (correct.mp nothing k small below)
    · have low : k = 0 ∨ k = 1 := by omega
      rcases low with rfl | rfl
      · exact other (.inl (same.symm.trans first))
      · exact other (.inr (same.symm.trans second))

/-! ### New inodes -/

/-- An inode is allocated, with one link. -/
theorem newInode (tight : Tight start v) (cons : v.Consistent) (free : (v.inode i).type = 0)
    (type : Nat) : ∃ v',
    (v.setInode i ⟨type, 0, 0, fun _ => 0⟩).logWrite.setNlink i 1 = v' ∧ v'.Consistent ∧
    Tight start v' ∧ Only i v v' ∧
      v'.inode i = ⟨type, 1, 0, fun _ => 0⟩ := by
  obtain ⟨v', filled, cons', only, inode, -⟩ := newInode_spec cons i type
  refine ⟨v', filled, cons', ?_, only, inode⟩
  rw [← filled]
  exact (tight.replace _ (fun l inside => tight.clear free inside) fun _ _ => rfl).setNlink i 1

theorem full_empty (empty : (v.inode i).size = 0) : v.NoHoles i := fun bn below => absurd below (by omega)

/-- The first entry of a directory. -/
theorem first_entry (cons : v.Consistent) (dir : Directory v i) (empty : (v.inode i).size = 0)
    (small : inum < 65536)
    (run : addEntry v i name inum = .ok (r, v')) (done : ¬r < 0) :
    Directory v' i ∧ v'.count i = 1 ∧ v'.inum i 0 = inum ∧ v'.name i 0 = nameKey name := by
  have none : v.count i = 0 := by
    unfold count
    rw [empty]
    rfl
  obtain ⟨r₁, v₁, run₁, -, -, -, -, k, at_most, -, r', written, answer⟩ :=
    addEntry_spec name inum cons dir.full dir.aligned
  rw [run] at run₁
  cases run₁
  have done' : r' = direntSize := by
    by_contra short
    rw [if_neg short] at answer
    exact done (by rw [answer]; decide)
  obtain rfl : k = 0 := by omega
  obtain ⟨aligned, count, ⟨inum', name'⟩, -⟩ := written.entries done' dir.aligned at_most
  rw [dirent_inum small] at inum'
  rw [dirent_name] at name'
  exact ⟨⟨written.fields.trans dir.dir, written.safe.noHoles i dir.full, aligned⟩, by omega, inum', name'⟩

/-- The second entry of a new directory makes it complete. -/
theorem second_entry (cons : v.Consistent) (dir : Directory v i) (one : v.count i = 1)
    (inum₁ : v.inum i 0 = i) (name₁ : v.name i 0 = nameKey dot)
    (live : 0 < i) (parent : 0 < d ∧ d < 65536) (run : addEntry v i dotdot d = .ok (r, v'))
    (done : ¬r < 0) : DirOk v' i (dots i d) := by
  obtain ⟨r₁, v₁, run₁, -, -, -, -, k, at_most, empty, r', written, answer⟩ :=
    addEntry_spec dotdot d cons dir.full dir.aligned
  rw [run] at run₁
  cases run₁
  have done' : r' = direntSize := by
    by_contra short
    rw [if_neg short] at answer
    exact done (by rw [answer]; decide)
  obtain rfl : k = 1 := by
    by_contra other
    obtain rfl : k = 0 := by omega
    have zero := empty (by omega)
    omega
  have apart : nameKey dot ≠ nameKey dotdot := by decide
  obtain ⟨aligned, count, ⟨inum₂, name₂⟩, rest⟩ := written.entries done' dir.aligned at_most
  rw [dirent_inum parent.2] at inum₂
  rw [dirent_name] at name₂
  obtain ⟨inum₀, name₀⟩ := rest 0 (by omega) (by omega)
  rw [inum₁] at inum₀
  rw [name₁] at name₀
  have two : v'.count i = 2 := by omega
  have cases : ∀ j, j < v'.count i → j = 0 ∨ j = 1 := fun j below => by omega
  refine ⟨written.fields.trans dir.dir, written.safe.noHoles i dir.full, aligned,
    ⟨by omega, by omega, name₀, by omega, name₂⟩,
    fun j l first second _ _ same => ?_, fun j below _ => ?_, fun key some => ?_⟩
  · rcases cases j first with rfl | rfl <;> rcases cases l second with rfl | rfl
    · rfl
    · rw [name₀, name₂] at same
      exact absurd same apart
    · rw [name₀, name₂] at same
      exact absurd same.symm apart
    · rfl
  · rcases cases j below with rfl | rfl
    · rw [name₀, inum₀, dots, update_of_ne apart, update_self]
    · rw [name₂, inum₂, dots, update_self]
  · by_cases last : key = nameKey dotdot
    · exact ⟨1, by omega, by omega, by rw [name₂, last]⟩
    · rw [dots, update_of_ne last] at some
      by_cases first : key = nameKey dot
      · exact ⟨0, by omega, by omega, by rw [name₀, first]⟩
      · rw [update_of_ne first] at some
        exact absurd rfl some

end Names

end Xv6.Sysfile.Links
