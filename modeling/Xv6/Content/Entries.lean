import Xv6.Content.Trunc

namespace Xv6.Content
open Function

/-- A file name as it is compared: at most `DIRSIZ` characters up to the first NUL. -/
abbrev Name := List UInt8

def nameKey (name : Bytes) : Name := Bytes.str DIRSIZ name

theorem namecmp_eq_zero {p q : Bytes} : namecmp p q = 0 ↔ nameKey p = nameKey q := Bytes.strncmp_eq_zero

theorem inumOf_congr {de de' : Bytes} (same : ∀ x < direntSize, de x = de' x) : inumOf de = inumOf de' :=
  Bytes.le_congr fun x small => same _ (by unfold direntSize; omega)

theorem nameKey_congr {de de' : Bytes} (same : ∀ x < direntSize, de x = de' x) :
    nameKey (nameOf de) = nameKey (nameOf de') :=
  Bytes.str_congr fun x small => same _ (by unfold direntSize; unfold DIRSIZ at small; omega)

theorem dirent_inum {inum : Nat} {name : Bytes} (small : inum < 65536) : inumOf (dirent inum name) = inum := by
  unfold inumOf dirent
  rw [Bytes.le_splice_disjoint (.inl (by decide))]
  exact Bytes.le_store_self (by simpa using small)

theorem dirent_name (inum : Nat) (name : Bytes) : nameKey (nameOf (dirent inum name)) = nameKey name := by
  have copy : nameKey (nameOf (dirent inum name)) = nameKey (strncpy name DIRSIZ) :=
    Bytes.str_congr fun x small => by
      simp only [nameOf, Bytes.drop_apply, dirent]
      rw [Bytes.splice_inside (by omega) (by omega)]
      congr 1
      omega
  rw [copy]
  exact Bytes.str_strncpy

namespace Volume

/-- Entry `k` of a directory. -/
def direntAt (s : Volume) (d k : Nat) : Bytes := (s.file d).drop (direntSize * k)

def inum (s : Volume) (d k : Nat) : Nat := inumOf (s.direntAt d k)

def name (s : Volume) (d k : Nat) : Name := nameKey (nameOf (s.direntAt d k))

/-- The number of entries. -/
def count (s : Volume) (d : Nat) : Nat := (s.inode d).size / direntSize

/-- Entry `k` is inside the directory and its block is there. -/
def Readable (s : Volume) (d k : Nat) : Prop :=
  direntSize * k + direntSize ≤ (s.inode d).size ∧ ∀ x, direntSize * k ≤ x → x < direntSize * k + direntSize →
    s.slot d (dataSlot (x / BSIZE)) ≠ 0

section Entries

variable {s s' : Volume} {d k j fuel : Nat} {wanted : Bytes} {message : String}

theorem NoHoles.readable (full : s.NoHoles d) (aligned : (s.inode d).size % direntSize = 0)
    (below : k < s.count d) :
    s.Readable d k := by
  have fits : direntSize * k + direntSize ≤ (s.inode d).size := by
    unfold count at below
    unfold direntSize at *
    omega
  refine ⟨fits, fun x lower upper => (full _ ?_).2⟩
  have := Nat.div_mul_le_self x BSIZE
  omega

theorem readDirent_spec (message : String) (cons : s.Consistent) (readable : s.Readable d k) :
    ∃ de, s.readDirent d (direntSize * k) message = .ok (de, s) ∧ inumOf de = s.inum d k ∧
      nameKey (nameOf de) = s.name d k := by
  obtain ⟨de, run, bytes⟩ := readi_inside (fun _ => 0) _ cons readable.1 readable.2
  have same : ∀ x < direntSize, de x = s.direntAt d k x := fun x small => by
    rw [bytes x small]
    rfl
  refine ⟨de, ?_, inumOf_congr same, nameKey_congr same⟩
  simp only [readDirent, run, Bind.bind, Except.bind]
  simp [Pure.pure, Except.pure]

/-- Entry `k` is the one that a lookup for the name finds. -/
def Hit (s : Volume) (d : Nat) (wanted : Bytes) (k : Nat) : Prop :=
  s.inum d k ≠ 0 ∧ s.name d k = nameKey wanted

instance (wanted : Bytes) (k : Nat) : Decidable (s.Hit d wanted k) := inferInstanceAs (Decidable (_ ∧ _))

theorem Readable.more (readable : s.Readable d k) (later : j ≤ k) : direntSize * j < (s.inode d).size := by
  have inside := readable.1
  have : direntSize * j ≤ direntSize * k := Nat.mul_le_mul_left _ later
  have : 0 < direntSize := by decide
  omega

/-- A round of `dirlookup`. -/
theorem lookupLoop_round (cons : s.Consistent) (readable : s.Readable d k) :
    lookupLoop d wanted (fuel + 1) (direntSize * k) s =
      if s.Hit d wanted k then .ok (some (s.inum d k, direntSize * k), s)
      else lookupLoop d wanted fuel (direntSize * (k + 1)) s := by
  obtain ⟨de, run, inum, name⟩ := readDirent_spec "dirlookup read" cons readable
  have same : namecmp wanted (nameOf de) = 0 ↔ s.name d k = nameKey wanted := by
    rw [namecmp_eq_zero, name]
    exact eq_comm
  rw [lookupLoop, if_pos (readable.more (le_refl k)), run]
  simp only [Bind.bind, Except.bind, inum, same]
  rfl

theorem lookupLoop_found (cons : s.Consistent) (from_le : j ≤ k) (readable : ∀ l, j ≤ l →
      l ≤ k → s.Readable d l)
    (hit : s.Hit d wanted k) (first : ∀ l, j ≤ l → l < k → ¬ s.Hit d wanted l) (enough : k < j + fuel) :
    lookupLoop d wanted fuel (direntSize * j) s = .ok (some (s.inum d k, direntSize * k), s) := by
  induction fuel generalizing j with
  | zero => omega
  | succ fuel ih =>
    rw [lookupLoop_round cons (readable j (le_refl j) from_le)]
    by_cases here : j = k
    · subst here
      rw [if_pos hit]
    · rw [if_neg (first j (le_refl j) (by omega))]
      exact ih (by omega) (fun l lower => readable l (by omega))
        (fun l lower => first l (by omega)) (by omega)

theorem lookupLoop_none (cons : s.Consistent) (aligned : (s.inode d).size % direntSize = 0)
    (readable : ∀ l, j ≤ l → l < s.count d → s.Readable d l)
    (none : ∀ l, j ≤ l → l < s.count d → ¬ s.Hit d wanted l) :
    lookupLoop d wanted fuel (direntSize * j) s = .ok (.none, s) := by
  induction fuel generalizing j with
  | zero => rfl
  | succ fuel ih =>
    by_cases more : j < s.count d
    · rw [lookupLoop_round cons (readable j (le_refl j) more), if_neg (none j (le_refl j) more)]
      exact ih (fun l lower => readable l (by omega)) fun l lower => none l (by omega)
    · rw [lookupLoop, if_neg]
      unfold count at more
      unfold direntSize at *
      omega

theorem count_le_size : s.count d ≤ (s.inode d).size := Nat.div_le_self _ _

/-- `dirlookup` in a directory without holes. -/
theorem dirlookup_spec (wanted : Bytes) (cons : s.Consistent) (dir : (s.inode d).type = T_DIR)
    (full : s.NoHoles d)
    (aligned : (s.inode d).size % direntSize = 0) :
    (∃ k < s.count d, s.Hit d wanted k ∧
      s.dirlookup d wanted = .ok (some (s.inum d k, direntSize * k), s)) ∨
    (∀ k < s.count d, ¬ s.Hit d wanted k) ∧ s.dirlookup d wanted = .ok (none, s) := by
  unfold dirlookup
  rw [if_neg (not_not.mpr dir)]
  by_cases some : ∃ k, k < s.count d ∧ s.Hit d wanted k
  · classical
    have hit := Nat.find_spec some
    refine .inl ⟨Nat.find some, hit.1, hit.2, ?_⟩
    have size := count_le_size (s := s) (d := d)
    refine lookupLoop_found (j := 0) cons (Nat.zero_le _)
      (fun l _ upper => full.readable aligned (by omega)) hit.2
      (fun l _ before again => Nat.find_min some before ⟨by omega, again⟩) (by omega)
  · have none : ∀ k < s.count d, ¬ s.Hit d wanted k := fun k below hit => some ⟨k, below, hit⟩
    exact .inr ⟨none, lookupLoop_none (j := 0) cons aligned (fun l _ below => full.readable aligned below)
      fun l _ below => none l below⟩

theorem emptyLoop_spec (fuel : Nat) (cons : s.Consistent) (full : s.NoHoles d)
    (aligned : (s.inode d).size % direntSize = 0)
    (from_le : j ≤ s.count d) (enough : s.count d ≤ j + fuel) :
    ∃ k ≤ s.count d, emptyLoop d fuel (direntSize * j) s = .ok (direntSize * k, s) ∧
      (k < s.count d → s.inum d k = 0) ∧ ∀ l, j ≤ l → l < k → s.inum d l ≠ 0 := by
  induction fuel generalizing j with
  | zero => exact ⟨j, from_le, rfl, fun below => by omega, fun l lower upper => by omega⟩
  | succ fuel ih =>
    by_cases more : j < s.count d
    · obtain ⟨de, run, inum, _⟩ := readDirent_spec "dirlink read" cons (full.readable aligned more)
      rw [emptyLoop, if_pos ((full.readable aligned more).more (le_refl j)), run]
      simp only [Bind.bind, Except.bind, inum]
      by_cases empty : s.inum d j = 0
      · exact ⟨j, from_le, by rw [if_pos empty]; rfl, fun _ => empty, fun l lower upper => by omega⟩
      · obtain ⟨k, bound, rest, found, live⟩ := ih (j := j + 1) (by omega) (by omega)
        refine ⟨k, bound, by rw [if_neg empty]; exact rest, found, fun l lower upper => ?_⟩
        by_cases here : l = j
        · rwa [here]
        · exact live l (by omega) upper
    · refine ⟨j, from_le, ?_, fun below => by omega, fun l lower upper => by omega⟩
      rw [emptyLoop, if_neg]
      unfold count at more
      unfold direntSize at *
      omega

theorem isdirempty_spec (cons : s.Consistent) (full : s.NoHoles d)
    (aligned : (s.inode d).size % direntSize = 0) :
    ∃ empty, s.isdirempty d = .ok (empty, s) ∧ (empty = true ↔ ∀ k, 2 ≤ k → k < s.count d →
      s.inum d k = 0) := by
  suffices ∀ fuel j, s.count d ≤ j + fuel →
      ∃ empty, isdiremptyLoop d fuel (direntSize * j) s = .ok (empty, s) ∧
      (empty = true ↔ ∀ k, j ≤ k → k < s.count d → s.inum d k = 0) from
    this (s.inode d).size 2 (by have size := count_le_size (s := s) (d := d); omega)
  intro fuel
  induction fuel with
  | zero => exact fun j enough => ⟨true, rfl, fun _ k lower upper => by omega, fun _ => rfl⟩
  | succ fuel ih =>
    intro j enough
    by_cases more : j < s.count d
    · obtain ⟨de, run, inum, _⟩ := readDirent_spec "isdirempty: readi" cons (full.readable aligned more)
      rw [isdiremptyLoop, if_pos ((full.readable aligned more).more (le_refl j)), run]
      simp only [Bind.bind, Except.bind, inum]
      by_cases empty : s.inum d j = 0
      · obtain ⟨rest, run, answer⟩ := ih (j + 1) (by omega)
        rw [if_neg (not_not.mpr empty)]
        refine ⟨rest, run, answer.trans ⟨fun others k lower upper => ?_, fun all k lower => all k (by omega)⟩⟩
        by_cases same : k = j
        · rw [same]
          exact empty
        · exact others k (by omega) upper
      · rw [if_pos empty]
        refine ⟨false, rfl, ⟨fun no => absurd no (by decide), fun all => ?_⟩⟩
        exact absurd (all j (le_refl j) more) empty
    · refine ⟨true, ?_, fun _ k lower upper => by omega, fun _ => rfl⟩
      rw [isdiremptyLoop, if_neg]
      unfold count at more
      unfold direntSize at *
      omega

end Entries

end Volume

end Xv6.Content
