import Xv6.Content.Entries

namespace Xv6.Content
open Function

namespace Volume

/-- A directory whose live entries are a map from names to inode numbers, 0 standing for no entry. -/
structure DirOk (s : Volume) (d : Nat) (m : Name → Nat) : Prop where
  dir : (s.inode d).type = T_DIR
  full : s.NoHoles d
  aligned : (s.inode d).size % direntSize = 0
  dots : 2 ≤ s.count d ∧ s.inum d 0 ≠ 0 ∧ s.name d 0 = nameKey dot ∧ s.inum d 1 ≠ 0 ∧
    s.name d 1 = nameKey dotdot
  unique : ∀ j k, j < s.count d → k < s.count d → s.inum d j ≠ 0 → s.inum d k ≠ 0 →
    s.name d j = s.name d k → j = k
  map : ∀ k, k < s.count d → s.inum d k ≠ 0 → m (s.name d k) = s.inum d k
  only : ∀ key, m key ≠ 0 → ∃ k, k < s.count d ∧ s.inum d k ≠ 0 ∧ s.name d k = key

/-- Inode `d` and its contents are as they were. -/
structure Kept (d : Nat) (s s' : Volume) : Prop where
  type : (s'.inode d).type = (s.inode d).type
  size : (s'.inode d).size = (s.inode d).size
  full : s'.NoHoles d
  bytes : ∀ x < (s.inode d).size, s'.file d x = s.file d x

section Directory

variable {s s' : Volume} {d e k n : Nat} {m : Name → Nat} {wanted de src : Bytes} {limit : Option Nat}

theorem Kept.refl (full : s.NoHoles d) : Kept d s s := ⟨rfl, rfl, full, fun _ _ => rfl⟩

theorem Kept.trans {s'' : Volume} (first : Kept d s s') (second : Kept d s' s'') : Kept d s s'' :=
  ⟨second.type.trans first.type, second.size.trans first.size, second.full, fun x below =>
    (second.bytes x (by rwa [first.size])).trans (first.bytes x below)⟩

/-- The bytes of an entry are all that it depends on. -/
theorem entry_congr (bytes : ∀ x, direntSize * k ≤ x → x < direntSize * k + direntSize →
      s'.file d x = s.file d x) :
    s'.inum d k = s.inum d k ∧ s'.name d k = s.name d k := by
  have same : ∀ x < direntSize, s'.direntAt d k x = s.direntAt d k x := fun x small =>
    bytes _ (by omega) (by omega)
  exact ⟨inumOf_congr same, nameKey_congr same⟩

theorem below_count (below : k < s.count d) : direntSize * k + direntSize ≤ (s.inode d).size := by
  unfold count at below
  unfold direntSize at *
  omega

theorem Kept.count (kept : Kept d s s') : s'.count d = s.count d := by
  unfold Volume.count
  rw [kept.size]

theorem Kept.entry (kept : Kept d s s') (below : k < s.count d) :
    s'.inum d k = s.inum d k ∧ s'.name d k = s.name d k :=
  entry_congr fun x _ upper => kept.bytes x (by have := below_count below; omega)

theorem DirOk.keep (ok : DirOk s d m) (kept : Kept d s s') : DirOk s' d m := by
  have entry := fun k below => kept.entry (k := k) below
  have two := ok.dots.1
  refine ⟨kept.type.trans ok.dir, kept.full, by rw [kept.size]; exact ok.aligned, ?_, ?_, ?_, ?_⟩
  · rw [kept.count, (entry 0 (by omega)).1, (entry 0 (by omega)).2, (entry 1 (by omega)).1,
      (entry 1 (by omega)).2]
    exact ok.dots
  · rw [kept.count]
    intro j k first second live live' same
    rw [(entry j first).1] at live
    rw [(entry k second).1] at live'
    rw [(entry j first).2, (entry k second).2] at same
    exact ok.unique j k first second live live' same
  · rw [kept.count]
    intro k below live
    rw [(entry k below).1] at live ⊢
    rw [(entry k below).2]
    exact ok.map k below live
  · rw [kept.count]
    intro key some
    obtain ⟨k, below, live, name⟩ := ok.only key some
    exact ⟨k, below, by rwa [(entry k below).1], by rwa [(entry k below).2]⟩

/-- `dirlookup` finds what the map has. -/
theorem DirOk.lookup (ok : DirOk s d m) (cons : s.Consistent) (wanted : Bytes) :
    (∃ k < s.count d, s.Hit d wanted k ∧ m (nameKey wanted) = s.inum d k ∧ m (nameKey wanted) ≠ 0 ∧
      s.dirlookup d wanted = .ok (some (m (nameKey wanted), direntSize * k), s)) ∨
    m (nameKey wanted) = 0 ∧ (∀ k < s.count d, ¬ s.Hit d wanted k) ∧ s.dirlookup d wanted = .ok (none, s) := by
  rcases dirlookup_spec wanted cons ok.dir ok.full ok.aligned with ⟨k, below, hit, run⟩ | ⟨none, run⟩
  · have value := ok.map k below hit.1
    rw [hit.2] at value
    exact .inl ⟨k, below, hit, value, by rw [value]; exact hit.1, by rw [run, value]⟩
  · refine .inr ⟨?_, none, run⟩
    by_contra some
    obtain ⟨k, below, live, name⟩ := ok.only _ some
    exact none k below ⟨live, name⟩

/-- Everything but inode `d` is as it was. -/
def OthersKept (d : Nat) (s s' : Volume) : Prop :=
  ∀ e, e ≠ d → (s'.inode e).type = (s.inode e).type ∧ (s.NoHoles e → Kept e s s')

theorem Wrote.kept (wrote : Wrote d s s') (apart : e ≠ d) (full : s.NoHoles e) :
    Kept e s s' := by
  have same := wrote.others e apart
  refine ⟨by rw [same.1], by rw [same.1], wrote.noHoles full, fun x below => ?_⟩
  obtain ⟨small, present⟩ := full (x / BSIZE) (by have := Nat.div_mul_le_self x BSIZE; omega)
  unfold file
  rw [same.2 _ (dataSlot_lt small), wrote.blocks e apart _ (dataSlot_lt small) (dataSlot_ne _) present]

theorem setSize_type (s : Volume) (i size j : Nat) : ((s.setSize i size).inode j).type = (s.inode j).type := by
  by_cases same : j = i
  · subst same
    simp [setSize, setInode, logWrite]
  · rw [setSize_other same]

theorem Wrote.others_kept {i size : Nat} (wrote : Wrote i s s') (safe : Safe s (s'.setSize i size)) :
    OthersKept i s (s'.setSize i size) := fun e apart => by
  rw [setSize_type, (wrote.others e apart).1]
  refine ⟨rfl, fun full => ?_⟩
  have kept := wrote.kept apart full
  refine ⟨by rw [setSize_other apart]; exact kept.type, by rw [setSize_other apart]; exact kept.size,
    safe.noHoles e full, fun x below => ?_⟩
  rw [setSize_file]
  exact kept.bytes x below

/-- The outcome of writing entry `k` of a directory. -/
structure EntryWritten (d k : Nat) (de : Bytes) (s : Volume) (r : Int) (s' : Volume) : Prop where
  safe : Safe s s'
  others : OthersKept d s s'
  fields : (s'.inode d).type = (s.inode d).type
  present : k < s.count d → r = direntSize
  done : r = direntSize → (s'.inode d).size = max (s.inode d).size (direntSize * k + direntSize) ∧
    (∀ x < direntSize, s'.file d (direntSize * k + x) = de x) ∧
    ∀ x < (s.inode d).size, x < direntSize * k ∨ direntSize * k + direntSize ≤ x → s'.file d x = s.file d x
  failed : r ≠ direntSize → Kept d s s'

theorem writeDirent_spec (de : Bytes) (cons : s.Consistent) (full : s.NoHoles d)
    (aligned : (s.inode d).size % direntSize = 0)
    (at_most : k ≤ s.count d) : ∃ r s', s.writei d de none (direntSize * k) direntSize = .ok (r, s') ∧
      EntryWritten d k de s r s' := by
  have sizes := cons.sizes d
  have position : direntSize * k ≤ (s.inode d).size := by
    unfold count at at_most
    unfold direntSize at *
    omega
  obtain ⟨r, s', run, ⟨rfl, rfl, why⟩ | ⟨off', tot', s₁, rfl, _, fits, written, rfl⟩⟩ :=
    writei_spec d de none (direntSize * k) cons (by decide : direntSize < 2 ^ 32)
  · refine ⟨_, _, run, Safe.refl cons, fun e _ => ⟨rfl, Kept.refl⟩, rfl, fun below => ?_, fun done => ?_,
      fun _ => Kept.refl full⟩
    · have := below_count below
      omega
    · exact absurd done (by decide)
  have count := written.count
  have bytes : ∀ x, x / BSIZE < MAXFILE → s.slot d (dataSlot (x / BSIZE)) ≠ 0 →
      x < direntSize * k ∨ off' ≤ x →
      (s₁.setSize d (max (s.inode d).size off')).file d x = s.file d x := fun x small present out => by
    rw [setSize_file]
    exact written.outside rfl x out small present
  have old : ∀ x < (s.inode d).size, x / BSIZE < MAXFILE ∧ s.slot d (dataSlot (x / BSIZE)) ≠ 0 :=
    fun x below =>
    full (x / BSIZE) (by have := Nat.div_mul_le_self x BSIZE; omega)
  have all : tot' = 0 ∨ tot' = direntSize := by
    by_contra other
    rw [not_or] at other
    rcases written.aligned rfl (by omega) with none | whole
    · exact other.1 none
    · unfold BSIZE at whole
      unfold direntSize at *
      omega
  have safe := written.safe cons position fits
  refine ⟨_, _, run, safe, written.wrote.others_kept safe, ?_, fun below => ?_, fun done =>
    ⟨?_, fun x small => ?_,
    fun x below out => ?_⟩, fun short => ?_⟩
  · rw [setSize_type]
    exact written.wrote.fields.1
  · have inside := below_count below
    have complete := written.complete rfl fun x _ upper => (old x (by omega)).2
    rw [complete]
  · have whole : tot' = direntSize := Int.ofNat.inj done
    rw [setSize_size]
    omega
  · have whole : tot' = direntSize := Int.ofNat.inj done
    rw [setSize_file, written.inside rfl _ (by omega) (by omega)]
    congr 1
    omega
  · have whole : tot' = direntSize := Int.ofNat.inj done
    exact bytes x (old x below).1 (old x below).2 (by omega)
  · have zero : tot' = 0 := all.resolve_right fun whole => short (by rw [whole])
    refine ⟨by rw [setSize_type]; exact written.wrote.fields.1, by rw [setSize_size]; omega, safe.noHoles d full,
      fun x below => bytes x (old x below).1 (old x below).2 (by omega)⟩

/-- The entries after one has been written. -/
theorem EntryWritten.entries {r : Int} (w : EntryWritten d k de s r s') (done : r = direntSize)
    (aligned : (s.inode d).size % direntSize = 0) (at_most : k ≤ s.count d) :
    (s'.inode d).size % direntSize = 0 ∧ s'.count d = max (s.count d) (k + 1) ∧
    (s'.inum d k = inumOf de ∧ s'.name d k = nameKey (nameOf de)) ∧
    ∀ j < s.count d, j ≠ k → s'.inum d j = s.inum d j ∧ s'.name d j = s.name d j := by
  obtain ⟨size, inside, outside⟩ := w.done done
  refine ⟨?_, ?_, ⟨inumOf_congr inside, nameKey_congr inside⟩, fun j below apart =>
    entry_congr fun x lower upper => ?_⟩
  · rw [size]
    unfold direntSize at *
    omega
  · unfold count at *
    rw [size]
    unfold direntSize at *
    omega
  · have := below_count below
    refine outside x (by omega) ?_
    unfold direntSize at *
    omega

/-- A new entry for a name that has none. -/
theorem DirOk.link {r : Int} (ok : DirOk s d m) (w : EntryWritten d k de s r s') (done : r = direntSize)
    (at_most : k ≤ s.count d) (empty : k < s.count d → s.inum d k = 0) (live : inumOf de ≠ 0)
    (fresh : ∀ j < s.count d, s.inum d j ≠ 0 → s.name d j ≠ nameKey (nameOf de)) :
    DirOk s' d (update m (nameKey (nameOf de)) (inumOf de)) := by
  obtain ⟨aligned, count, ⟨inum, name⟩, rest⟩ := w.entries done ok.aligned at_most
  have old : ∀ j, j < s'.count d → j ≠ k → j < s.count d := fun j below apart => by omega
  have two := ok.dots
  have late : ∀ j, j < s.count d → s.inum d j ≠ 0 → j ≠ k := fun j below live same => by
    subst same
    exact live (empty below)
  refine ⟨w.fields.trans ok.dir, w.safe.noHoles d ok.full, aligned, ?_, ?_, ?_, ?_⟩
  · obtain ⟨least, live0, name0, live1, name1⟩ := two
    obtain ⟨inum0, same0⟩ := rest 0 (by omega) (late 0 (by omega) live0)
    obtain ⟨inum1, same1⟩ := rest 1 (by omega) (late 1 (by omega) live1)
    exact ⟨by omega, by rwa [inum0], by rwa [same0], by rwa [inum1], by rwa [same1]⟩
  · intro j l first second liveJ liveL same
    by_cases atJ : j = k <;> by_cases atL : l = k
    · omega
    · obtain ⟨inumL, nameL⟩ := rest l (old l second atL) atL
      rw [atJ, name, nameL] at same
      exact absurd same.symm (fresh l (old l second atL) (by rwa [← inumL]))
    · obtain ⟨inumJ, nameJ⟩ := rest j (old j first atJ) atJ
      rw [atL, name, nameJ] at same
      exact absurd same (fresh j (old j first atJ) (by rwa [← inumJ]))
    · obtain ⟨inumJ, nameJ⟩ := rest j (old j first atJ) atJ
      obtain ⟨inumL, nameL⟩ := rest l (old l second atL) atL
      rw [inumJ] at liveJ
      rw [inumL] at liveL
      rw [nameJ, nameL] at same
      exact ok.unique j l (old j first atJ) (old l second atL) liveJ liveL same
  · intro j below liveJ
    by_cases here : j = k
    · rw [here, name, inum, update_self]
    · obtain ⟨inumJ, nameJ⟩ := rest j (old j below here) here
      rw [inumJ] at liveJ ⊢
      rw [nameJ, update_of_ne (fresh j (old j below here) liveJ)]
      exact ok.map j (old j below here) liveJ
  · intro key some
    by_cases same : key = nameKey (nameOf de)
    · exact ⟨k, by omega, by rwa [inum], by rw [name, same]⟩
    · rw [update_of_ne same] at some
      obtain ⟨j, below, liveJ, nameJ⟩ := ok.only key some
      obtain ⟨inumJ, sameJ⟩ := rest j below (late j below liveJ)
      exact ⟨j, by omega, by rwa [inumJ], by rwa [sameJ]⟩

/-- An entry is cleared. -/
theorem DirOk.unlink {r : Int} (ok : DirOk s d m) (w : EntryWritten d k de s r s') (done : r = direntSize)
    (below : k < s.count d) (live : s.inum d k ≠ 0) (dead : inumOf de = 0)
    (notDots : s.name d k ≠ nameKey dot ∧ s.name d k ≠ nameKey dotdot) :
    DirOk s' d (update m (s.name d k) 0) := by
  obtain ⟨aligned, count, ⟨inum, _⟩, rest⟩ := w.entries done ok.aligned (by omega)
  have same : s'.count d = s.count d := by omega
  have other : ∀ j, s'.inum d j ≠ 0 → j ≠ k := fun j liveJ here => by
    rw [here, inum] at liveJ
    exact liveJ dead
  have two := ok.dots
  refine ⟨w.fields.trans ok.dir, w.safe.noHoles d ok.full, aligned, ?_, ?_, ?_, ?_⟩
  · obtain ⟨least, live0, name0, live1, name1⟩ := two
    obtain ⟨inum0, same0⟩ := rest 0 (by omega) fun here => notDots.1 (by rw [← here, name0])
    obtain ⟨inum1, same1⟩ := rest 1 (by omega) fun here => notDots.2 (by rw [← here, name1])
    exact ⟨by omega, by rwa [inum0], by rwa [same0], by rwa [inum1], by rwa [same1]⟩
  · intro j l first second liveJ liveL names
    rw [same] at first second
    obtain ⟨inumJ, nameJ⟩ := rest j first (other j liveJ)
    obtain ⟨inumL, nameL⟩ := rest l second (other l liveL)
    rw [inumJ] at liveJ
    rw [inumL] at liveL
    rw [nameJ, nameL] at names
    exact ok.unique j l first second liveJ liveL names
  · intro j bound liveJ
    rw [same] at bound
    have apart := other j liveJ
    obtain ⟨inumJ, nameJ⟩ := rest j bound apart
    rw [inumJ] at liveJ ⊢
    rw [nameJ, update_of_ne fun names => apart (ok.unique j k bound below liveJ live names)]
    exact ok.map j bound liveJ
  · intro key some
    have apart : key ≠ s.name d k := by
      rintro rfl
      rw [update_self] at some
      exact some rfl
    rw [update_of_ne apart] at some
    obtain ⟨j, bound, liveJ, nameJ⟩ := ok.only key some
    obtain ⟨inumJ, sameJ⟩ := rest j bound fun here => apart (by rw [← nameJ, here])
    exact ⟨j, by omega, by rwa [inumJ], by rwa [sameJ]⟩

end Directory

end Volume

end Xv6.Content
