import Xv6.Namei.Path
import Mathlib.Data.Fintype.Card

/-! The inode table while a path is followed: some entries have more references than before, and one may be
locked. -/

namespace Xv6.Namei
open Function Content

/-- No inode has two entries in use. -/
def Fs.Unique (s : Fs) : Prop :=
  ∀ b c, 0 < (s.inode b).ref → 0 < (s.inode c).ref → (s.inode b).inum = (s.inode c).inum → b = c

/-- An inode that is allocated, and that is not freed when a reference to it is dropped that was not there at
first. -/
def Fs.Present (s : Fs) (i : Nat) : Prop :=
  (s.volume.inode i).type ≠ 0 ∧ ((s.volume.inode i).nlink ≠ 0 ∨ ∃ b, 0 < (s.inode b).ref ∧
    (s.inode b).inum = i)

/-- The inodes that have an entry in use. -/
def Fs.entered (s : Fs) : Finset Nat :=
  (Finset.univ.filter fun b => 0 < (s.inode b).ref).image fun b => (s.inode b).inum

/-- When these inodes have entries in use, an inode is one of them or there is an entry for it. -/
def Admits (entered : Finset Nat) (i : Nat) : Prop := i ∈ entered ∨ entered.card < NINODE

instance (entered : Finset Nat) (i : Nat) : Decidable (Admits entered i) :=
  inferInstanceAs (Decidable (_ ∨ _))

/-- From the inode `d` on, which has an entry, each inode that is looked up has one as well, or one is free
for it. -/
def Fs.Passes (s : Fs) : Nat → List (List UInt8) → Prop
  | _, [] => True
  | d, c :: cs => ∀ i, child s.volume d (c.take DIRSIZ) = some i → Admits (insert d
      s.entered) i ∧ s.Passes i cs

/-- Since `s₀` the entries in the list have got one more reference each, and only `lock` is locked. -/
structure Holds (refs : List Slot) (lock : Option Slot) (s₀ s : Fs) : Prop where
  volume : s.volume = s₀.volume
  cwd : s.cwd = s₀.cwd
  ref (b) : (s.inode b).ref = (s₀.inode b).ref + refs.count b
  inum {b} : 0 < (s₀.inode b).ref → (s.inode b).inum = (s₀.inode b).inum
  locked (b) : (s.inode b).locked = decide (lock = some b)
  unique : s.Unique

section Table

variable {s₀ s s' : Fs} {refs refs' : List Slot} {lock lock' : Option Slot} {ip b : Slot} {i : Nat}
  {E : String → Prop}

/-- An entry is stored that is not used, or is for an inode without another one. -/
theorem Fs.Unique.set (unique : s.Unique) {e : Entry}
    (fresh : ∀ b, b ≠ ip → 0 < (s.inode b).ref → (s.inode b).inum = e.inum → e.ref = 0) :
    Fs.Unique { s with inode := update s.inode ip e } := by
  intro b c used used' same
  dsimp only at used used' same
  by_cases here : b = ip
  · by_cases there : c = ip
    · rw [here, there]
    · rw [here, update_self] at used same
      rw [update_of_ne there] at used' same
      have unused := fresh c there used' same.symm
      omega
  · rw [update_of_ne here] at used same
    by_cases there : c = ip
    · rw [there, update_self] at used' same
      have unused := fresh b here used same
      omega
    · rw [update_of_ne there] at used' same
      exact unique b c used used' same

/-- An entry is stored. -/
theorem Holds.set (holds : Holds refs lock s₀ s) {e : Entry}
    (others : ∀ b, b ≠ ip → refs'.count b = refs.count b ∧ (lock' = some b ↔ lock = some b))
    (ref : e.ref = (s₀.inode ip).ref + refs'.count ip) (inum : 0 < (s₀.inode ip).ref →
      e.inum = (s₀.inode ip).inum)
    (locked : e.locked = decide (lock' = some ip))
    (unique : ∀ b, b ≠ ip → 0 < (s.inode b).ref → (s.inode b).inum = e.inum → e.ref = 0) :
    Holds refs' lock' s₀ { s with inode := update s.inode ip e } := by
  refine ⟨holds.volume, holds.cwd, fun b => ?_, fun {b} used => ?_, fun b => ?_, holds.unique.set unique⟩
  · dsimp only
    by_cases here : b = ip
    · rw [here, update_self, ref]
    · rw [update_of_ne here, holds.ref, (others b here).1]
  · dsimp only
    by_cases here : b = ip
    · rw [here] at used ⊢
      rw [update_self, inum used]
    · rw [update_of_ne here, holds.inum used]
  · dsimp only
    by_cases here : b = ip
    · rw [here, update_self, locked]
    · rw [update_of_ne here, holds.locked]
      exact decide_eq_decide.mpr (others b here).2.symm

theorem Holds.refl (unlocked : ∀ b, (s.inode b).locked = false) (unique : s.Unique) : Holds [] none s s :=
  ⟨rfl, rfl, fun b => by rw [List.count_nil, Nat.add_zero], fun _ => rfl, fun b => by rw [unlocked]; rfl, unique⟩

/-- An entry that is stored again with other fields for the reference count, the lock and the validity. -/
theorem Holds.keep (holds : Holds refs lock s₀ s) {e : Entry}
    (others : ∀ b, b ≠ ip → refs'.count b = refs.count b ∧ (lock' = some b ↔ lock = some b))
    (ref : e.ref = (s₀.inode ip).ref + refs'.count ip) (same : e.inum = (s.inode ip).inum)
    (locked : e.locked = decide (lock' = some ip)) (used : 0 < (s.inode ip).ref) :
    Holds refs' lock' s₀ { s with inode := update s.inode ip e } := by
  refine holds.set others ref (fun old => same.trans (holds.inum old)) locked fun b other live eq => ?_
  exact absurd (holds.unique b ip live used (eq.trans same)) other

theorem Holds.perm (holds : Holds refs lock s₀ s) (perm : refs.Perm refs') : Holds refs' lock s₀ s :=
  { holds with ref := fun b => by rw [holds.ref, perm.count_eq] }

theorem kept_inum (e : Entry) (same : e.inum = (s.inode ip).inum) (b : Slot) :
    (update s.inode ip e b).inum = (s.inode b).inum := by
  by_cases here : b = ip
  · rw [here, update_self, same]
  · rw [update_of_ne here]

theorem count_cons_of_ne {b : Slot} (other : b ≠ ip) (refs : List Slot) :
    (ip :: refs).count b = refs.count b :=
  List.count_cons_of_ne (Ne.symm other)

theorem lookup_some (found : s.lookup i = some ip) : 0 < (s.inode ip).ref ∧ (s.inode ip).inum = i := by
  simpa using List.find?_some found

theorem lookup_none (none : s.lookup i = none) (b : Slot) (used : 0 < (s.inode b).ref) :
    (s.inode b).inum ≠ i := by
  intro same
  have missing := List.find?_eq_none.mp none b (List.mem_finRange b)
  simp only [decide_eq_true_eq] at missing
  exact missing ⟨used, same⟩

theorem empty_some (found : s.empty = some ip) : (s.inode ip).ref = 0 := by
  simpa using List.find?_some found

theorem empty_none (none : s.empty = none) (b : Slot) : 0 < (s.inode b).ref := by
  have missing := List.find?_eq_none.mp none b (List.mem_finRange b)
  simp only [decide_eq_true_eq] at missing
  omega

theorem mem_entered : i ∈ s.entered ↔ ∃ b, 0 < (s.inode b).ref ∧ (s.inode b).inum = i := by
  simp only [Fs.entered, Finset.mem_image, Finset.mem_filter, Finset.mem_univ, true_and]

/-- As no inode has two entries, one is free while fewer than `NINODE` inodes have one. -/
theorem Fs.Unique.entered_lt (unique : s.Unique) : s.entered.card < NINODE ↔ ∃ b, (s.inode b).ref = 0 := by
  have card : s.entered.card = (Finset.univ.filter fun b => 0 < (s.inode b).ref).card := by
    refine Finset.card_image_of_injOn fun b member c member' same => ?_
    exact unique b c (Finset.mem_filter.mp member).2 (Finset.mem_filter.mp member').2 same
  have full : (Finset.univ.filter fun b => 0 < (s.inode b).ref).card < NINODE ↔ ¬∀ b, 0 < (s.inode b).ref := by
    have slots := Finset.card_lt_iff_ne_univ (Finset.univ.filter fun b : Slot => 0 < (s.inode b).ref)
    rw [Fintype.card_fin, Ne, Finset.filter_eq_self] at slots
    simpa only [Finset.mem_univ, true_imp_iff] using slots
  rw [card, full]
  simp only [not_forall, Nat.pos_iff_ne_zero, not_not]

/-- An entry that is looked for is there, or one is free, exactly if the inode is admitted. -/
theorem Fs.Unique.admits (unique : s.Unique) : Admits s.entered i ↔ s.lookup i ≠ none ∨ s.empty ≠ none := by
  unfold Admits
  rw [unique.entered_lt, mem_entered]
  refine or_congr ?_ ?_
  · constructor
    · rintro ⟨b, used, same⟩ none
      exact lookup_none none b used same
    · intro some
      obtain ⟨b, found⟩ := Option.ne_none_iff_exists'.mp some
      exact ⟨b, lookup_some found⟩
  · constructor
    · rintro ⟨b, free⟩ none
      have used := empty_none none b
      omega
    · intro some
      obtain ⟨b, found⟩ := Option.ne_none_iff_exists'.mp some
      exact ⟨b, empty_some found⟩

/-- An entry that has one more reference than before may be of a new inode. -/
theorem Holds.entered (holds : Holds [ip] lock s₀ s) : s.entered = insert (s.inode ip).inum s₀.entered := by
  ext i
  rw [Finset.mem_insert, mem_entered, mem_entered]
  constructor
  · rintro ⟨b, used, rfl⟩
    by_cases here : b = ip
    · exact .inl (by rw [here])
    · have old := holds.ref b
      rw [List.count_eq_zero.mpr fun member => here (List.mem_singleton.mp member)] at old
      exact .inr ⟨b, by omega, (holds.inum (by omega)).symm⟩
  · rintro (rfl | ⟨b, used, rfl⟩)
    · have more := holds.ref ip
      rw [List.count_singleton_self] at more
      exact ⟨ip, by omega, rfl⟩
    · have more := holds.ref b
      exact ⟨b, by omega, holds.inum used⟩

/-- `iget` adds a reference, or there is no entry left. -/
theorem iget_ends (holds : Holds refs lock s₀ s) (full : ¬Admits s.entered i → E "iget: no inodes") :
    Ends (iget i) s E fun ip s' => Admits s.entered i ∧ Holds (ip :: refs) lock s₀ s' ∧
    (s'.inode ip).inum = i ∧
      ∀ b, 0 < (s.inode b).ref → (s'.inode b).inum = (s.inode b).inum := by
  have admits := holds.unique.admits (i := i)
  unfold iget
  refine Ends.bind_run (rfl : (get : FsM Fs) s = .ok (s, s)) ?_
  cases found : s.lookup i with
  | some ip =>
    obtain ⟨used, inum⟩ := lookup_some found
    refine Ends.bind (Ends.modify ?_) fun _ _ => id
    refine ⟨admits.mpr (.inl (found ▸ Option.some_ne_none ip)),
      holds.keep (fun b other => ⟨count_cons_of_ne other refs, Iff.rfl⟩) ?_ rfl (holds.locked ip) used,
      ?_, fun b _ => ?_⟩
    · rw [List.count_cons_self, ← Nat.add_assoc, ← holds.ref]
    · dsimp only
      rw [update_self, inum]
    · exact @kept_inum s ip { s.inode ip with ref := (s.inode ip).ref + 1 } rfl b
  | none =>
    cases unused : s.empty with
    | none => exact full fun room => (admits.mp room).elim (absurd found) (absurd unused)
    | some ip =>
      have zero := empty_some unused
      have count := holds.ref ip
      refine Ends.bind (Ends.modify ?_) fun _ _ => id
      refine ⟨admits.mpr (.inr (unused ▸ Option.some_ne_none ip)),
        holds.set (fun b other => ⟨count_cons_of_ne other refs, Iff.rfl⟩) ?_
        (fun old => by omega) (holds.locked ip)
        fun b other used same => absurd same (lookup_none found b used), ?_, fun b used => ?_⟩
      · rw [List.count_cons_self]
        dsimp only
        omega
      · dsimp only
        rw [update_self]
      · have other : b ≠ ip := by
          rintro rfl
          omega
        dsimp only
        rw [update_of_ne other]

theorem idup_ends (holds : Holds refs lock s₀ s) (used : 0 < (s.inode ip).ref) :
    Ends (idup ip) s E fun r s' => r = ip ∧ Holds (ip :: refs) lock s₀ s' ∧
    ∀ b, (s'.inode b).inum = (s.inode b).inum := by
  unfold idup
  refine Ends.bind (Ends.modify ?_) fun _ _ => id
  refine ⟨rfl, holds.keep (fun b other => ⟨count_cons_of_ne other refs, Iff.rfl⟩) ?_ rfl
    (holds.locked ip) used, fun b => ?_⟩
  · rw [List.count_cons_self, ← Nat.add_assoc, ← holds.ref]
  · exact @kept_inum s ip { s.inode ip with ref := (s.inode ip).ref + 1 } rfl b

theorem ilock_ends (holds : Holds refs none s₀ s) (used : 0 < (s.inode ip).ref)
    (type : (s.volume.inode (s.inode ip).inum).type ≠ 0) :
    Ends (ilock ip) s E fun _ s' => Holds refs (some ip) s₀ s' ∧
    ∀ b, (s'.inode b).inum = (s.inode b).inum := by
  unfold ilock
  refine Ends.bind_run (rfl : (get : FsM Fs) s = .ok (s, s)) ?_
  refine Ends.ite (fun none => absurd none (by omega)) fun _ => Ends.ite (fun held => ?_) fun _ =>
    Ends.ite (fun wrong => absurd wrong.2 type) fun _ => Ends.modify ?_
  · rw [holds.locked] at held
    cases held
  · refine ⟨holds.keep (fun b other => ⟨rfl, ?_⟩) (holds.ref ip) rfl ?_ used, fun b => ?_⟩
    · exact ⟨fun same => absurd (Option.some.inj same).symm other, nofun⟩
    · exact (decide_eq_true rfl).symm
    · exact @kept_inum s ip { s.inode ip with locked := true, valid := true } rfl b

theorem iunlock_ends (holds : Holds refs (some ip) s₀ s) (used : 0 < (s.inode ip).ref) :
    Ends (iunlock ip) s E fun _ s' => Holds refs none s₀ s' ∧ ∀ b, (s'.inode b).inum = (s.inode b).inum := by
  unfold iunlock
  refine Ends.bind_run (rfl : (get : FsM Fs) s = .ok (s, s))
    (Ends.ite (fun wrong => ?_) fun _ => Ends.modify ?_)
  · rw [holds.locked, decide_eq_true rfl] at wrong
    rcases wrong with wrong | none
    · cases wrong
    · omega
  · refine ⟨holds.keep (fun b other => ⟨rfl, ?_⟩) (holds.ref ip) rfl rfl used, fun b => ?_⟩
    · exact ⟨nofun, fun same => absurd (Option.some.inj same).symm other⟩
    · exact @kept_inum s ip { s.inode ip with locked := false } rfl b

/-- A reference that was not there at first is not the last one to an inode without links. -/
theorem Holds.linked (holds : Holds refs lock s₀ s) (member : ip ∈ refs)
    (present : s₀.Present (s.inode ip).inum) :
    ¬((s.inode ip).ref = 1 ∧ (s.inode ip).valid ∧ (s.volume.inode (s.inode ip).inum).nlink = 0) := by
  rintro ⟨last, -, unlinked⟩
  have count := holds.ref ip
  have more := List.count_pos_iff.mpr member
  rw [holds.volume] at unlinked
  rcases present.2 with linked | ⟨b, used, inum⟩
  · exact linked unlinked
  · have used' := holds.ref b
    obtain rfl := holds.unique b ip (by omega) (by omega) ((holds.inum used).trans inum)
    omega

theorem iput_ends (holds : Holds (ip :: refs) none s₀ s) (present : s₀.Present (s.inode ip).inum) :
    Ends (iput ip) s E fun _ s' => Holds refs none s₀ s' ∧ ∀ b, (s'.inode b).inum = (s.inode b).inum := by
  have count := holds.ref ip
  rw [List.count_cons_self] at count
  unfold iput
  refine Ends.bind_run (rfl : (get : FsM Fs) s = .ok (s, s)) ?_
  dsimp only
  rw [if_neg (holds.linked (List.mem_cons_self ..) present)]
  refine Ends.modify ⟨holds.keep (fun b other => ⟨(count_cons_of_ne other refs).symm, Iff.rfl⟩) ?_ rfl
    (holds.locked ip) (by omega),
    fun b => ?_⟩
  · dsimp only
    omega
  · exact @kept_inum s ip { s.inode ip with ref := (s.inode ip).ref - 1 } rfl b

theorem iunlockput_ends (holds : Holds (ip :: refs) (some ip) s₀ s) (present : s₀.Present (s.inode ip).inum) :
    Ends (iunlockput ip) s E fun _ s' => Holds refs none s₀ s' ∧
    ∀ b, (s'.inode b).inum = (s.inode b).inum := by
  have count := holds.ref ip
  rw [List.count_cons_self] at count
  unfold iunlockput
  refine (iunlock_ends holds (by omega)).bind fun _ s₁ ⟨unlocked, same⟩ => ?_
  refine (iput_ends unlocked (same ip ▸ present)).mono fun _ s₂ ⟨dropped, same'⟩ => ⟨dropped, fun b => ?_⟩
  rw [same', same]

end Table

end Xv6.Namei
