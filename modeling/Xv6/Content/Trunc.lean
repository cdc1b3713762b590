import Xv6.Content.Ops

namespace Xv6.Content
open Function

/-- A counting loop whose rounds never fail. -/
theorem foldlM_range {σ ε : Type} {f : σ → Nat → Except ε σ} {J : Nat → σ → Prop} {s : σ}
    (n : Nat) (start : J 0 s)
    (round : ∀ k s, k < n → J k s → ∃ s', f s k = .ok s' ∧ J (k + 1) s') :
    ∃ s', (List.range n).foldlM f s = .ok s' ∧ J n s' := by
  induction n with
  | zero => exact ⟨s, rfl, start⟩
  | succ n ih =>
    obtain ⟨s₁, run, now⟩ := ih fun k s below => round k s (by omega)
    obtain ⟨s₂, step, next⟩ := round n s₁ (by omega) now
    refine ⟨s₂, ?_, next⟩
    rw [List.range_succ, List.foldlM_append, run]
    simp [bind, Except.bind, step, pure, Except.pure]

namespace Volume

/-- The blocks at some places of inode `i` have been freed. -/
structure Freed (i : Nat) (gone : Nat → Prop) (s s' : Volume) : Prop where
  size : s'.size = s.size
  block : s'.block = s.block
  others : ∀ j, j ≠ i → s'.inode j = s.inode j
  fields : (s'.inode i).type = (s.inode i).type ∧ (s'.inode i).nlink = (s.inode i).nlink
  used : ∀ b, s.used b = true → (∀ l < NSLOT, gone l → s.slot i l ≠ b) → s'.used b = true

section Trunc

variable {s s' : Volume} {i j k l : Nat} {gone gone' : Nat → Prop}

/-- A block that has not been freed yet is marked in the bitmap. -/
theorem Freed.marked (freed : Freed i gone s s') (cons : s.Consistent) (small : k < NSLOT)
    (present : s.slot i k ≠ 0)
    (still : ¬ gone k) : s'.used (s.slot i k) = true := by
  refine freed.used _ (cons.used i k small present) fun l below left same => still ?_
  have place := (cons.distinct i l i k below small same (by rwa [same])).2
  rwa [← place]

/-- One more block is freed. -/
theorem Freed.next {s'' : Volume} (freed : Freed i gone s s') (mono : ∀ l, gone l → gone' l) (here : gone' k)
    (small : k < NSLOT) (size : s''.size = s'.size) (block : s''.block = s'.block)
    (others : ∀ j, j ≠ i → s''.inode j = s'.inode j)
    (fields : (s''.inode i).type = (s'.inode i).type ∧ (s''.inode i).nlink = (s'.inode i).nlink)
    (used : s''.used = update s'.used (s.slot i k) false) : Freed i gone' s s'' := by
  refine ⟨size.trans freed.size, block.trans freed.block, fun j apart => (others j apart).trans
    (freed.others j apart),
    ⟨fields.1.trans freed.fields.1, fields.2.trans freed.fields.2⟩, fun b marked outside => ?_⟩
  rw [used, update_of_ne (Ne.symm (outside k small here))]
  exact freed.used b marked fun l below left => outside l below (mono l left)

theorem Freed.weaken (freed : Freed i gone s s') (mono : ∀ l, gone l → gone' l) : Freed i gone' s s' :=
  { freed with used := fun b marked outside => freed.used b marked fun l below left => outside l below (mono l left) }

/-- One round of the first loop of `itrunc`, or its last step. -/
theorem freeAddr_spec (cons : s.Consistent) (freed : Freed i gone s s') (small : k ≤ NDIRECT)
    (same : (s'.inode i).addrs k = (s.inode i).addrs k) (still : ¬ gone k) :
    ∃ s'', freeAddr i s' k = .ok s'' ∧ Freed i (fun l => gone l ∨ l = k) s s'' ∧
      (s''.inode i).addrs = update (s'.inode i).addrs k 0 := by
  have place : k < NSLOT := by simp only [NSLOT]; omega
  unfold freeAddr
  by_cases empty : (s'.inode i).addrs k = 0
  · refine ⟨s', if_pos empty, freed.weaken fun l => .inl, ?_⟩
    rw [← empty, update_eq_self]
  · rw [if_neg empty]
    have value : s.slot i k = (s'.inode i).addrs k := (slot_direct small).trans same.symm
    have marked := freed.marked cons place (by rwa [value]) still
    rw [value] at marked
    refine ⟨_, by simp only [bfree, marked, if_true, bind, Except.bind]; rfl, ?_, ?_⟩
    · refine freed.next (k := k) (fun l => .inl) (.inr rfl) place rfl rfl (fun j apart => ?_) ?_ ?_
      · simp [setAddr, setInode, logWrite, apart]
      · simp [setAddr, setInode, logWrite]
      · rw [value]
        rfl
    · simp [setAddr, setInode, logWrite]

theorem freeEntry_spec (cons : s.Consistent) (freed : Freed i gone s s')
    (present : (s.inode i).addrs NDIRECT ≠ 0)
    (small : j < NINDIRECT) (still : ¬ gone (NDIRECT + 1 + j)) :
    ∃ s'', freeEntry ((s.inode i).addrs NDIRECT) s' j = .ok s'' ∧
      Freed i (fun l => gone l ∨ l = NDIRECT + 1 + j) s s'' ∧ s''.inode = s'.inode := by
  have place : NDIRECT + 1 + j < NSLOT := by simp only [NSLOT]; omega
  have value : s'.entry ((s.inode i).addrs NDIRECT) j = s.slot i (NDIRECT + 1 + j) := by
    rw [slot_indirect present, entry, entry, freed.block]
  unfold freeEntry
  rw [value]
  by_cases empty : s.slot i (NDIRECT + 1 + j) = 0
  · exact ⟨s', if_pos empty, freed.weaken fun l => .inl, rfl⟩
  · rw [if_neg empty]
    have marked := freed.marked cons place empty still
    refine ⟨_, if_pos marked, ?_, rfl⟩
    exact freed.next (k := NDIRECT + 1 + j) (fun l => .inl) (.inr rfl) place rfl rfl
      (fun _ _ => rfl) ⟨rfl, rfl⟩ rfl

/-- The inode has no blocks left and nobody else has lost one. -/
structure Truncated (i : Nat) (s s' : Volume) : Prop where
  cons : s'.Consistent
  empty : ∀ l, s'.slot i l = 0
  fields : (s'.inode i).type = (s.inode i).type ∧ (s'.inode i).nlink = (s.inode i).nlink ∧
    (s'.inode i).size = 0
  others : ∀ j, j ≠ i → s'.inode j = s.inode j ∧ ∀ l, s'.slot j l = s.slot j l
  block : s'.block = s.block

theorem Freed.truncated (cons : s.Consistent) (freed : Freed i gone s s')
    (empty : ∀ l ≤ NDIRECT, (s'.inode i).addrs l = 0) : Truncated i s (s'.setSize i 0) := by
  have none : ∀ l, (s'.setSize i 0).slot i l = 0 := fun l => by
    rw [setSize_slot]
    by_cases direct : l ≤ NDIRECT
    · rw [slot_direct direct, empty l direct]
    · exact slot_absent (empty _ (le_refl _)) (by omega)
  have others : ∀ j, j ≠ i → ∀ l, (s'.setSize i 0).slot j l = s.slot j l := fun j apart l => by
    rw [setSize_slot]
    exact slot_congr (by rw [freed.others j apart]) fun _ => by rw [freed.block]
  refine ⟨⟨fun x l y m small small' same present => ?_, fun x l small present => ?_, freed.size ▸
    cons.small, fun j => ?_⟩,
    none, ⟨?_, ?_, setSize_size ..⟩, fun j apart => ⟨?_, others j apart⟩, freed.block⟩
  · by_cases mine : x = i
    · subst mine
      exact absurd (none l) present
    · rw [others x mine l] at same present
      by_cases yours : y = i
      · subst yours
        rw [none m] at same
        exact absurd same present
      · rw [others y yours m] at same
        exact cons.distinct x l y m small small' same present
  · by_cases mine : x = i
    · subst mine
      exact absurd (none l) present
    · rw [others x mine l] at present ⊢
      refine freed.used _ (cons.used x l small present) fun m below _ same => mine ?_
      exact (cons.distinct i m x l below small same (by rwa [same])).1.symm
  · by_cases same : j = i
    · subst same
      simp
    · rw [setSize_other same, freed.others j same]
      exact cons.sizes j
  · exact (by simp [setSize, setInode, logWrite] : ((s'.setSize i 0).inode i).type = _).trans freed.fields.1
  · exact (by simp [setSize, setInode, logWrite] : ((s'.setSize i 0).inode i).nlink = _).trans freed.fields.2
  · rw [setSize_other apart, freed.others j apart]

theorem itrunc_spec (cons : s.Consistent) : ∃ s', s.itrunc i = .ok s' ∧ Truncated i s s' := by
  obtain ⟨s₁, first, freed, addrs⟩ := foldlM_range (f := freeAddr i) (s := s)
    (J := fun k s' => Freed i (fun l => l < k) s s' ∧
      ∀ l, (s'.inode i).addrs l = if l < k then 0 else (s.inode i).addrs l) NDIRECT
    ⟨⟨rfl, rfl, fun _ _ => rfl, ⟨rfl, rfl⟩, fun b marked _ => marked⟩, fun l => by simp⟩
    fun k s' below ⟨freed, addrs⟩ => by
      obtain ⟨s'', run, next, now⟩ := freeAddr_spec cons freed (by omega) (by rw [addrs k, if_neg (by omega)])
        (by simp : ¬ k < k)
      refine ⟨s'', run, next.weaken fun l => by omega, fun l => ?_⟩
      rw [now]
      by_cases same : l = k
      · subst same
        simp
      · rw [update_of_ne same, addrs l]
        by_cases before : l < k
        · rw [if_pos before, if_pos (by omega)]
        · rw [if_neg before, if_neg (by omega)]
  have indirect : (s₁.inode i).addrs NDIRECT = (s.inode i).addrs NDIRECT := by
    rw [addrs, if_neg (by omega)]
  have direct : ∀ l < NDIRECT, (s₁.inode i).addrs l = 0 := fun l below => by rw [addrs, if_pos below]
  unfold itrunc
  simp only [first, bind, Except.bind]
  by_cases absent : (s₁.inode i).addrs NDIRECT = 0
  · rw [if_pos absent]
    refine ⟨_, rfl, freed.truncated cons fun l small => ?_⟩
    rcases Nat.lt_or_ge l NDIRECT with below | above
    · exact direct l below
    · rwa [show l = NDIRECT by omega]
  · rw [if_neg absent, indirect]
    rw [indirect] at absent
    obtain ⟨s₂, second, freed₂, inode⟩ := foldlM_range (f := freeEntry ((s.inode i).addrs NDIRECT)) (s := s₁)
      (J := fun j s' => Freed i (fun l => l < NDIRECT ∨ NDIRECT < l ∧ l < NDIRECT + 1 + j) s s' ∧
        s'.inode = s₁.inode)
      NINDIRECT ⟨freed.weaken fun l => .inl, rfl⟩ fun j s' below ⟨freed, inode⟩ => by
        obtain ⟨s'', run, next, now⟩ := freeEntry_spec cons freed absent below (by omega)
        exact ⟨s'', run, next.weaken fun l => by omega, now.trans inode⟩
    obtain ⟨s₃, third, freed₃, addrs₃⟩ :=
      freeAddr_spec cons freed₂ (le_refl NDIRECT) (by rw [inode, indirect])
      (by omega)
    simp only [second, third]
    refine ⟨_, rfl, freed₃.truncated cons fun l small => ?_⟩
    rw [addrs₃, inode]
    by_cases same : l = NDIRECT
    · simp [same]
    · rw [update_of_ne same]
      exact direct l (by omega)

theorem Truncated.noHoles (truncated : Truncated i s s') (full : s.NoHoles j) : s'.NoHoles j :=
  fun bn below => by
  by_cases same : j = i
  · subst same
    rw [truncated.fields.2.2] at below
    omega
  · rw [(truncated.others j same).1] at below
    rw [(truncated.others j same).2]
    exact full bn below

theorem itrunc_safe (cons : s.Consistent) : ∃ s', s.itrunc i = .ok s' ∧ Safe s s' := by
  obtain ⟨s', run, truncated⟩ := itrunc_spec (i := i) cons
  exact ⟨s', run, truncated.cons, fun j => truncated.noHoles⟩

end Trunc

end Volume

end Xv6.Content
