import Xv6.Mkfs.Machine

namespace Xv6.Mkfs
open Function Content

section Inodes

variable {din din' : Bytes} {k v i j : Nat} {s s' : MkfsState}

theorem inodeOf_addrs (din : Bytes) (l : Nat) :
    (inodeOf din).addrs l = if l ≤ NDIRECT then dinAddr din l else 0 := rfl

/-- The bytes of a `struct dinode` are all that it depends on. -/
theorem inodeOf_congr (din' : Bytes) (same : ∀ x < dinodeSize, din x = din' x) :
    inodeOf din = inodeOf din' := by
  have field : ∀ a n, a + n ≤ dinodeSize → din.le a n = din'.le a n := fun a n inside =>
    Bytes.le_congr fun x small => same _ (by omega)
  have addrs : (fun k => if k ≤ NDIRECT then dinAddr din k else 0) = fun k =>
      if k ≤ NDIRECT then dinAddr din' k else 0 := funext fun k => by
    split
    · next small => exact field _ _ (by unfold dinodeSize; unfold NDIRECT at small; omega)
    · rfl
  unfold inodeOf
  rw [addrs]
  simp only [dinType, dinNlink, dinSize]
  rw [field 0 2 (by decide), field 6 2 (by decide), field 8 4 (by decide)]

theorem inodeOf_setAddr (small : k ≤ NDIRECT) (fits : v < 2 ^ 32) :
    inodeOf (din.store (12 + 4 * k) 4 v) =
      { inodeOf din with addrs := update (inodeOf din).addrs k v } := by
  have addrs : (fun l => if l ≤ NDIRECT then dinAddr (din.store (12 + 4 * k) 4 v) l else 0) =
      update (inodeOf din).addrs k v := funext fun l => by
    by_cases same : l = k
    · subst same
      rw [if_pos small, update_self]
      exact Bytes.le_store_self (by simpa using fits)
    · rw [update_of_ne same, inodeOf_addrs]
      by_cases inside : l ≤ NDIRECT
      · rw [if_pos inside, if_pos inside]
        exact Bytes.le_store_disjoint (by omega)
      · rw [if_neg inside, if_neg inside]
  unfold inodeOf at *
  rw [addrs]
  simp only [dinType, dinNlink, dinSize]
  rw [Bytes.le_store_disjoint (by omega), Bytes.le_store_disjoint (by omega),
    Bytes.le_store_disjoint (by omega)]

theorem inodeOf_setSize (din : Bytes) (fits : v < 2 ^ 32) :
    inodeOf (din.store 8 4 v) = { inodeOf din with size := v } := by
  have addrs : (fun l => if l ≤ NDIRECT then dinAddr (din.store 8 4 v) l else 0) = (inodeOf din).addrs :=
    funext fun l => by
      rw [inodeOf_addrs]
      by_cases inside : l ≤ NDIRECT
      · rw [if_pos inside, if_pos inside]
        exact Bytes.le_store_disjoint (by omega)
      · rw [if_neg inside, if_neg inside]
  unfold inodeOf at *
  rw [addrs]
  simp only [dinType, dinNlink, dinSize]
  rw [Bytes.le_store_disjoint (by omega), Bytes.le_store_disjoint (by omega),
    Bytes.le_store_self (by simpa using fits)]

/-- The bytes of inode `i` in the image. -/
def MkfsState.inodeAt (s : MkfsState) (i : Nat) : Bytes := (s.image (IBLOCK i)).drop (i % IPB * dinodeSize)

theorem IBLOCK_lt (small : i < NINODES) : IBLOCK i < bmapstart := by
  unfold NINODES at small
  unfold IBLOCK IPB inodestart bmapstart ninodeblocks nlog LOGSIZE MAXOPBLOCKS NINODES IPB BSIZE dinodeSize
  omega

theorem bmapstart_lt : bmapstart < nmeta := by decide

/-- The inodes after one has been written. -/
theorem inodeOf_written (s s' : MkfsState) (i : Nat) (din : Bytes)
    (image : s'.image = update s.image (IBLOCK i)
    ((s.image (IBLOCK i)).splice (i % IPB * dinodeSize) dinodeSize din)) (j : Nat) :
    inodeOf (s'.inodeAt j) = if j = i then inodeOf din else inodeOf (s.inodeAt j) := by
  by_cases same : j = i
  · subst same
    rw [if_pos rfl]
    refine inodeOf_congr _ fun x small => ?_
    rw [MkfsState.inodeAt, image, update_self, Bytes.drop_apply, Bytes.splice_inside (by omega) (by omega)]
    congr 1
    omega
  · rw [if_neg same]
    refine inodeOf_congr _ fun x small => ?_
    rw [MkfsState.inodeAt, MkfsState.inodeAt, image, Bytes.drop_apply, Bytes.drop_apply]
    by_cases block : IBLOCK j = IBLOCK i
    · rw [block, update_self, Bytes.splice_outside]
      unfold IBLOCK IPB BSIZE dinodeSize at *
      omega
    · rw [update_of_ne block]

end Inodes

/-- The image so far as a file system, with another `struct dinode` for inode `i` that has not been written
yet. -/
def MkfsState.volume (s : MkfsState) (i : Nat) (din : Bytes) : Volume where
  size := FSSIZE
  used b := b < s.freeblock
  block := s.image
  inode := update (fun j => if j < NINODES then inodeOf (s.inodeAt j) else ⟨0, 0, 0, fun _ => 0⟩) i
    (inodeOf din)
  ballocs := 0
  logWrites := 0

/-- Every block from `nmeta` on that has been handed out has a place, and the others are zero. -/
structure Building (s : MkfsState) (v : Volume) : Prop where
  cons : v.Consistent
  zero : ∀ b, s.freeblock ≤ b → s.image b = fun _ => 0
  low : ∀ i l, l < NSLOT → v.slot i l ≠ 0 → nmeta ≤ v.slot i l
  all : ∀ b, nmeta ≤ b → b < s.freeblock → ∃ i l, l < NSLOT ∧ v.slot i l = b
  above : nmeta ≤ s.freeblock
  bound : s.freeblock ≤ FSSIZE + 1

/-- Exactly the blocks of the first `z` bytes of inode `i` have addresses. -/
structure Exact (v : Volume) (i z : Nat) : Prop where
  data : ∀ bn < MAXFILE, v.slot i (dataSlot bn) ≠ 0 ↔ bn * BSIZE < z
  indirect : v.slot i NDIRECT ≠ 0 ↔ NDIRECT * BSIZE < z

/-- The number of blocks for `z` bytes, with the indirect block. -/
def blocks (z : Nat) : Nat := (z + BSIZE - 1) / BSIZE + if NDIRECT * BSIZE < z then 1 else 0

section Alloc

variable {s s' : MkfsState} {din : Bytes} {i k x bn off : Nat} {v v' : Volume}

theorem volume_inode_self : (s.volume i din).inode i = inodeOf din := by simp [MkfsState.volume]

theorem volume_used {c : Nat} : (s.volume i din).used c = true ↔ c < s.freeblock := by simp [MkfsState.volume]

/-- A place has been given the next block. -/
theorem Building.filled (b : Building s v) (cons : v'.Consistent) (place : k < NSLOT)
    (slots : ∀ j l, l < NSLOT → v'.slot j l = if j = i ∧ l = k then s.freeblock else v.slot j l)
    (empty : v.slot i k = 0) (image : ∀ b, s'.freeblock ≤ b → s'.image b = s.image b)
    (next : s'.freeblock = s.freeblock + 1) (bound : s.freeblock ≤ FSSIZE) : Building s' v' := by
  have above := b.above
  refine ⟨cons, fun c least => (image c least).trans (b.zero c (by omega)), fun j l small present => ?_,
    fun c low high => ?_, by omega, by omega⟩
  · rw [slots j l small] at present ⊢
    split
    · omega
    · next other =>
      rw [if_neg other] at present
      exact b.low j l small present
  · by_cases last : c = s.freeblock
    · exact ⟨i, k, place, by rw [slots i k place, if_pos ⟨rfl, rfl⟩, last]⟩
    · obtain ⟨j, l, small, value⟩ := b.all c low (by omega)
      refine ⟨j, l, small, ?_⟩
      rw [slots j l small, if_neg, value]
      rintro ⟨rfl, rfl⟩
      rw [empty] at value
      have : 0 < nmeta := by decide
      omega

/-- What has been done for inode `i` while it is given blocks. -/
structure Given (i : Nat) (s : MkfsState) (v : Volume) (s' : MkfsState) (v' : Volume) : Prop where
  building : Building s' v'
  wrote : Volume.Wrote i v v'
  same : Volume.Same i v v'
  low : ∀ b < nmeta, s'.image b = s.image b
  freeinode : s'.freeinode = s.freeinode

theorem Given.refl (b : Building s v) : Given i s v s v :=
  ⟨b, Volume.Wrote.refl v, fun _ _ _ _ => rfl, fun _ _ => rfl, rfl⟩

theorem Given.trans {s'' : MkfsState} {v'' : Volume} (first : Given i s v s' v')
    (second : Given i s' v' s'' v'') :
    Given i s v s'' v'' :=
  ⟨second.building, first.wrote.trans second.wrote, Volume.Same.trans first.wrote first.same second.same,
    fun b small => (second.low b small).trans (first.low b small), second.freeinode.trans first.freeinode⟩

theorem allocAddr_spec (b : Building s (s.volume i din)) (bound : s.freeblock ≤ FSSIZE) (small : k ≤ NDIRECT)
    {r : Bytes × MkfsState} (eq : s.allocAddr din k = r) :
    Given i s (s.volume i din) r.2 (r.2.volume i r.1) ∧ r.2.image = s.image ∧ dinAddr r.1 k ≠ 0 ∧
      dinAddr r.1 k = (r.2.volume i r.1).slot i k ∧
      (∀ l < NSLOT, l ≠ k → (r.2.volume i r.1).slot i l = (s.volume i din).slot i l) ∧
      r.2.freeblock = s.freeblock + (if (s.volume i din).slot i k = 0 then 1 else 0) ∧
      ((s.volume i din).slot i k = 0 → dinAddr r.1 k = s.freeblock) := by
  have addrs : (s.volume i din).slot i k = dinAddr din k := by
    rw [Volume.slot_direct small, volume_inode_self]
    exact if_pos small
  have place : k < NSLOT := by simp only [NSLOT]; omega
  have above := b.above
  have positive : 0 < nmeta := by decide
  subst eq
  unfold MkfsState.allocAddr
  by_cases empty : dinAddr din k = 0
  · rw [if_pos empty]
    set s' : MkfsState := { s with freeblock := s.freeblock + 1 } with hs'
    set din' := din.store (12 + 4 * k) 4 s.freeblock with hd
    have fits : s.freeblock < 2 ^ 32 := by unfold FSSIZE at bound; omega
    have inode : inodeOf din' = { inodeOf din with addrs := update (inodeOf din).addrs k s.freeblock } :=
      inodeOf_setAddr small fits
    have value : dinAddr din' k = s.freeblock := Bytes.le_store_self (by simpa using fits)
    obtain ⟨cons, wrote, same, slots⟩ :=
      b.cons.fill_addr (s'.volume i din') (i := i) (k := k) (b := s.freeblock)
      small (by rw [← Volume.slot_direct small, addrs, empty]) (by omega) (by simp [MkfsState.volume])
      (b.zero _ (le_refl _)) (fun _ _ => rfl) ⟨volume_used.mpr (by simp [hs']), fun c used =>
        volume_used.mpr (Nat.lt_succ_of_lt (volume_used.mp used))⟩ rfl (fun j apart => by
        simp only [MkfsState.volume, update_of_ne apart]
        rfl)
      (by rw [volume_inode_self, volume_inode_self, inode]; exact ⟨rfl, rfl, rfl⟩)
      (by rw [volume_inode_self, volume_inode_self, inode])
    refine ⟨⟨b.filled cons place slots (addrs.trans empty) (fun _ _ => rfl) rfl bound, wrote, same,
      fun _ _ => rfl, rfl⟩,
      rfl, fun none => ?_, ?_, fun l inside apart => ?_, ?_, fun _ => value⟩
    · have none : dinAddr din' k = 0 := none
      omega
    · rw [slots i k place, if_pos ⟨rfl, rfl⟩, value]
    · rw [slots i l inside, if_neg fun both => apart both.2]
    · rw [addrs, if_pos empty]
  · rw [if_neg empty]
    exact ⟨Given.refl b, rfl, empty, addrs.symm, fun _ _ _ => rfl, by rw [addrs, if_neg empty]; rfl,
      fun none => absurd (addrs.symm.trans none) empty⟩

/-- What `blockFor` answers. -/
structure Found (i fbn : Nat) (s : MkfsState) (v : Volume) (x : Nat) (din' : Bytes)
    (s' : MkfsState) : Prop where
  given : Given i s v s' (s'.volume i din')
  place : (s'.volume i din').slot i (dataSlot fbn) = x
  got : x ≠ 0
  rest : ∀ bn < MAXFILE, bn ≠ fbn → (s'.volume i din').slot i (dataSlot bn) = v.slot i (dataSlot bn)
  indirect : (s'.volume i din').slot i NDIRECT ≠ 0 ↔ v.slot i NDIRECT ≠ 0 ∨ NDIRECT ≤ fbn
  freeblock : s'.freeblock = s.freeblock + (if v.slot i (dataSlot fbn) = 0 then 1 else 0) +
    (if v.slot i NDIRECT = 0 ∧ NDIRECT ≤ fbn then 1 else 0)
  last : x < FSSIZE → s'.freeblock ≤ FSSIZE

theorem blockFor_spec {fbn : Nat} (b : Building s (s.volume i din)) (bound : s.freeblock ≤ FSSIZE)
    (small : fbn < MAXFILE) :
    match s.blockFor din fbn with
    | .ok (x, din', s') => Found i fbn s (s.volume i din) x din' s'
    | .error _ => (s.volume i din).slot i NDIRECT = 0 ∧ NDIRECT ≤ fbn ∧ s.freeblock = FSSIZE := by
  have above := b.above
  unfold MkfsState.blockFor
  by_cases direct : fbn < NDIRECT
  · rw [if_pos direct]
    obtain ⟨r, eq⟩ : ∃ r, s.allocAddr din fbn = r := ⟨_, rfl⟩
    obtain ⟨given, image, got, value, rest, count, fresh⟩ := allocAddr_spec b bound (by omega) eq
    rw [eq]
    have slot : dataSlot fbn = fbn := if_pos direct
    simp only
    refine ⟨given, by rw [slot, value], got, fun bn inside apart => ?_, ?_, ?_, fun last => ?_⟩
    · exact rest _ (dataSlot_lt inside) fun same => apart (dataSlot_inj (same.trans slot.symm))
    · rw [rest NDIRECT (by decide) (by omega)]
      exact ⟨.inl, fun h => h.resolve_right (by omega)⟩
    · rw [slot, count, if_neg (fun both => by omega : ¬ ((s.volume i din).slot i NDIRECT =
        0 ∧ NDIRECT ≤ fbn))]
      rfl
    · by_cases empty : (s.volume i din).slot i fbn = 0
      · rw [count, if_pos empty]
        have := fresh empty
        omega
      · rw [count, if_neg empty]
        omega
  · rw [if_neg direct]
    obtain ⟨⟨din₁, s₁⟩, eq⟩ : ∃ r, s.allocAddr din NDIRECT = r := ⟨_, rfl⟩
    have spec := allocAddr_spec (k := NDIRECT) b bound (le_refl _) eq
    rw [eq]
    obtain ⟨given, image, got, value, rest, count, fresh⟩ := spec
    simp only at given image got value rest count fresh ⊢
    obtain ⟨c, hc⟩ : ∃ c, c = dinAddr din₁ NDIRECT := ⟨_, rfl⟩
    rw [← hc] at got value fresh ⊢
    by_cases reach : c < FSSIZE
    swap
    · have error : s₁.rsect c = .error "read" := if_neg reach
      simp only [error, Bind.bind, Except.bind]
      have marked := volume_used.mp (given.building.cons.used i NDIRECT (by decide) (by rwa [← value]))
      rw [← value] at marked
      by_cases empty : (s.volume i din).slot i NDIRECT = 0
      · have := fresh empty
        exact ⟨empty, by omega, by omega⟩
      · rw [if_neg empty] at count
        omega
    have read : s₁.rsect c = .ok (s₁.image c) := if_pos reach
    have bound₁ : s₁.freeblock ≤ FSSIZE := by
      by_cases empty : (s.volume i din).slot i NDIRECT = 0
      · have := fresh empty
        rw [if_pos empty] at count
        omega
      · rw [if_neg empty] at count
        omega
    have small' : fbn - NDIRECT < NINDIRECT := by unfold MAXFILE at small; omega
    have slot : dataSlot fbn = NDIRECT + 1 + (fbn - NDIRECT) := by
      rw [dataSlot, if_neg direct]
      omega
    have place : dataSlot fbn < NSLOT := dataSlot_lt small
    have entry : (s₁.volume i din₁).slot i (dataSlot fbn) = (s₁.image c).le (4 * (fbn - NDIRECT)) 4 := by
      have addr : ((s₁.volume i din₁).inode i).addrs NDIRECT = c := by
        rw [← Volume.slot_direct (le_refl _), ← value]
      rw [slot, Volume.slot_indirect (by rw [addr]; exact got), addr]
      rfl
    have before : (s₁.volume i din₁).slot i (dataSlot fbn) = (s.volume i din).slot i (dataSlot fbn) :=
      rest _ place (dataSlot_ne fbn)
    simp only [read, Bind.bind, Except.bind, ← entry]
    by_cases empty : (s₁.volume i din₁).slot i (dataSlot fbn) = 0
    · have fits : s₁.freeblock < 2 ^ 32 := by unfold FSSIZE at bound₁; omega
      have back : ((s₁.image c).store (4 * (fbn - NDIRECT)) 4 s₁.freeblock).le (4 * (fbn - NDIRECT))
        4 = s₁.freeblock :=
        Bytes.le_store_self (by simpa using fits)
      rw [if_pos empty]
      simp only [back]
      set s₂ : MkfsState := { s₁ with freeblock := s₁.freeblock + 1 }.wsect c
        ((s₁.image c).store (4 * (fbn - NDIRECT)) 4 s₁.freeblock) with hs₂
      have inBuilding := given.building
      have far := inBuilding.low i NDIRECT (by decide) (by rwa [← value])
      rw [← value] at far
      have block : ∀ x, x ≠ c → s₂.image x = s₁.image x := fun x apart => update_of_ne apart _ _
      have inode : (s₂.volume i din₁).inode = (s₁.volume i din₁).inode := by
        have at' : ∀ j, j < NINODES → s₂.inodeAt j = s₁.inodeAt j := fun j inside => by
          have low := IBLOCK_lt inside
          have := bmapstart_lt
          unfold MkfsState.inodeAt
          rw [block _ (by omega)]
        simp only [MkfsState.volume]
        congr 1
        funext j
        split
        · next inside => rw [at' j inside]
        · rfl
      obtain ⟨cons, wrote, same, slots⟩ :=
        inBuilding.cons.fill_entry (s₂.volume i din₁) (fbn - NDIRECT) (i := i)
        (b := c) (c := s₁.freeblock) value.symm got small' (entry.symm.trans empty)
        (by simp [MkfsState.volume]) fits (update_self ..) (fun x apart _ => block x apart)
        ⟨volume_used.mpr (by simp [hs₂, MkfsState.wsect]), fun x used =>
          volume_used.mpr (Nat.lt_succ_of_lt (volume_used.mp used))⟩ rfl inode
      have marked := volume_used.mp (inBuilding.cons.used i NDIRECT (by decide) (by rwa [← value]))
      rw [← value] at marked
      rw [← slot] at slots
      have filled : Building s₂ (s₂.volume i din₁) :=
        inBuilding.filled cons place slots empty (fun x least => by
        have least : s₁.freeblock + 1 ≤ x := least
        exact block x (by omega)) rfl bound₁
      have step : Given i s₁ (s₁.volume i din₁) s₂ (s₂.volume i din₁) :=
        ⟨filled, wrote, same, fun x low => block x (by omega), rfl⟩
      refine ⟨given.trans step, by rw [slots i _ place,
        if_pos ⟨rfl, rfl⟩], by omega, fun bn inside apart => ?_, ?_, ?_,
        fun last => last⟩
      · rw [slots i _ (dataSlot_lt inside), if_neg fun both => apart (dataSlot_inj both.2),
          rest _ (dataSlot_lt inside) (dataSlot_ne bn)]
      · rw [slots i NDIRECT (by decide), if_neg fun both => dataSlot_ne fbn both.2.symm, ← value]
        exact ⟨fun _ => .inr (by omega), fun _ => got⟩
      · have total : s₂.freeblock = s₁.freeblock + 1 := rfl
        rw [before] at empty
        rw [total, count, if_pos empty]
        by_cases none : (s.volume i din).slot i NDIRECT = 0
        · rw [if_pos none, if_pos ⟨none, by omega⟩]
        · rw [if_neg none, if_neg fun both => none both.1]
    · rw [if_neg empty]
      refine ⟨given, rfl, empty, fun bn inside apart => rest _ (dataSlot_lt inside) (dataSlot_ne bn), ?_, ?_,
        fun _ => bound₁⟩
      · rw [← value]
        exact ⟨fun _ => .inr (by omega), fun _ => got⟩
      · rw [before] at empty
        rw [count, if_neg empty]
        by_cases none : (s.volume i din).slot i NDIRECT = 0
        · rw [if_pos none, if_pos ⟨none, by omega⟩]
        · rw [if_neg none, if_neg fun both => none both.1]

end Alloc

end Xv6.Mkfs
