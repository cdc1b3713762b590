import Xv6.Content.Volume

namespace Xv6.Content
open Function

/-- The places for addresses in an inode and its indirect block: the entries of the inode are first, the one
at `NDIRECT` being the indirect block. -/
def NSLOT : Nat := NDIRECT + 1 + NINDIRECT

/-- The place for the address of the `n`th block. -/
def dataSlot (bn : Nat) : Nat := if bn < NDIRECT then bn else bn + 1

theorem dataSlot_lt {bn : Nat} (small : bn < MAXFILE) : dataSlot bn < NSLOT := by
  simp only [dataSlot, NSLOT, MAXFILE] at *
  split <;> omega

theorem dataSlot_ne (bn : Nat) : dataSlot bn ≠ NDIRECT := by
  simp only [dataSlot]
  split <;> omega

theorem dataSlot_inj {bn bn' : Nat} (same : dataSlot bn = dataSlot bn') : bn = bn' := by
  simp only [dataSlot] at same
  split at same <;> split at same <;> omega

namespace Volume

/-- The address at a place of an inode, 0 if there is none. -/
def slot (s : Volume) (i l : Nat) : Nat :=
  if l ≤ NDIRECT then (s.inode i).addrs l
  else if (s.inode i).addrs NDIRECT = 0 then 0
  else s.entry ((s.inode i).addrs NDIRECT) (l - NDIRECT - 1)

/-- No block has two places, and every block with a place is marked in the bitmap. -/
structure Consistent (s : Volume) : Prop where
  distinct : ∀ i l j m, l < NSLOT → m < NSLOT → s.slot i l = s.slot j m → s.slot i l ≠ 0 → i = j ∧ l = m
  used : ∀ i l, l < NSLOT → s.slot i l ≠ 0 → s.used (s.slot i l) = true
  small : s.size ≤ 2 ^ 32
  sizes : ∀ i, (s.inode i).size ≤ MAXFILE * BSIZE

/-- Every block index below `ceil(size / BSIZE)` has a nonzero address. -/
def NoHoles (s : Volume) (i : Nat) : Prop :=
  ∀ bn, bn * BSIZE < (s.inode i).size → bn < MAXFILE ∧ s.slot i (dataSlot bn) ≠ 0

/-- Inode `i` has been given more blocks or other contents, and nothing else has happened. -/
structure Wrote (i : Nat) (s s' : Volume) : Prop where
  size : s'.size = s.size
  fields : (s'.inode i).type = (s.inode i).type ∧ (s'.inode i).nlink = (s.inode i).nlink ∧
    (s'.inode i).size = (s.inode i).size
  slots : ∀ l < NSLOT, s.slot i l ≠ 0 → s'.slot i l = s.slot i l
  others : ∀ j, j ≠ i → s'.inode j = s.inode j ∧ ∀ l < NSLOT, s'.slot j l = s.slot j l
  blocks : ∀ j, j ≠ i → ∀ l < NSLOT, l ≠ NDIRECT → s.slot j l ≠ 0 →
    s'.block (s.slot j l) = s.block (s.slot j l)

/-- The blocks of inode `i` keep their contents. -/
def Same (i : Nat) (s s' : Volume) : Prop :=
  ∀ l < NSLOT, l ≠ NDIRECT → s.slot i l ≠ 0 → s'.block (s.slot i l) = s.block (s.slot i l)

section Slots

variable {s s' s'' : Volume} {i j k l b bn : Nat}

theorem Wrote.refl (s : Volume) : Wrote i s s :=
  ⟨rfl, ⟨rfl, rfl, rfl⟩, fun _ _ _ => rfl, fun _ _ => ⟨rfl, fun _ _ => rfl⟩, fun _ _ _ _ _ _ => rfl⟩

theorem Wrote.trans (first : Wrote i s s') (second : Wrote i s' s'') : Wrote i s s'' := by
  refine ⟨second.size.trans first.size, ⟨second.fields.1.trans first.fields.1,
    second.fields.2.1.trans first.fields.2.1, second.fields.2.2.trans first.fields.2.2⟩,
    fun l small used => ?_,
    fun j apart => ⟨(second.others j apart).1.trans (first.others j apart).1, fun l small => ?_⟩,
    fun j apart l small data used => ?_⟩
  · have same := first.slots l small used
    rw [second.slots l small (by rwa [same]), same]
  · rw [(second.others j apart).2 l small, (first.others j apart).2 l small]
  · have same := (first.others j apart).2 l small
    have step := second.blocks j apart l small data (by rwa [same])
    rw [same] at step
    rw [step, first.blocks j apart l small data used]

theorem Same.trans (wrote : Wrote i s s') (first : Same i s s') (second : Same i s' s'') : Same i s s'' :=
  fun l small data used => by
    have same := wrote.slots l small used
    have step := second l small data (by rwa [same])
    rw [same] at step
    rw [step, first l small data used]

theorem Wrote.noHoles (wrote : Wrote i s s') (full : s.NoHoles j) : s'.NoHoles j := fun bn below => by
  by_cases apart : j = i
  · subst apart
    rw [wrote.fields.2.2] at below
    obtain ⟨small, used⟩ := full bn below
    exact ⟨small, by rwa [wrote.slots _ (dataSlot_lt small) used]⟩
  · rw [(wrote.others j apart).1] at below
    obtain ⟨small, used⟩ := full bn below
    exact ⟨small, by rwa [(wrote.others j apart).2 _ (dataSlot_lt small)]⟩

/-- Only the inode and its indirect block decide where its blocks are. -/
theorem slot_congr (inode : (s'.inode i).addrs = (s.inode i).addrs)
    (indirect : s.slot i NDIRECT ≠ 0 → s'.block (s.slot i NDIRECT) = s.block (s.slot i NDIRECT)) :
    s'.slot i l = s.slot i l := by
  simp only [slot, inode, le_refl, if_true] at *
  split
  · rfl
  · split
    · rfl
    · next present =>
      unfold entry
      rw [indirect present]

theorem slot_direct (direct : l ≤ NDIRECT) : s.slot i l = (s.inode i).addrs l := if_pos direct

theorem slot_indirect (present : (s.inode i).addrs NDIRECT ≠ 0) (j : Nat) :
    s.slot i (NDIRECT + 1 + j) = s.entry ((s.inode i).addrs NDIRECT) j := by
  unfold slot
  rw [if_neg (by omega), if_neg present]
  congr 1
  omega

theorem slot_absent (absent : (s.inode i).addrs NDIRECT = 0) (beyond : NDIRECT ≤ l) : s.slot i l = 0 := by
  by_cases here : l ≤ NDIRECT
  · rw [slot_direct here, show l = NDIRECT by omega, absent]
  · rw [slot, if_neg here, if_pos absent]

/-- What `balloc` does, as far as the places for blocks are concerned. -/
theorem balloc_spec (cons : s.Consistent) :
    (s.balloc.2.inode = s.inode ∧ s.balloc.2.size = s.size) ∧
    (∀ c, s.used c = true → s.balloc.2.used c = true ∧ s.balloc.2.block c = s.block c) ∧
    (s.balloc.1 ≠ 0 → s.used s.balloc.1 = false ∧ s.balloc.2.used s.balloc.1 = true ∧
      (s.balloc.2.block s.balloc.1 = fun _ => 0) ∧ s.balloc.1 < 2 ^ 32) := by
  cases found : (List.range s.size).find? fun b => !s.used b with
  | none =>
    have eq : s.balloc = (0, { s with ballocs := s.ballocs + 1 }) := by simp only [balloc, found]
    rw [eq]
    exact ⟨⟨rfl, rfl⟩, fun c used => ⟨used, rfl⟩, fun some => absurd rfl some⟩
  | some b =>
    have eq : s.balloc = (b, { s with ballocs := s.ballocs + 1, used := update s.used b true }.logWrite.bzero b) := by
      simp only [balloc, found]
    rw [eq]
    have free : s.used b = false := by simpa using List.find?_some found
    have below : b < s.size := List.mem_range.mp (List.mem_of_find?_eq_some found)
    refine ⟨⟨rfl, rfl⟩, fun c used => ?_, fun _ => ⟨free, update_self .., update_self ..,
      below.trans_le cons.small⟩⟩
    have apart : c ≠ b := by
      rintro rfl
      rw [free] at used
      cases used
    exact ⟨(update_of_ne apart _ _).trans used, update_of_ne apart _ _⟩

theorem balloc_slot (cons : s.Consistent) (j l : Nat) : s.balloc.2.slot j l = s.slot j l := by
  have spec := balloc_spec cons
  refine slot_congr (by rw [spec.1.1]) fun present => ?_
  exact (spec.2.1 _ (cons.used j NDIRECT (by decide) present)).2

theorem balloc_consistent (cons : s.Consistent) : s.balloc.2.Consistent := by
  have spec := balloc_spec cons
  refine ⟨fun i l j m small small' => ?_, fun i l small => ?_, spec.1.2 ▸ cons.small, spec.1.1 ▸ cons.sizes⟩
  · rw [balloc_slot cons, balloc_slot cons]
    exact cons.distinct i l j m small small'
  · rw [balloc_slot cons]
    exact fun present => (spec.2.1 _ (cons.used i l small present)).1

theorem balloc_wrote (cons : s.Consistent) : Wrote i s s.balloc.2 ∧ Same i s s.balloc.2 := by
  have spec := balloc_spec cons
  refine ⟨⟨spec.1.2, by rw [spec.1.1]; exact ⟨rfl, rfl, rfl⟩, fun l _ _ => balloc_slot cons i l,
    fun j _ => ⟨by rw [spec.1.1], fun l _ => balloc_slot cons j l⟩, fun j _ l small _ present => ?_⟩,
    fun l small _ present => ?_⟩
  · exact (spec.2.1 _ (cons.used j l small present)).2
  · exact (spec.2.1 _ (cons.used i l small present)).2

/-- A fresh block is put in a place that was empty. -/
theorem Consistent.fill (s' : Volume) (cons : s.Consistent) {b k : Nat} (place : k < NSLOT)
    (empty : s.slot i k = 0)
    (fresh : s.used b = false) (inode : ∀ j, j ≠ i → s'.inode j = s.inode j)
    (fields : (s'.inode i).type = (s.inode i).type ∧ (s'.inode i).nlink = (s.inode i).nlink ∧
      (s'.inode i).size = (s.inode i).size)
    (size : s'.size = s.size)
    (slots : ∀ j l, l < NSLOT → s'.slot j l = if j = i ∧ l = k then b else s.slot j l)
    (used : s'.used b = true ∧ ∀ c, s.used c = true → s'.used c = true)
    (block : ∀ j l, l < NSLOT → l ≠ NDIRECT → s.slot j l ≠ 0 → s'.block (s.slot j l) = s.block (s.slot j l)) :
    s'.Consistent ∧ Wrote i s s' ∧ Same i s s' := by
  have foreign : ∀ j l, l < NSLOT → s.slot j l ≠ 0 → s.slot j l ≠ b := fun j l small present same => by
    have marked := cons.used j l small present
    rw [same, fresh] at marked
    cases marked
  refine ⟨⟨fun x l y m small small' same present => ?_, fun x l small present => ?_, size ▸
    cons.small, fun j => ?_⟩,
    ⟨size, fields, fun l small present => ?_, fun j apart => ⟨inode j apart, fun l small => ?_⟩,
      fun j apart l small data present => block j l small data present⟩,
    fun l small data present => block i l small data present⟩
  · rw [slots x l small] at same present
    rw [slots y m small'] at same
    by_cases first : x = i ∧ l = k <;> by_cases second : y = i ∧ m = k
    · exact ⟨first.1.trans second.1.symm, first.2.trans second.2.symm⟩
    · rw [if_pos first, if_neg second] at same
      rw [if_pos first] at present
      exact absurd same.symm (foreign y m small' (by rwa [← same]))
    · rw [if_neg first, if_pos second] at same
      rw [if_neg first] at present
      exact absurd same (foreign x l small present)
    · rw [if_neg first, if_neg second] at same
      rw [if_neg first] at present
      exact cons.distinct x l y m small small' same present
  · rw [slots x l small] at present ⊢
    split
    · exact used.1
    · next other =>
      rw [if_neg other] at present
      exact used.2 _ (cons.used x l small present)
  · by_cases same : j = i
    · subst same
      rw [fields.2.2]
      exact cons.sizes j
    · rw [inode j same]
      exact cons.sizes j
  · rw [slots i l small, if_neg]
    rintro ⟨_, rfl⟩
    exact present empty
  · rw [slots j l small, if_neg fun both => apart both.1]

/-- A fresh block for one of the addresses in an inode. -/
theorem Consistent.fill_addr (s' : Volume) (cons : s.Consistent) (direct : k ≤ NDIRECT)
    (absent : (s.inode i).addrs k = 0)
    (got : b ≠ 0) (fresh : s.used b = false) (zeroed : s'.block b = fun _ => 0)
    (kept : ∀ c, s.used c = true → s'.block c = s.block c)
    (marked : s'.used b = true ∧ ∀ c, s.used c = true → s'.used c = true) (size : s'.size = s.size)
    (others : ∀ j, j ≠ i → s'.inode j = s.inode j)
    (fields : (s'.inode i).type = (s.inode i).type ∧ (s'.inode i).nlink = (s.inode i).nlink ∧
      (s'.inode i).size = (s.inode i).size)
    (addrs : (s'.inode i).addrs = update (s.inode i).addrs k b) :
    s'.Consistent ∧ Wrote i s s' ∧ Same i s s' ∧
      ∀ j l, l < NSLOT → s'.slot j l = if j = i ∧ l = k then b else s.slot j l := by
  have place : k < NSLOT := by simp only [NSLOT]; omega
  have empty : s.slot i k = 0 := (slot_direct direct).trans absent
  have slots : ∀ j l, l < NSLOT → s'.slot j l = if j = i ∧ l = k then b else s.slot j l := fun j l small => by
    by_cases mine : j = i
    · subst mine
      by_cases here : l ≤ NDIRECT
      · rw [slot_direct here, slot_direct here, addrs]
        by_cases same : l = k <;> simp [same]
      · rw [if_neg (by omega)]
        by_cases whole : k = NDIRECT
        · have none : s.slot j l = 0 := slot_absent (whole ▸ absent) (by omega)
          subst whole
          rw [none, slot, if_neg here, addrs, update_self, if_neg got]
          exact (congrArg (fun m => Bytes.le m _ 4) zeroed).trans (Bytes.le_zero ..)
        · have indirect : (s'.inode j).addrs NDIRECT = (s.inode j).addrs NDIRECT := by
            rw [addrs, update_of_ne (Ne.symm whole)]
          by_cases none : (s.inode j).addrs NDIRECT = 0
          · rw [slot_absent none (by omega), slot_absent (indirect.trans none) (by omega)]
          · have used := cons.used j NDIRECT (by decide) (by rwa [slot_direct (le_refl _)])
            rw [slot_direct (le_refl _)] at used
            rw [slot, if_neg here, indirect, if_neg none, slot, if_neg here, if_neg none, entry,
              entry, kept _ used]
    · rw [if_neg fun both => mine both.1]
      exact slot_congr (by rw [others j mine]) fun present => kept _ (cons.used j NDIRECT (by decide) present)
  obtain ⟨cons', wrote, same⟩ := cons.fill s' place empty fresh others fields size slots marked
    fun j l small _ present => kept _ (cons.used j l small present)
  exact ⟨cons', wrote, same, slots⟩

/-- A fresh block for an entry of an indirect block. -/
theorem Consistent.fill_entry (s' : Volume) (bn : Nat) {c : Nat} (cons : s.Consistent)
    (indirect : s.slot i NDIRECT = b) (present : b ≠ 0)
    (small : bn < NINDIRECT) (absent : s.entry b bn = 0) (fresh : s.used c = false) (bound : c < 2 ^ 32)
    (stored : s'.block b = (s.block b).store (4 * bn) 4 c)
    (kept : ∀ x, x ≠ b → s.used x = true → s'.block x = s.block x)
    (marked : s'.used c = true ∧ ∀ x, s.used x = true → s'.used x = true) (size : s'.size = s.size)
    (inode : s'.inode = s.inode) :
    s'.Consistent ∧ Wrote i s s' ∧ Same i s s' ∧
      ∀ j l, l < NSLOT → s'.slot j l = if j = i ∧ l = NDIRECT + 1 + bn then c else s.slot j l := by
  have addr : (s.inode i).addrs NDIRECT = b := (slot_direct (le_refl _)).symm.trans indirect
  have place : NDIRECT + 1 + bn < NSLOT := by simp only [NSLOT]; omega
  have empty : s.slot i (NDIRECT + 1 + bn) = 0 := by
    rw [slot_indirect (by rwa [addr]), addr, absent]
  have slots : ∀ j l, l < NSLOT → s'.slot j l = if j = i ∧ l = NDIRECT + 1 + bn then c else s.slot j l := by
    intro j l inside
    by_cases mine : j = i
    · subst mine
      by_cases here : l ≤ NDIRECT
      · rw [slot_direct here, slot_direct here, inode, if_neg (by omega)]
      · obtain ⟨n, rfl⟩ : ∃ n, l = NDIRECT + 1 + n := ⟨l - NDIRECT - 1, by omega⟩
        rw [slot_indirect (by rw [inode, addr]; exact present), slot_indirect (by rwa [addr]), inode, addr]
        by_cases same : n = bn
        · subst same
          rw [if_pos ⟨rfl, rfl⟩, entry, stored]
          exact Bytes.le_store_self (by simpa using bound)
        · rw [if_neg (by omega), entry, stored]
          exact Bytes.le_store_disjoint (by omega)
    · rw [if_neg fun both => mine both.1]
      refine slot_congr (by rw [inode]) fun some => kept _ (fun same => mine ?_)
        (cons.used j NDIRECT (by decide) some)
      exact (cons.distinct j NDIRECT i NDIRECT (by decide) (by decide) (same.trans indirect.symm) some).1
  obtain ⟨cons', wrote, same⟩ := cons.fill s' place empty fresh (fun j _ => by rw [inode])
    (by rw [inode]; exact ⟨rfl, rfl, rfl⟩) size slots marked fun j l inside data some =>
      kept _ (fun same => data (cons.distinct j l i NDIRECT inside (by decide)
        (same.trans indirect.symm) some).2)
        (cons.used j l inside some)
  exact ⟨cons', wrote, same, slots⟩

/-- The result of looking up an address that may have to be allocated. -/
structure Loaded (i l : Nat) (s : Volume) (r : Nat × Volume) : Prop where
  cons : r.2.Consistent
  wrote : Wrote i s r.2
  same : Same i s r.2
  result : r.1 ≠ 0 → r.2.slot i l = r.1
  present : s.slot i l ≠ 0 → r = (s.slot i l, s)

theorem loadAddr_spec (cons : s.Consistent) (direct : k ≤ NDIRECT) : Loaded i k s (s.loadAddr i k) := by
  have place : k < NSLOT := by simp only [NSLOT]; omega
  unfold loadAddr
  split
  · next absent =>
    have empty : s.slot i k = 0 := (slot_direct direct).trans absent
    have spec := balloc_spec cons
    have base := balloc_wrote (i := i) cons
    simp only
    split
    · exact ⟨balloc_consistent cons, base.1, base.2, fun some => absurd rfl some, fun some =>
        absurd empty some⟩
    · next got =>
      obtain ⟨fresh, marked, zeroed, _⟩ := spec.2.2 got
      obtain ⟨cons', wrote, same, slots⟩ :=
        cons.fill_addr (s.balloc.2.setAddr i k s.balloc.1) direct absent got
        fresh zeroed (fun c used => (spec.2.1 c used).2) ⟨marked, fun c used => (spec.2.1 c used).1⟩ spec.1.2
        (fun j apart => by simp [setAddr, setInode, spec.1.1, apart]) (by simp [setAddr, setInode, spec.1.1])
        (by simp [setAddr, setInode, spec.1.1])
      refine ⟨cons', wrote, same, fun _ => ?_, fun some => absurd empty some⟩
      rw [slots i k place, if_pos ⟨rfl, rfl⟩]
  · next present =>
    have value : s.slot i k = (s.inode i).addrs k := slot_direct direct
    exact ⟨cons, Wrote.refl s, fun _ _ _ _ => rfl, fun _ => value, fun _ => by rw [value]⟩

theorem loadEntry_spec (cons : s.Consistent) (indirect : s.slot i NDIRECT = b) (present : b ≠ 0)
    (small : bn < NINDIRECT) : Loaded i (NDIRECT + 1 + bn) s (s.loadEntry b bn) := by
  have addr : (s.inode i).addrs NDIRECT = b := (slot_direct (le_refl _)).symm.trans indirect
  have place : NDIRECT + 1 + bn < NSLOT := by simp only [NSLOT]; omega
  have value : s.slot i (NDIRECT + 1 + bn) = s.entry b bn := by
    rw [slot_indirect (by rwa [addr]), addr]
  unfold loadEntry
  split
  · next absent =>
    have empty := value.trans absent
    have spec := balloc_spec cons
    have base := balloc_wrote (i := i) cons
    simp only
    split
    · exact ⟨balloc_consistent cons, base.1, base.2, fun some => absurd rfl some, fun some =>
        absurd empty some⟩
    · next got =>
      obtain ⟨fresh, marked, _, bound⟩ := spec.2.2 got
      have before := (spec.2.1 b (indirect ▸ cons.used i NDIRECT (by decide) (by rwa [indirect]))).2
      obtain ⟨cons', wrote, same, slots⟩ := cons.fill_entry (c := s.balloc.1)
        ({ s.balloc.2 with
          block := update s.balloc.2.block b ((s.balloc.2.block b).store (4 * bn) 4 s.balloc.1) }.logWrite) _
        indirect present small absent fresh bound (by rw [← before]; exact update_self ..)
        (fun x apart used => (update_of_ne apart _ _).trans (spec.2.1 x used).2)
        ⟨marked, fun x used => (spec.2.1 x used).1⟩ spec.1.2 spec.1.1
      refine ⟨cons', wrote, same, fun _ => ?_, fun some => absurd empty some⟩
      rw [slots i _ place, if_pos ⟨rfl, rfl⟩]
  · exact ⟨cons, Wrote.refl s, fun _ _ _ _ => rfl, fun _ => value, fun _ => by rw [value]⟩

/-- `bmap` answers with the address of the block, and changes nothing if there is one already. -/
theorem bmap_spec (cons : s.Consistent) (small : bn < MAXFILE) :
    ∃ r, s.bmap i bn = .ok r ∧ Loaded i (dataSlot bn) s r := by
  unfold bmap dataSlot
  by_cases direct : bn < NDIRECT
  · rw [if_pos direct, if_pos direct]
    exact ⟨_, rfl, loadAddr_spec cons (by omega)⟩
  · have inside : bn - NDIRECT < NINDIRECT := by simp only [MAXFILE] at small; omega
    rw [if_neg direct, if_neg direct, if_pos inside]
    refine ⟨_, rfl, ?_⟩
    have place : bn + 1 = NDIRECT + 1 + (bn - NDIRECT) := by omega
    have first := loadAddr_spec (i := i) cons (le_refl NDIRECT)
    split
    · next full =>
      refine ⟨first.cons, first.wrote, first.same, fun some => absurd rfl some, fun some => ?_⟩
      have present : s.slot i NDIRECT ≠ 0 := fun none => by
        rw [slot_absent ((slot_direct (le_refl _)).symm.trans none) (by omega)] at some
        exact some rfl
      rw [first.present present] at full
      exact absurd full present
    · next got =>
      have second := loadEntry_spec first.cons (first.result got) got inside
      rw [place]
      refine ⟨second.cons, first.wrote.trans second.wrote, Same.trans first.wrote first.same second.same,
        second.result, fun some => ?_⟩
      have present : s.slot i NDIRECT ≠ 0 := fun none => by
        rw [slot_absent ((slot_direct (le_refl _)).symm.trans none) (by omega)] at some
        exact some rfl
      have eq := first.present present
      have again := second.present (by rwa [eq])
      rw [eq] at again ⊢
      exact again

end Slots

end Volume

end Xv6.Content
