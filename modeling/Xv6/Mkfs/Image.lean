import Xv6.Mkfs.Append

namespace Xv6.Mkfs
open Function Content

/-- The image so far as a file system. -/
def MkfsState.current (s : MkfsState) : Volume := s.volume 0 (s.inodeAt 0)

/-- An inode that has not been handed out. -/
def noInode : Inode := ⟨0, 0, 0, fun _ => 0⟩

/-- What holds of the image between two files. -/
structure Rest (s : MkfsState) : Prop where
  building : Building s s.current
  bound : s.freeblock ≤ FSSIZE
  exact' : ∀ i < NINODES, Exact s.current i (s.current.inode i).size
  super : s.image 1 = superblock
  fresh : ∀ i, s.freeinode ≤ i → i < NINODES → s.current.inode i = noInode

section Image

variable {s s' : MkfsState} {din din' : Bytes} {i j k n type : Nat} {p : Bytes}

theorem current_inode (inside : i < NINODES) : s.current.inode i = inodeOf (s.inodeAt i) := by
  simp only [MkfsState.current, MkfsState.volume]
  by_cases zero : i = 0
  · rw [zero, update_self]
  · rw [update_of_ne zero, if_pos inside]

theorem current_outside (outside : NINODES ≤ i) : s.current.inode i = noInode := by
  have positive : 0 < NINODES := by decide
  simp only [MkfsState.current, MkfsState.volume]
  rw [update_of_ne (by omega), if_neg (by omega)]
  rfl

theorem volume_current (inside : i < NINODES) : s.volume i (s.inodeAt i) = s.current := by
  have same : (s.volume i (s.inodeAt i)).inode = s.current.inode := funext fun j => by
    by_cases here : j = i
    · subst here
      rw [volume_inode_self, current_inode inside]
    · have away : (s.volume i (s.inodeAt i)).inode j =
        if j < NINODES then inodeOf (s.inodeAt j) else noInode := by
        simp only [MkfsState.volume]
        rw [update_of_ne here]
        rfl
      rw [away]
      split
      · next small => rw [current_inode small]
      · next large => rw [current_outside (by omega)]
  unfold MkfsState.current MkfsState.volume at *
  simp only at same
  rw [same]

theorem IBLOCK_readable (inside : i < NINODES) : IBLOCK i < FSSIZE :=
  (IBLOCK_lt inside).trans (by decide)

theorem IBLOCK_above (i : Nat) : 1 < IBLOCK i := Nat.lt_add_left _ (by decide : 1 < inodestart)

theorem rinode_ok (inside : i < NINODES) : s.rinode i = .ok (s.inodeAt i) := by
  simp only [MkfsState.rinode, MkfsState.rsect, if_pos (IBLOCK_readable inside), Bind.bind, Except.bind]
  rfl

/-- The outcome of writing the `struct dinode` of inode `i`. -/
structure InodeWritten (i : Nat) (din' : Bytes) (s : MkfsState) (v : Volume) (s' : MkfsState) : Prop where
  building : Building s' s'.current
  counters : s'.freeinode = s.freeinode ∧ s'.freeblock = s.freeblock
  self : s'.current.inode i = inodeOf din'
  others : ∀ j, j ≠ i → s'.current.inode j = v.inode j
  slots : ∀ j l, s'.current.slot j l = v.slot j l
  files : ∀ j x, x / BSIZE < MAXFILE → v.slot j (dataSlot (x / BSIZE)) ≠ 0 → s'.current.file j x = v.file j x
  low : s'.image 1 = s.image 1

theorem winode_spec (s : MkfsState) (i : Nat) (din din' : Bytes) (b : Building s (s.volume i din))
    (inside : i < NINODES)
    (addrs : (inodeOf din').addrs = (inodeOf din).addrs) (size : (inodeOf din').size ≤ MAXFILE * BSIZE) :
    ∃ s', s.winode i din' = .ok s' ∧ InodeWritten i din' s (s.volume i din) s' := by
  set v := s.volume i din with hv
  set s' := s.wsect (IBLOCK i) ((s.image (IBLOCK i)).splice (i % IPB * dinodeSize) dinodeSize din') with hs'
  have run : s.winode i din' = .ok s' := by
    simp only [MkfsState.winode, MkfsState.rsect, if_pos (IBLOCK_readable inside), Bind.bind, Except.bind]
    rfl
  have meta' := bmapstart_lt
  have low := IBLOCK_lt inside
  have above := b.above
  have outside : ∀ c, c ≠ IBLOCK i → s'.image c = s.image c := fun c apart => update_of_ne apart _ _
  have written := inodeOf_written s s' i din' rfl
  have self : s'.current.inode i = inodeOf din' := by
    rw [current_inode inside, written, if_pos rfl]
  have others : ∀ j, j ≠ i → s'.current.inode j = v.inode j := fun j apart => by
    have away : v.inode j = if j < NINODES then inodeOf (s.inodeAt j) else noInode := by
      rw [hv]
      simp only [MkfsState.volume]
      rw [update_of_ne apart]
      rfl
    rw [away]
    split
    · next small => rw [current_inode small, written, if_neg apart]
    · next large => rw [current_outside (by omega)]
  have places : ∀ j, (s'.current.inode j).addrs = (v.inode j).addrs := fun j => by
    by_cases same : j = i
    · rw [same, self, addrs, hv, volume_inode_self]
    · rw [others j same]
  have slots : ∀ j l, s'.current.slot j l = v.slot j l :=
    fun j l => Volume.slot_congr (places j) fun present => by
    have far := b.low j NDIRECT (by decide) present
    exact outside _ (by omega)
  have cons : s'.current.Consistent := by
    refine b.cons.congr (fun j l _ => slots j l) rfl rfl fun j => ?_
    by_cases same : j = i
    · rw [same, self]
      exact size
    · rw [others j same]
      exact b.cons.sizes j
  refine ⟨s', run, ⟨cons, fun c least => ?_, fun j l small present => ?_, fun c least most =>
    ?_, above, b.bound⟩,
    ⟨rfl, rfl⟩, self, others, slots, fun j x small present => ?_,
    outside 1 (by have := IBLOCK_above i; omega)⟩
  · have least : s.freeblock ≤ c := least
    rw [outside c (by omega)]
    exact b.zero c least
  · rw [slots] at present ⊢
    exact b.low j l small present
  · obtain ⟨j, l, small, value⟩ := b.all c least most
    exact ⟨j, l, small, by rw [slots, value]⟩
  · unfold Volume.file
    rw [slots]
    have far := b.low j _ (dataSlot_lt small) present
    exact congrFun (outside _ (by omega)) _

/-- The file `j` is as it was. -/
def Untouched (j : Nat) (s s' : MkfsState) : Prop :=
  s'.current.inode j = s.current.inode j ∧ ∀ x < (s.current.inode j).size, s'.current.file j x =
    s.current.file j x

theorem Untouched.trans {s'' : MkfsState} (first : Untouched j s s')
    (second : Untouched j s' s'') : Untouched j s s'' :=
  ⟨second.1.trans first.1, fun x below => (second.2 x (by rwa [first.1])).trans (first.2 x below)⟩

theorem Rest.inside (rest : Rest s) (inside : j < NINODES) {x : Nat} (below : x < (s.current.inode j).size) :
    x / BSIZE < MAXFILE ∧ s.current.slot j (dataSlot (x / BSIZE)) ≠ 0 := by
  have size := rest.building.cons.sizes j
  have index : x / BSIZE < MAXFILE := Volume.index_lt (by omega)
  refine ⟨index, ((rest.exact' j inside).data _ index).mpr ?_⟩
  have := Nat.div_mul_le_self x BSIZE
  omega

/-- What `iappend` does when there is room. -/
structure Grown (i : Nat) (p : Bytes) (n : Nat) (s s' : MkfsState) : Prop where
  rest : Rest s'
  freeinode : s'.freeinode = s.freeinode
  type : (s'.current.inode i).type = (s.current.inode i).type
  size : (s'.current.inode i).size = (s.current.inode i).size + n
  freeblock : s'.freeblock + blocks (s.current.inode i).size = s.freeblock +
    blocks ((s.current.inode i).size + n)
  bytes : ∀ x < n, s'.current.file i ((s.current.inode i).size + x) = p x
  before : ∀ x < (s.current.inode i).size, s'.current.file i x = s.current.file i x
  others : ∀ j, j < NINODES → j ≠ i → Untouched j s s'

theorem iappend_spec (rest : Rest s) (inside : i < NINODES) (taken : i < s.freeinode) :
    match s.iappend i p n with
    | .ok s' => Grown i p n s s'
    | .error _ => NoRoom (s.current.inode i).size n s := by
  have size : dinSize (s.inodeAt i) = (s.current.inode i).size := by
    rw [current_inode inside]
    rfl
  have most := rest.building.cons.sizes i
  have here := volume_current (s := s) inside
  unfold MkfsState.iappend
  simp only [rinode_ok inside, Bind.bind, Except.bind, size]
  have loop := appendLoop_spec s (s.inodeAt i) i (s.current.inode i).size n n p
    (by rw [here]; exact rest.building) rest.bound (by rw [here]; exact rest.exact' i inside) most
    (le_refl n)
  revert loop
  cases MkfsState.appendLoop n (s.inodeAt i) (s.current.inode i).size p n s with
  | error message => exact id
  | ok r =>
    obtain ⟨din₁, off', s₁⟩ := r
    intro w
    have w : Appended i p (s.current.inode i).size n s s.current off' s₁ (s₁.volume i din₁) := here ▸ w
    simp only
    have offset := w.offset
    have fits := w.fits
    have small : off' < 2 ^ 32 := by
      have : MAXFILE * BSIZE < 2 ^ 32 := by decide
      omega
    have sized := inodeOf_setSize din₁ small
    obtain ⟨s', run, written⟩ := winode_spec _ _ _ (din₁.store 8 4 off') w.building inside (by rw [sized])
      (by rw [sized]; show off' ≤ _; omega)
    simp only [run]
    have self : s'.current.inode i = { inodeOf din₁ with size := off' } := written.self.trans sized
    have now : (s'.current.inode i).size = (s.current.inode i).size + n := by
      rw [self]
      exact offset
    have before : (s₁.volume i din₁).inode i = inodeOf din₁ := volume_inode_self
    have apart : ∀ j, j ≠ i → s'.current.inode j = s.current.inode j := fun j other =>
      (written.others j other).trans (w.wrote.others j other).1
    have kept : ∀ j, j ≠ i → ∀ l < NSLOT, s'.current.slot j l = s.current.slot j l := fun j other l inside =>
      (written.slots j l).trans ((w.wrote.others j other).2 l inside)
    have count := w.freeblock
    refine ⟨⟨written.building, ?_, fun j inside' => ?_, ?_, fun j least inside' => ?_⟩, ?_, ?_,
      now, ?_, fun x below => ?_,
      fun x below => ?_, fun j inside' other => ⟨apart j other, fun x below => ?_⟩⟩
    · rw [written.counters.2]
      exact w.bound
    · by_cases same : j = i
      · subst same
        rw [now]
        exact ⟨fun bn small => by rw [written.slots]; exact w.exact'.data bn small, by
          rw [written.slots]
          exact w.exact'.indirect⟩
      · rw [apart j same]
        have ex := rest.exact' j inside'
        exact ⟨fun bn small => by rw [kept j same _ (dataSlot_lt small)]; exact ex.data bn small, by
          rw [kept j same NDIRECT (by decide)]
          exact ex.indirect⟩
    · rw [written.low, w.low 1 (by decide)]
      exact rest.super
    · have least : s.freeinode ≤ j := by
        rw [written.counters.1, w.freeinode] at least
        exact least
      rw [apart j (by omega)]
      exact rest.fresh j least inside'
    · rw [written.counters.1, w.freeinode]
    · rw [self]
      have fields := w.wrote.fields.1
      rw [before] at fields
      exact fields
    · rw [written.counters.2]
      exact count
    · have index : ((s.current.inode i).size + x) / BSIZE < MAXFILE := Volume.index_lt (by omega)
      have present := (w.exact'.data _ index).mpr (by
        have := Nat.div_mul_le_self ((s.current.inode i).size + x) BSIZE
        omega)
      rw [written.files i _ index present, w.inside _ (by omega) (by omega)]
      congr 1
      omega
    · obtain ⟨index, present⟩ := rest.inside inside below
      rw [written.files i x index (by rw [w.wrote.slots _ (dataSlot_lt index) present]; exact present),
        w.before x below]
    · obtain ⟨index, present⟩ := rest.inside inside' below
      have same := (w.wrote.others j other).2 _ (dataSlot_lt index)
      rw [written.files j x index (by rwa [same])]
      unfold Volume.file
      rw [same, w.wrote.blocks j other _ (dataSlot_lt index) (dataSlot_ne _) present]

end Image

end Xv6.Mkfs
