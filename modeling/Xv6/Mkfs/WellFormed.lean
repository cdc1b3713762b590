import Xv6.Mkfs.Finish

namespace Xv6.Mkfs
open Function Content

/-- An image is well formed: every inode number given out is below `sb.ninodes`, every block index below
`ceil(size / BSIZE)` has a nonzero address, the addresses are distinct and in `[nmeta, sb.size)`, the bitmap
marks the metadata blocks and these, and no inode block is a bitmap block. -/
structure WellFormed (s : MkfsState) : Prop where
  numbers : ∀ i, 1 ≤ i → i < s.freeinode → i < NINODES
  full : ∀ i, 1 ≤ i → i < s.freeinode → (ofImage s.image).NoHoles i
  distinct : ∀ i l j m, l < NSLOT → m < NSLOT → (ofImage s.image).slot i l = (ofImage s.image).slot j m →
    (ofImage s.image).slot i l ≠ 0 → i = j ∧ l = m
  inside : ∀ i l, l < NSLOT → (ofImage s.image).slot i l ≠ 0 →
    nmeta ≤ (ofImage s.image).slot i l ∧ (ofImage s.image).slot i l < (ofImage s.image).size
  bitmap : ∀ b < (ofImage s.image).size, (ofImage s.image).used b = true ↔
    b < nmeta ∨ ∃ i l, l < NSLOT ∧ (ofImage s.image).slot i l ≠ 0 ∧ (ofImage s.image).slot i l = b
  apart : ∀ i, 1 ≤ i → i < s.freeinode → i / IPB + (s.image 1).le 24 4 < (s.image 1).le 28 4

/-- The image when `mkfs` is done, and the file system before. -/
structure Finished (s s' : MkfsState) : Prop where
  freeinode : s'.freeinode = s.freeinode
  super : s'.image 1 = superblock
  cons : (ofImage s'.image).Consistent
  size : (ofImage s'.image).size = FSSIZE
  used : ∀ b < FSSIZE, (ofImage s'.image).used b = decide (b < s.freeblock)
  slots : ∀ j l, (ofImage s'.image).slot j l = s.current.slot j l
  others : ∀ j, j ≠ ROOTINO → (ofImage s'.image).inode j = s.current.inode j
  root : (ofImage s'.image).inode ROOTINO = { s.current.inode ROOTINO with
    size := ((s.current.inode ROOTINO).size / BSIZE + 1) * BSIZE }
  files : ∀ j x, x / BSIZE < MAXFILE → s.current.slot j (dataSlot (x / BSIZE)) ≠ 0 →
    (ofImage s'.image).file j x = s.current.file j x

section WellFormed

variable {s s' : MkfsState} {i j k n b : Nat} {f : InputFile} {files : List InputFile}

theorem superblock_fields : superblock.le 4 4 = FSSIZE ∧ superblock.le 12 4 = NINODES ∧
    superblock.le 24 4 = inodestart ∧ superblock.le 28 4 = bmapstart := by decide +kernel

theorem finish_spec (holds : Holds files s) (few : files.length ≤ 198) :
    ∃ s', s.finish = .ok s' ∧ Finished s s' := by
  have inside : ROOTINO < NINODES := by decide
  have b := holds.rest.building
  have here := volume_current (s := s) inside
  obtain ⟨z, hz⟩ : ∃ z, z = ((s.current.inode ROOTINO).size / BSIZE + 1) * BSIZE := ⟨_, rfl⟩
  have small : z ≤ MAXFILE * BSIZE := by
    rw [hz, holds.size]
    unfold direntSize MAXFILE NDIRECT NINDIRECT BSIZE
    omega
  have sized := inodeOf_setSize (s.inodeAt ROOTINO) (v := z) (by
    have : MAXFILE * BSIZE < 2 ^ 32 := by decide
    omega)
  have dinode := current_inode (s := s) inside
  have size : dinSize (s.inodeAt ROOTINO) = (s.current.inode ROOTINO).size := by
    rw [dinode]
    rfl
  obtain ⟨s₁, write, w⟩ := winode_spec s ROOTINO (s.inodeAt ROOTINO) ((s.inodeAt ROOTINO).store 8 4 z)
    (by rw [here]; exact b) inside (by rw [sized]) (by rw [sized]; exact small)
  rw [here] at w
  have bound := holds.rest.bound
  have few' : s₁.freeblock < BPB := by
    rw [w.counters.2]
    exact bound.trans_lt (by decide)
  obtain ⟨s', hs'⟩ : ∃ s', s' = s₁.wsect bmapstart (MkfsState.setBits s₁.freeblock) := ⟨_, rfl⟩
  have run : s.finish = .ok s' := by
    unfold MkfsState.finish
    simp only [rinode_ok inside, Bind.bind, Except.bind, size,
      ← hz, write, MkfsState.balloc, if_neg (Nat.not_le.mpr few'),
      ← hs']
  have outside : ∀ c, c ≠ bmapstart → s'.image c = s₁.image c := fun c apart => by
    rw [hs']
    exact update_of_ne apart _ _
  have super : s'.image 1 = superblock := by
    rw [outside 1 (by decide), w.low, holds.rest.super]
  have map : s'.image bmapstart = MkfsState.setBits s₁.freeblock := by simp [hs', MkfsState.wsect]
  obtain ⟨sbSize, sbInodes, sbStart, sbMap⟩ := superblock_fields
  have inodes : (ofImage s'.image).inode = s₁.current.inode := funext fun j => by
    unfold ofImage
    simp only [super, sbInodes, sbStart]
    by_cases near : j < NINODES
    · have low := IBLOCK_lt near
      rw [if_pos near, current_inode near,
        show j / IPB + inodestart = IBLOCK j from rfl, outside _ (by omega)]
      rfl
    · rw [if_neg near, current_outside (by omega)]
      rfl
  have block : ∀ c, nmeta ≤ c → (ofImage s'.image).block c = s₁.image c := fun c far => outside c (by
    have := bmapstart_lt
    omega)
  have slots : ∀ j l, (ofImage s'.image).slot j l = s.current.slot j l := fun j l => by
    rw [← w.slots j l]
    refine Volume.slot_congr (by rw [inodes]) fun present => block _ ?_
    exact w.building.low j NDIRECT (by decide) present
  have used : ∀ b < FSSIZE, (ofImage s'.image).used b = decide (b < s.freeblock) := fun c below => by
    have first : c / BPB = 0 := Nat.div_eq_of_lt (below.trans (by decide))
    have rest : c % BPB = c := Nat.mod_eq_of_lt (below.trans (by decide))
    simp only [ofImage, super, sbMap, first, rest, Nat.zero_add]
    rw [map, bit_setBits, w.counters.2]
  have marked : ∀ j l, l < NSLOT → s.current.slot j l ≠ 0 → s.current.slot j l < s.freeblock :=
    fun j l near present =>
    volume_used.mp (b.cons.used j l near present)
  have root : (ofImage s'.image).inode ROOTINO = { s.current.inode ROOTINO with size := z } := by
    rw [inodes, w.self, sized, dinode]
  refine ⟨s', run, ?_, super, ⟨fun x l y m near near' same present => ?_, fun x l near present => ?_,
    ?_, fun j => ?_⟩, ?_,
    used, slots, fun j apart => by rw [inodes, w.others j apart], hz ▸ root, fun j x index present => ?_⟩
  · rw [hs']
    exact w.counters.1
  · rw [slots] at same present
    rw [slots] at same
    exact b.cons.distinct x l y m near near' same present
  · rw [slots] at present ⊢
    have below := marked x l near present
    rw [used _ (by omega), decide_eq_true below]
  · simp only [ofImage, super, sbSize]
    decide
  · by_cases same : j = ROOTINO
    · rw [same, root]
      exact small
    · rw [inodes, w.others j same]
      exact b.cons.sizes j
  · simp only [ofImage, super, sbSize]
  · have far := b.low j _ (dataSlot_lt index) present
    have same := w.files j x index present
    rw [← same]
    unfold Volume.file
    rw [slots, w.slots, block _ far]
    rfl

/-- What `mkfs` writes, and when it does not. -/
theorem main_spec (few : files.length ≤ 198) :
    match main files with
    | .ok s' => ∃ s, Holds files s ∧ Finished s s'
    | .error _ => ¬ Fits files := by
  obtain ⟨s₀, root, holds⟩ := makeRoot_spec
  have added := addFiles_spec files holds (by rw [List.length_nil, Nat.zero_add]; exact few)
  rw [List.nil_append] at added
  unfold main
  simp only [root, Bind.bind, Except.bind]
  revert added
  cases List.foldlM MkfsState.addFile s₀ files with
  | error message => exact id
  | ok s =>
    intro holds
    obtain ⟨s', run, finished⟩ := finish_spec holds few
    simp only [run]
    exact ⟨s, holds, finished⟩

/-! ### The inode numbers -/

theorem winode_freeinode {inum : Nat} {din : Bytes} (run : s.winode inum din = .ok s') :
    s'.freeinode = s.freeinode := by
  unfold MkfsState.winode at run
  cases read : s.rsect (IBLOCK inum) with
  | error message => simp [read, Bind.bind, Except.bind] at run
  | ok buf =>
    simp only [read, Bind.bind, Except.bind] at run
    cases run
    rfl

theorem blockFor_freeinode {din din' : Bytes} {fbn x : Nat} (run : s.blockFor din fbn = .ok (x, din', s')) :
    s'.freeinode = s.freeinode := by
  have keep : ∀ k, (s.allocAddr din k).2.freeinode = s.freeinode := fun k => by
    unfold MkfsState.allocAddr
    split <;> rfl
  unfold MkfsState.blockFor at run
  split at run
  · simp only [Except.ok.injEq, Prod.mk.injEq] at run
    rw [← run.2.2]
    exact keep _
  · have first := keep NDIRECT
    simp only at run
    revert run
    cases read : (s.allocAddr din NDIRECT).2.rsect (dinAddr (s.allocAddr din NDIRECT).1 NDIRECT) with
    | error message => exact fun run => by cases run
    | ok indirect =>
      simp only [Bind.bind, Except.bind]
      split <;> intro run <;> cases run <;> exact first

theorem appendLoop_freeinode {fuel off off' : Nat} {din din' p : Bytes}
    (run : MkfsState.appendLoop fuel din off p n s = .ok (din', off', s')) : s'.freeinode = s.freeinode := by
  induction fuel generalizing din off p n s with
  | zero =>
    cases run
    rfl
  | succ fuel ih =>
    rw [MkfsState.appendLoop] at run
    split at run
    · simp only at run
      split at run
      · cases run
      · revert run
        cases found : s.blockFor din (off / BSIZE) with
        | error message => exact fun run => by cases run
        | ok r =>
          obtain ⟨x, din₁, s₁⟩ := r
          simp only [Bind.bind, Except.bind]
          cases read : s₁.rsect x with
          | error message => exact fun run => by cases run
          | ok buf =>
            intro run
            have first : s₁.freeinode = s.freeinode := blockFor_freeinode found
            exact (ih run).trans first
    · cases run
      rfl

theorem iappend_freeinode {p : Bytes} (run : s.iappend i p n = .ok s') : s'.freeinode = s.freeinode := by
  unfold MkfsState.iappend at run
  revert run
  cases read : s.rinode i with
  | error message => exact fun run => by cases run
  | ok din =>
    simp only [Bind.bind, Except.bind]
    cases loop : MkfsState.appendLoop n din (dinSize din) p n s with
    | error message => exact fun run => by cases run
    | ok r =>
      obtain ⟨din', off', s₁⟩ := r
      exact fun run => (winode_freeinode run).trans (appendLoop_freeinode loop)

theorem appendAll_freeinode {reads : List (List UInt8)}
    (run : reads.foldlM (fun s buf => s.iappend i (ofList buf) buf.length) s = Except.ok s') :
    s'.freeinode = s.freeinode := by
  induction reads generalizing s with
  | nil =>
    cases run
    rfl
  | cons buf reads ih =>
    rw [List.foldlM_cons] at run
    revert run
    cases first : s.iappend i (ofList buf) buf.length with
    | error message => exact fun run => by cases run
    | ok s₁ => exact fun run => (ih run).trans (iappend_freeinode first)

theorem ialloc_freeinode {type inum : Nat} (run : s.ialloc type = .ok (inum, s')) :
    s'.freeinode = s.freeinode + 1 := by
  unfold MkfsState.ialloc at run
  revert run
  simp only [Bind.bind, Except.bind]
  cases write : MkfsState.winode { s with freeinode := s.freeinode + 1 } s.freeinode
      (Bytes.store (Bytes.store (Bytes.store (fun _ => 0) 0 2 type) 6 2 1) 8 4 0) with
  | error message => exact fun run => by cases run
  | ok s₁ =>
    intro run
    cases run
    exact winode_freeinode write

/-- Each file is given the next inode number. -/
theorem addFile_freeinode (run : s.addFile f = .ok s') : s'.freeinode = s.freeinode + 1 := by
  unfold MkfsState.addFile at run
  split at run
  · cases run
  split at run
  · cases run
  split at run
  · cases run
  revert run
  cases alloc : s.ialloc T_FILE with
  | error message => exact fun run => by cases run
  | ok r =>
    obtain ⟨inum, s₁⟩ := r
    simp only [Bind.bind, Except.bind]
    cases link : s₁.iappend ROOTINO (dirent inum (ofList (MkfsState.imageName f.argv))) direntSize with
    | error message => exact fun run => by cases run
    | ok s₂ =>
      exact fun run => (appendAll_freeinode run).trans ((iappend_freeinode link).trans
        (ialloc_freeinode alloc))

theorem addFiles_freeinode (run : files.foldlM MkfsState.addFile s = Except.ok s') :
    s'.freeinode = s.freeinode + files.length := by
  induction files generalizing s with
  | nil =>
    cases run
    rfl
  | cons f rest ih =>
    rw [List.foldlM_cons] at run
    revert run
    cases first : s.addFile f with
    | error message => exact fun run => by cases run
    | ok s₁ =>
      intro run
      rw [ih run, addFile_freeinode first, List.length_cons]
      omega

theorem main_freeinode (run : main files = .ok s') : s'.freeinode = files.length + 2 := by
  obtain ⟨s₀, root, holds⟩ := makeRoot_spec
  have start : s₀.freeinode = 2 := holds.freeinode
  unfold main at run
  simp only [root, Bind.bind, Except.bind] at run
  revert run
  cases added : List.foldlM MkfsState.addFile s₀ files with
  | error message => exact fun run => by cases run
  | ok s =>
    have count := addFiles_freeinode added
    simp only [MkfsState.finish, Bind.bind, Except.bind]
    cases read : s.rinode ROOTINO with
    | error message => exact fun run => by cases run
    | ok din =>
      simp only
      cases write : s.winode ROOTINO (din.store 8 4 ((dinSize din / BSIZE + 1) * BSIZE)) with
      | error message => exact fun run => by cases run
      | ok s₁ =>
        intro run
        have same : s'.freeinode = s₁.freeinode := by
          revert run
          simp only [MkfsState.balloc]
          split
          · exact fun run => by cases run
          · intro run
            cases run
            rfl
        rw [same, winode_freeinode write, count, start]
        omega

/-! ### Well-formed images -/

theorem WellFormed.few (formed : WellFormed s) (run : main files = .ok s) : files.length ≤ 198 := by
  have count := main_freeinode run
  have := formed.numbers (files.length + 1) (by omega) (by omega)
  unfold NINODES at this
  omega

/-- Rounding up the size of the root directory adds a block that it does not have if its entries fill the last
one. -/
theorem WellFormed.part (formed : WellFormed s) (run : main files = .ok s) :
    (files.length + 2) % 64 ≠ 0 := fun whole => by
  have count := main_freeinode run
  have spec := main_spec (formed.few run)
  rw [run] at spec
  obtain ⟨s₀, holds, finished⟩ := spec
  obtain ⟨q, hq⟩ : ∃ q, q = direntSize * (files.length + 2) / BSIZE := ⟨_, rfl⟩
  have size : ((ofImage s.image).inode ROOTINO).size = (q + 1) * BSIZE := by
    rw [finished.root, hq, ← holds.size]
  have last : q * BSIZE = direntSize * (files.length + 2) := by
    rw [hq]
    unfold direntSize BSIZE
    omega
  have hole := formed.full ROOTINO (le_refl _) (by rw [count]; unfold ROOTINO; omega) q (by
    rw [size]
    unfold BSIZE
    omega)
  rw [finished.slots, (holds.rest.exact' ROOTINO (by decide)).data q hole.1, holds.size] at hole
  omega

theorem wellFormed_of_part (run : main files = .ok s) (few : files.length ≤ 198)
    (part : (files.length + 2) % 64 ≠ 0) :
    WellFormed s := by
  have count := main_freeinode run
  have spec := main_spec few
  rw [run] at spec
  obtain ⟨s₀, holds, finished⟩ := spec
  have b := holds.rest.building
  have small : ∀ i, i < s.freeinode → i < NINODES := fun i below => by
    rw [count] at below
    unfold NINODES
    omega
  have marked : ∀ j l, l < NSLOT → s₀.current.slot j l ≠ 0 → s₀.current.slot j l < s₀.freeblock :=
    fun j l near present => volume_used.mp (b.cons.used j l near present)
  have bound := holds.rest.bound
  refine ⟨fun i _ => small i, fun i _ below bn inside => ?_, finished.cons.distinct,
    fun i l near present => ?_,
    fun c below => ?_, fun i _ below => ?_⟩
  · have ex := holds.rest.exact' i (small i below)
    have most := b.cons.sizes i
    rw [finished.slots]
    have reached : bn * BSIZE < (s₀.current.inode i).size := by
      by_cases root : i = ROOTINO
      · subst root
        rw [finished.root, holds.size] at inside
        rw [holds.size]
        have inside : bn * BSIZE < (direntSize * (files.length + 2) / BSIZE + 1) * BSIZE := inside
        unfold direntSize BSIZE at *
        omega
      · rwa [finished.others i root] at inside
    have index : bn < MAXFILE := by
      have : bn * BSIZE < MAXFILE * BSIZE := by omega
      exact Nat.lt_of_mul_lt_mul_right this
    exact ⟨index, (ex.data bn index).mpr reached⟩
  · rw [finished.slots] at present ⊢
    rw [finished.size]
    exact ⟨b.low i l near present, by have := marked i l near present; omega⟩
  · rw [finished.size] at below
    rw [finished.used c below, decide_eq_true_eq]
    constructor
    · intro handed
      by_cases low : c < nmeta
      · exact .inl low
      · obtain ⟨i, l, near, value⟩ := b.all c (by omega) handed
        have : 0 < nmeta := by decide
        exact .inr ⟨i, l, near, by rw [finished.slots, value]; omega, by rw [finished.slots, value]⟩
    · rintro (low | ⟨i, l, near, present, value⟩)
      · exact low.trans_le b.above
      · rw [finished.slots] at present value
        rw [← value]
        exact marked i l near present
  · obtain ⟨_, _, start, map⟩ := superblock_fields
    rw [finished.super, start, map]
    exact IBLOCK_lt (small i below)

/-- There is an image of files that fit. -/
theorem Fits.main_ok (fits : Fits files) : ∃ s s₀, main files = .ok s ∧ Holds files s₀ ∧ Finished s₀ s := by
  have few : files.length ≤ 198 := by
    have := fits.inodes
    unfold NINODES at this
    omega
  have spec := main_spec few
  revert spec
  cases main files with
  | error message => exact fun spec => absurd fits spec
  | ok s => exact fun ⟨s₀, holds, finished⟩ => ⟨s, s₀, rfl, holds, finished⟩

end WellFormed

/-- An image that `mkfs` writes is well formed exactly if there are at most 198 input files, so that the inode
numbers stay below `sb.ninodes`, and the entries of the root directory do not fill its last block, so that
rounding up its size adds no block that it does not have. -/
theorem main_wellFormed {files : List InputFile} {s : MkfsState} (run : main files = .ok s) :
    WellFormed s ↔ files.length ≤ 198 ∧ (files.length + 2) % 64 ≠ 0 :=
  ⟨fun formed => ⟨formed.few run, formed.part run⟩, fun ⟨few, part⟩ => wellFormed_of_part run few part⟩

/-- An empty file with two digits as its name. -/
def numbered (k : Nat) : InputFile where
  argv := [UInt8.ofNat (48 + k / 10 % 10), UInt8.ofNat (48 + k % 10)]
  opens := true
  reads := []
  split := by simp
  named := by
    have digit : ∀ d < 10, UInt8.ofNat (48 + d) ≠ 0 := by decide
    have left := digit (k / 10 % 10) (Nat.mod_lt _ (by decide))
    have right := digit (k % 10) (Nat.mod_lt _ (by decide))
    simp only [List.mem_cons, List.not_mem_nil, or_false, not_or]
    exact ⟨left.symm, right.symm⟩

theorem numbered_good (k : Nat) : (numbered k).Good := by
  have digit : ∀ d < 10, ∀ e < 10, 47 ∉ MkfsState.shortname [UInt8.ofNat (48 + d), UInt8.ofNat (48 + e)] ∧
      (MkfsState.imageName [UInt8.ofNat (48 + d), UInt8.ofNat (48 + e)]).length ≤ DIRSIZ := by decide
  have both := digit (k / 10 % 10) (Nat.mod_lt _ (by decide)) (k % 10) (Nat.mod_lt _ (by decide))
  exact ⟨both.1, rfl, both.2⟩

theorem numbered_fits {n : Nat} (few : n ≤ 62) : Fits ((List.range n).map numbered) := by
  have empty : ∀ k, (numbered k).bytes.length = 0 := fun _ => rfl
  have room : blocks (direntSize * (n + 2)) ≤ 1 := by
    have grows := blocks_mono (show direntSize * (n + 2) ≤ direntSize * 64 from Nat.mul_le_mul_left _ (by omega))
    have one : blocks (direntSize * 64) = 1 := by decide
    omega
  have none : (((List.range n).map numbered).map InputFile.blocks).sum = 0 := by
    have zero : InputFile.blocks ∘ numbered = fun _ => 0 := funext fun _ => (by decide : blocks 0 = 0)
    rw [List.map_map, zero]
    simp
  refine ⟨fun f mem => ?_, fun f mem => ?_, ?_, ?_⟩
  · obtain ⟨k, -, rfl⟩ := List.mem_map.mp mem
    exact numbered_good k
  · obtain ⟨k, -, rfl⟩ := List.mem_map.mp mem
    rw [empty]
    exact Nat.zero_le _
  · rw [List.length_map, List.length_range]
    unfold NINODES
    omega
  · rw [none, List.length_map, List.length_range]
    have : nmeta + 1 ≤ FSSIZE := by decide
    omega

theorem main_wellFormed_one : ∃ s, main ((List.range 1).map numbered) = .ok s ∧ WellFormed s := by
  obtain ⟨s, _, run, _⟩ := (numbered_fits (by decide : 1 ≤ 62)).main_ok
  exact ⟨s, run, (main_wellFormed run).mpr (by decide)⟩

/-- The 64 entries of the root directory fill one block, and its size becomes that of two. -/
theorem main_sixtyTwo : ∃ s, main ((List.range 62).map numbered) = .ok s ∧ ¬ WellFormed s := by
  obtain ⟨s, _, run, _⟩ := (numbered_fits (by decide : 62 ≤ 62)).main_ok
  exact ⟨s, run, fun formed => formed.part run (by decide)⟩

end Xv6.Mkfs
