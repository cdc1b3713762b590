import Xv6.Mkfs.Files

namespace Xv6.Mkfs
open Function Content

section Finish

variable {s s' : MkfsState} {i j k n b : Nat} {f : InputFile} {fs rest : List InputFile}

/-- The input files fit on the disk and can be read, and their names are all right. -/
structure Fits (files : List InputFile) : Prop where
  good : ∀ f ∈ files, f.Good
  sizes : ∀ f ∈ files, f.bytes.length ≤ MAXFILE * BSIZE
  inodes : files.length + 2 ≤ NINODES
  total : nmeta + blocks (direntSize * (files.length + 2)) + (files.map InputFile.blocks).sum ≤ FSSIZE

theorem inodeOf_zero {din : Bytes} (zero : ∀ x < dinodeSize, din x = 0) : inodeOf din = noInode := by
  rw [inodeOf_congr (fun _ => 0) zero]
  have addrs : (inodeOf fun _ => 0).addrs = fun _ => 0 := funext fun l => by
    rw [inodeOf_addrs]
    split
    · exact Bytes.le_zero ..
    · rfl
  unfold inodeOf at addrs ⊢
  simp only at addrs
  rw [addrs]
  simp [dinType, dinNlink, dinSize, noInode]

theorem start_rest : Rest MkfsState.start := by
  have image : ∀ c, c ≠ 1 → MkfsState.start.image c = fun _ => 0 := fun c apart => by
    simp [MkfsState.start, apart]
  have super : MkfsState.start.image 1 = superblock := by simp [MkfsState.start]
  have inode : ∀ j, MkfsState.start.current.inode j = noInode := fun j => by
    by_cases inside : j < NINODES
    · rw [current_inode inside]
      refine inodeOf_zero fun x _ => ?_
      unfold MkfsState.inodeAt
      rw [image _ (by have := IBLOCK_above j; omega)]
      rfl
    · exact current_outside (by omega)
  have slots : ∀ j l, MkfsState.start.current.slot j l = 0 := fun j l => by
    by_cases direct : l ≤ NDIRECT
    · rw [Volume.slot_direct direct, inode]
      rfl
    · exact Volume.slot_absent (by rw [inode]; rfl) (by omega)
  refine ⟨⟨⟨fun x l y m _ _ _ present => absurd (slots x l) present, fun x l _ present => absurd (slots x l) present,
    by decide, fun j => ?_⟩, fun c least => image c ?_, fun j l _ present => absurd (slots j l) present,
    fun c low high => ?_, le_refl _, by decide⟩, by decide, fun j _ => ?_, super, fun j _ _ => inode j⟩
  · rw [inode]
    exact Nat.zero_le _
  · have : MkfsState.start.freeblock = nmeta := rfl
    have : 1 < nmeta := by decide
    omega
  · have : MkfsState.start.freeblock = nmeta := rfl
    omega
  · rw [inode]
    exact ⟨fun bn _ => by simp [slots, noInode], by simp [slots, noInode]⟩

theorem makeRoot_spec : ∃ s, MkfsState.makeRoot = .ok s ∧ Holds [] s := by
  have free : MkfsState.start.freeinode = ROOTINO := rfl
  obtain ⟨s₁, alloc, a⟩ := ialloc_spec start_rest (by decide) (by decide : T_DIR < 2 ^ 16)
  have inside : ROOTINO < NINODES := by decide
  have self := a.self
  rw [free] at alloc self
  have taken : ROOTINO < s₁.freeinode := by
    rw [a.freeinode, free]
    exact Nat.lt_succ_self _
  have size₁ : (s₁.current.inode ROOTINO).size = direntSize * 0 := by
    rw [self]
    rfl
  have count₁ : s₁.freeblock = nmeta := a.freeblock
  have first := iappend_spec (n := direntSize) (p := dirent ROOTINO dot) a.rest inside taken
  unfold MkfsState.makeRoot
  simp only [alloc, Bind.bind, Except.bind, ne_eq, not_true_eq_false, if_false]
  revert first
  cases s₁.iappend ROOTINO (dirent ROOTINO dot) direntSize with
  | error message =>
    rintro (large | many)
    · rw [size₁] at large
      exact absurd large (by decide)
    · rw [size₁, count₁] at many
      exact absurd many (by decide)
  | ok s₂ =>
    intro first
    have first : Grown ROOTINO (dirent ROOTINO dot) direntSize s₁ s₂ := first
    have size₂ : (s₂.current.inode ROOTINO).size = direntSize * 1 := by
      rw [first.size, size₁, Nat.mul_zero, Nat.mul_one, Nat.zero_add]
    have count₂ := first.freeblock
    rw [size₁, count₁] at count₂
    have second := iappend_spec (n := direntSize) (p := dirent ROOTINO dotdot) first.rest inside
      (by rw [first.freeinode]; exact taken)
    simp only
    revert second
    cases s₂.iappend ROOTINO (dirent ROOTINO dotdot) direntSize with
    | error message =>
      rintro (large | many)
      · rw [size₂] at large
        exact absurd large (by decide)
      · rw [size₂] at many
        have one : blocks (direntSize * 1) = 1 := by decide
        have two : blocks (direntSize * 1 + direntSize) = 1 := by decide
        have zero : blocks (direntSize * 0) = 0 := by decide
        have again : blocks (direntSize * 0 + direntSize) = 1 := by decide
        have : nmeta + 1 ≤ FSSIZE := by decide
        omega
    | ok s₃ =>
      intro second
      have second : Grown ROOTINO (dirent ROOTINO dotdot) direntSize s₂ s₃ := second
      have count₃ := second.freeblock
      rw [size₂] at count₃
      have entry₀ := first.newEntry size₁
      have entry₁ := second.newEntry size₂
      have kept := second.entry (k := 0) (by rw [size₂, Nat.mul_zero, Nat.mul_one, Nat.zero_add])
      rw [dirent_inum (by decide), dirent_name] at entry₀ entry₁
      refine ⟨s₃, rfl, second.rest, ?_, ?_, ?_, ⟨⟨kept.1.trans entry₀.1, kept.2.trans entry₀.2⟩, entry₁⟩,
        fun k bound => absurd bound (Nat.not_lt_zero k), fun k bound => absurd bound (Nat.not_lt_zero k), ?_⟩
      · rw [second.freeinode, first.freeinode, a.freeinode, free]
        rfl
      · rw [second.type, first.type, self]
      · rw [second.size, size₂]
        rfl
      · have one : blocks (direntSize * 1) = 1 := by decide
        have two : blocks (direntSize * 1 + direntSize) = 1 := by decide
        have zero : blocks (direntSize * 0) = 0 := by decide
        have again : blocks (direntSize * 0 + direntSize) = 1 := by decide
        have root : blocks (direntSize * (([] : List InputFile).length + 2)) = 1 := by decide
        simp only [List.map_nil, List.sum_nil]
        omega

theorem Rejected.not_fits (rejected : Rejected fs f) : ¬ Fits (fs ++ f :: rest) := fun fits => by
  rcases rejected with bad | large | many
  · exact bad (fits.good f (by simp))
  · have := fits.sizes f (by simp)
    omega
  · have total := fits.total
    rw [List.map_append, List.sum_append, List.length_append, List.map_cons, List.sum_cons,
      List.length_cons] at total
    have grows := blocks_mono (show direntSize * (fs.length + 3) ≤ direntSize * (fs.length +
      (rest.length + 1) + 2) from
      Nat.mul_le_mul_left _ (by omega))
    omega

theorem addFiles_spec (rest : List InputFile) (holds : Holds fs s) (few : fs.length + rest.length ≤ 198) :
    match rest.foldlM MkfsState.addFile s with
    | Except.ok s' => Holds (fs ++ rest) s'
    | Except.error _ => ¬ Fits (fs ++ rest) := by
  induction rest generalizing fs s with
  | nil => rwa [List.append_nil]
  | cons f rest ih =>
    rw [List.length_cons] at few
    have first := addFile_spec (f := f) holds (by omega)
    rw [List.foldlM_cons]
    revert first
    cases s.addFile f with
    | error message => exact Rejected.not_fits
    | ok s₁ =>
      intro (first : Holds (fs ++ [f]) s₁)
      have later := ih first (by rw [List.length_append, List.length_singleton]; omega)
      rwa [List.append_assoc, List.singleton_append] at later

/-- The bits of the bitmap are those of the blocks handed out. -/
theorem bit_setBits (used b : Nat) : bit (MkfsState.setBits used) b = decide (b < used) := by
  induction used with
  | zero => simp [MkfsState.setBits, bit]
  | succ n ih =>
    have step : MkfsState.setBits (n + 1) = update (MkfsState.setBits n) (n / 8)
        (MkfsState.setBits n (n / 8) ||| UInt8.ofNat (2 ^ (n % 8))) := by
      simp [MkfsState.setBits, List.range_succ]
    have small : 2 ^ (n % 8) < 256 := Nat.pow_lt_pow_right (by decide : 1 < 2) (by omega : n % 8 < 8)
    rw [step]
    unfold bit at ih ⊢
    by_cases same : b / 8 = n / 8
    · rw [same, update_self, UInt8.toNat_or, Nat.testBit_or,
        ← same, ih, UInt8.toNat_ofNat', Nat.mod_eq_of_lt small,
        Nat.testBit_two_pow]
      by_cases here : b = n
      · simp [here]
      · have : n % 8 ≠ b % 8 := by omega
        simp only [this, decide_false, Bool.or_false, decide_eq_decide]
        omega
    · rw [update_of_ne same, ih, decide_eq_decide]
      omega

end Finish

end Xv6.Mkfs
