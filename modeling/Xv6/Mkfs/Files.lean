import Xv6.Mkfs.Image
import Xv6.Content.Directory

namespace Xv6.Mkfs
open Function Content

section Files

variable {s s' s'' : MkfsState} {i j k n m type : Nat} {p q : Bytes} {f : InputFile} {fs : List InputFile}

/-- The outcome of `ialloc`. -/
structure Alloced (type : Nat) (s s' : MkfsState) : Prop where
  rest : Rest s'
  freeinode : s'.freeinode = s.freeinode + 1
  freeblock : s'.freeblock = s.freeblock
  self : s'.current.inode s.freeinode = ⟨type, 1, 0, fun _ => 0⟩
  others : ∀ j, j < NINODES → j ≠ s.freeinode → Untouched j s s'

theorem ialloc_spec (rest : Rest s) (inside : s.freeinode < NINODES) (small : type < 2 ^ 16) :
    ∃ s', s.ialloc type = .ok (s.freeinode, s') ∧ Alloced type s s' := by
  obtain ⟨i, hi⟩ : ∃ i, i = s.freeinode := ⟨_, rfl⟩
  rw [← hi] at inside
  set din := Bytes.store (Bytes.store (Bytes.store (fun _ => 0) 0 2 type) 6 2 1) 8 4 0 with hd
  have decoded : inodeOf din = ⟨type, 1, 0, fun _ => 0⟩ := by
    have addrs : (inodeOf din).addrs = fun _ => 0 := funext fun l => by
      rw [inodeOf_addrs]
      split
      · rw [dinAddr, hd, Bytes.le_store_disjoint (by omega), Bytes.le_store_disjoint (by omega),
          Bytes.le_store_disjoint (by omega), Bytes.le_zero]
      · rfl
    have type' : dinType din = type := by
      rw [dinType, hd, Bytes.le_store_disjoint (by omega), Bytes.le_store_disjoint (by omega),
        Bytes.le_store_self (by simpa using small)]
    have nlink : dinNlink din = 1 := by
      rw [dinNlink, hd, Bytes.le_store_disjoint (by omega), Bytes.le_store_self (by decide)]
    have size : dinSize din = 0 := by
      rw [dinSize, hd, Bytes.le_store_self (by decide)]
    unfold inodeOf at addrs ⊢
    simp only at addrs
    rw [addrs, type', nlink, size]
    rfl
  have blank : inodeOf (s.inodeAt i) = noInode := by
    rw [← current_inode inside]
    exact rest.fresh i (by omega) inside
  set s₀ : MkfsState := { s with freeinode := i + 1 } with hs₀
  have here : s₀.volume i (s₀.inodeAt i) = s.current := volume_current (s := s) inside
  have building : Building s₀ (s₀.volume i (s₀.inodeAt i)) := by
    rw [here]
    have b := rest.building
    exact ⟨b.cons, b.zero, b.low, b.all, b.above, b.bound⟩
  obtain ⟨s', run, written⟩ := winode_spec _ _ _ din building inside
    (by rw [decoded, show inodeOf (s₀.inodeAt i) = noInode from blank]; rfl)
    (by rw [decoded]; exact Nat.zero_le _)
  rw [here] at written
  have slots := written.slots
  have sameSize : ∀ j, (s'.current.inode j).size = (s.current.inode j).size := fun j => by
    by_cases same : j = i
    · rw [same, written.self, decoded, rest.fresh i (by omega) inside]
      rfl
    · rw [written.others j same]
  refine ⟨s', ?_, ⟨written.building, ?_, fun j inside' => ?_, written.low.trans rest.super,
    fun j least inside' => ?_⟩,
    ?_, written.counters.2, ?_, fun j inside' apart => ⟨written.others j (by omega), fun x below => ?_⟩⟩
  · simp only [MkfsState.ialloc, ← hi, ← hd, ← hs₀, run, Bind.bind, Except.bind]
    rfl
  · rw [written.counters.2]
    exact rest.bound
  · have ex := rest.exact' j inside'
    rw [sameSize]
    exact ⟨fun bn small => by rw [slots]; exact ex.data bn small, by rw [slots]; exact ex.indirect⟩
  · rw [written.counters.1] at least
    have least : i + 1 ≤ j := least
    rw [written.others j (by omega)]
    exact rest.fresh j (by omega) inside'
  · rw [written.counters.1, hs₀, hi]
  · rw [← hi, written.self, decoded]
  · obtain ⟨index, present⟩ := rest.inside inside' below
    exact written.files j x index present

/-! ### A file is appended piece by piece -/

theorem Grown.trans (first : Grown i p n s s') (second : Grown i q m s' s'') {r : Bytes}
    (left : ∀ x < n, r x = p x) (right : ∀ x < m, r (n + x) = q x) : Grown i r (n + m) s s'' := by
  have size := first.size
  have count₁ := first.freeblock
  have count₂ := second.freeblock
  rw [size] at count₂
  refine ⟨second.rest, second.freeinode.trans first.freeinode, second.type.trans first.type,
    by rw [second.size, size, Nat.add_assoc],
    by rw [← Nat.add_assoc]; omega, fun x below => ?_, fun x below => ?_,
    fun j inside apart => (first.others j inside apart).trans (second.others j inside apart)⟩
  · by_cases early : x < n
    · rw [second.before _ (by omega), first.bytes x early, left x early]
    · have late := second.bytes (x - n) (by omega)
      rw [size, show (s.current.inode i).size + n + (x - n) = (s.current.inode i).size + x by omega] at late
      rw [late, ← right (x - n) (by omega)]
      congr 1
      omega
  · rw [second.before x (by omega), first.before x below]

theorem Grown.none (rest : Rest s) (p : Bytes) : Grown i p 0 s s :=
  ⟨rest, rfl, rfl, rfl, rfl, fun x below => by omega, fun _ _ => rfl, fun _ _ _ => ⟨rfl, fun _ _ => rfl⟩⟩

theorem NoRoom.more (full : NoRoom j n s) (more : n ≤ m) : NoRoom j m s := by
  have grows := blocks_mono (show j + n ≤ j + m by omega)
  rcases full with large | many
  · exact .inl (by omega)
  · exact .inr (by omega)

theorem ofList_append (a b : List UInt8) :
    (∀ x < a.length, ofList (a ++ b) x = ofList a x) ∧ ∀ x, ofList (a ++ b) (a.length + x) = ofList b x := by
  constructor
  · intro x below
    simp [ofList, List.getElem?_append_left below]
  · intro x
    simp [ofList, List.getElem?_append_right]

theorem appendAll_spec (rest : Rest s) (inside : i < NINODES) (taken : i < s.freeinode)
    (reads : List (List UInt8)) :
    match reads.foldlM (fun s buf => s.iappend i (ofList buf) buf.length) s with
    | Except.ok s' => Grown i (ofList reads.flatten) reads.flatten.length s s'
    | Except.error _ => NoRoom (s.current.inode i).size reads.flatten.length s := by
  induction reads generalizing s with
  | nil => exact Grown.none rest _
  | cons buf reads ih =>
    have first := iappend_spec (n := buf.length) (p := ofList buf) rest inside taken
    rw [List.foldlM_cons, List.flatten_cons, List.length_append]
    revert first
    cases s.iappend i (ofList buf) buf.length with
    | error message => exact fun full => full.more (Nat.le_add_right _ _)
    | ok s₁ =>
      intro first
      have first : Grown i (ofList buf) buf.length s s₁ := first
      have later := ih first.rest (by rw [first.freeinode]; exact taken)
      simp only [Bind.bind, Except.bind]
      revert later
      cases List.foldlM (fun s buf => s.iappend i (ofList buf) buf.length) s₁ reads with
      | error message =>
        intro full
        have count := first.freeblock
        rcases full with large | many
        · rw [first.size] at large
          exact .inl (by omega)
        · rw [first.size, Nat.add_assoc] at many
          exact .inr (by omega)
      | ok s' =>
        intro later
        obtain ⟨left, right⟩ := ofList_append buf reads.flatten
        exact first.trans later left fun x _ => right x

/-! ### The files of the image -/

/-- The number of blocks for a file. -/
def InputFile.blocks (f : InputFile) : Nat := Mkfs.blocks f.bytes.length

/-- A name that `main` asserts to be all right, of a file that can be opened. -/
structure InputFile.Good (f : InputFile) : Prop where
  slash : 47 ∉ MkfsState.shortname f.argv
  opens : f.opens = true
  short : (MkfsState.imageName f.argv).length ≤ DIRSIZ

/-- What the image holds after some files. -/
structure Holds (fs : List InputFile) (s : MkfsState) : Prop where
  rest : Rest s
  freeinode : s.freeinode = fs.length + 2
  type : (s.current.inode ROOTINO).type = T_DIR
  size : (s.current.inode ROOTINO).size = direntSize * (fs.length + 2)
  dots : (s.current.inum ROOTINO 0 = ROOTINO ∧ s.current.name ROOTINO 0 = nameKey dot) ∧
    s.current.inum ROOTINO 1 = ROOTINO ∧ s.current.name ROOTINO 1 = nameKey dotdot
  entries : ∀ k (bound : k < fs.length), s.current.inum ROOTINO (k + 2) = k + 2 ∧
    s.current.name ROOTINO (k + 2) = nameKey (ofList (MkfsState.imageName fs[k].argv))
  files : ∀ k (bound : k < fs.length), (s.current.inode (k + 2)).type = T_FILE ∧
    (s.current.inode (k + 2)).size = fs[k].bytes.length ∧
    ∀ x < fs[k].bytes.length, s.current.file (k + 2) x = ofList fs[k].bytes x
  freeblock : s.freeblock = nmeta + blocks (direntSize * (fs.length + 2)) + (fs.map InputFile.blocks).sum

/-- Entries of the root directory stay as they are while it grows. -/
theorem Grown.entry (grown : Grown i p n s s')
    (below : direntSize * k + direntSize ≤ (s.current.inode i).size) :
    s'.current.inum i k = s.current.inum i k ∧ s'.current.name i k = s.current.name i k :=
  Volume.entry_congr fun x _ upper => grown.before x (by omega)

theorem Grown.newEntry (grown : Grown i p direntSize s s') (at' : (s.current.inode i).size = direntSize * k) :
    s'.current.inum i k = inumOf p ∧ s'.current.name i k = nameKey (nameOf p) := by
  have same : ∀ x < direntSize, s'.current.direntAt i k x = p x := fun x small => by
    rw [← grown.bytes x small, at']
    rfl
  exact ⟨inumOf_congr same, nameKey_congr same⟩

theorem Untouched.entry (same : Untouched i s s')
    (below : direntSize * k + direntSize ≤ (s.current.inode i).size) :
    s'.current.inum i k = s.current.inum i k ∧ s'.current.name i k = s.current.name i k :=
  Volume.entry_congr fun x _ upper => same.2 x (by omega)

/-- Why there is no image with one more file. -/
def Rejected (fs : List InputFile) (f : InputFile) : Prop :=
  ¬ f.Good ∨ MAXFILE * BSIZE < f.bytes.length ∨
    FSSIZE < nmeta + blocks (direntSize * (fs.length + 3)) + (fs.map InputFile.blocks).sum + f.blocks

theorem addFile_spec (holds : Holds fs s) (few : fs.length < 198) :
    match s.addFile f with
    | .ok s' => Holds (fs ++ [f]) s'
    | .error _ => Rejected fs f := by
  have room : s.freeinode < NINODES := by
    rw [holds.freeinode]
    unfold NINODES
    omega
  unfold MkfsState.addFile
  by_cases slash : 47 ∈ MkfsState.shortname f.argv
  · rw [if_pos slash]
    exact .inl fun good => good.slash slash
  rw [if_neg slash]
  by_cases opens : f.opens = true
  swap
  · rw [if_pos (by simpa using opens)]
    exact .inl fun good => opens good.opens
  rw [if_neg (by simp [opens])]
  by_cases long : DIRSIZ < (MkfsState.imageName f.argv).length
  · rw [if_pos long]
    exact .inl fun good => by have := good.short; omega
  rw [if_neg long]
  obtain ⟨s₁, alloc, a⟩ := ialloc_spec holds.rest room (by decide : T_FILE < 2 ^ 16)
  have inum : s.freeinode = fs.length + 2 := holds.freeinode
  rw [inum] at alloc room
  simp only [alloc, Bind.bind, Except.bind]
  have rootTaken : ROOTINO < s₁.freeinode := by
    rw [a.freeinode, inum]
    unfold ROOTINO
    omega
  have rootInside : ROOTINO < NINODES := by decide
  obtain ⟨rootSame, rootBytes⟩ := a.others ROOTINO rootInside (by rw [inum]; unfold ROOTINO; omega)
  have rootSize : (s₁.current.inode ROOTINO).size = direntSize * (fs.length + 2) :=
    by rw [rootSame, holds.size]
  have linked := iappend_spec (n := direntSize) (p := dirent (fs.length + 2)
    (ofList (MkfsState.imageName f.argv))) a.rest
    rootInside rootTaken
  revert linked
  cases s₁.iappend ROOTINO (dirent (fs.length + 2) (ofList (MkfsState.imageName f.argv))) direntSize with
  | error message =>
    rintro (large | many)
    · rw [rootSize] at large
      unfold direntSize MAXFILE NDIRECT NINDIRECT BSIZE at large
      omega
    · rw [rootSize, a.freeblock, holds.freeblock] at many
      right
      right
      rw [show direntSize * (fs.length + 2) + direntSize = direntSize * (fs.length +
        3) by unfold direntSize; omega] at many
      omega
  | ok s₂ =>
    intro linked
    have linked : Grown ROOTINO (dirent (fs.length + 2) (ofList (MkfsState.imageName f.argv)))
      direntSize s₁ s₂ := linked
    simp only
    have fileTaken : fs.length + 2 < s₂.freeinode := by
      rw [linked.freeinode, a.freeinode, inum]
      omega
    have apart : fs.length + 2 ≠ ROOTINO := by unfold ROOTINO; omega
    obtain ⟨fileSame, _⟩ := linked.others (fs.length + 2) room apart
    have self := a.self
    rw [inum] at self
    rw [self] at fileSame
    have fileSize : (s₂.current.inode (fs.length + 2)).size = 0 := by rw [fileSame]
    have count := linked.freeblock
    rw [rootSize, a.freeblock, holds.freeblock,
      show direntSize * (fs.length + 2) + direntSize = direntSize *
      (fs.length + 3) by unfold direntSize; omega] at count
    have zero : blocks 0 = 0 := by decide
    have filled := appendAll_spec linked.rest room fileTaken f.reads
    revert filled
    cases List.foldlM (fun s buf => s.iappend (fs.length + 2) (ofList buf) buf.length) s₂ f.reads with
    | error message =>
      rintro (large | many)
      · rw [fileSize, Nat.zero_add] at large
        exact .inr (.inl large)
      · rw [fileSize, Nat.zero_add, zero] at many
        have own : f.blocks = blocks f.reads.flatten.length := rfl
        exact .inr (.inr (by omega))
    | ok s' =>
      intro filled
      have filled : Grown (fs.length + 2) (ofList f.bytes) f.bytes.length s₂ s' := filled
      have rootLast := filled.others ROOTINO rootInside apart.symm
      have size₂ : (s₂.current.inode ROOTINO).size = direntSize * (fs.length + 3) := by
        rw [linked.size, rootSize]
        unfold direntSize
        omega
      -- the entries that were there
      have old : ∀ k, k < fs.length + 2 → s'.current.inum ROOTINO k = s.current.inum ROOTINO k ∧
          s'.current.name ROOTINO k = s.current.name ROOTINO k := fun k below => by
        have first := Untouched.entry (k := k) ⟨rootSame, rootBytes⟩ (by
          rw [holds.size]
          unfold direntSize
          omega)
        have second := linked.entry (k := k) (by
          rw [rootSize]
          unfold direntSize
          omega)
        have third := rootLast.entry (k := k) (by
          rw [size₂]
          unfold direntSize
          omega)
        exact ⟨third.1.trans (second.1.trans first.1), third.2.trans (second.2.trans first.2)⟩
      have new : s'.current.inum ROOTINO (fs.length + 2) = fs.length + 2 ∧
          s'.current.name ROOTINO (fs.length + 2) = nameKey (ofList (MkfsState.imageName f.argv)) := by
        have second := linked.newEntry rootSize
        have third := rootLast.entry (k := fs.length + 2) (by
          rw [size₂]
          unfold direntSize
          omega)
        rw [dirent_inum (by omega), dirent_name] at second
        exact ⟨third.1.trans second.1, third.2.trans second.2⟩
      have kept : ∀ k, k < fs.length → Untouched (k + 2) s s' := fun k below => by
        have inside : k + 2 < NINODES := by omega
        refine ((a.others (k + 2) inside (by omega)).trans (linked.others (k + 2) inside ?_)).trans
          (filled.others (k + 2) inside (by omega))
        unfold ROOTINO
        omega
      refine ⟨filled.rest, ?_, ?_, ?_, ?_, fun k bound => ?_, fun k bound => ?_, ?_⟩
      · rw [filled.freeinode, linked.freeinode, a.freeinode, inum, List.length_append, List.length_singleton]
      · rw [rootLast.1, linked.type, rootSame, holds.type]
      · rw [rootLast.1, size₂, List.length_append, List.length_singleton]
      · rw [(old 0 (by omega)).1, (old 0 (by omega)).2, (old 1 (by omega)).1, (old 1 (by omega)).2]
        exact holds.dots
      · by_cases last : k < fs.length
        · rw [(old (k + 2) (by omega)).1, (old (k + 2) (by omega)).2, List.getElem_append_left last]
          exact holds.entries k last
        · have here : k = fs.length := by
            rw [List.length_append, List.length_singleton] at bound
            omega
          subst here
          rw [List.getElem_concat_length rfl]
          exact new
      · by_cases last : k < fs.length
        · obtain ⟨type, size, bytes⟩ := holds.files k last
          obtain ⟨same, contents⟩ := kept k last
          rw [List.getElem_append_left last, same]
          exact ⟨type, size, fun x below => (contents x (by rwa [size])).trans (bytes x below)⟩
        · have here : k = fs.length := by
            rw [List.length_append, List.length_singleton] at bound
            omega
          subst here
          rw [List.getElem_concat_length rfl]
          have size := filled.size
          rw [fileSize, Nat.zero_add] at size
          refine ⟨by rw [filled.type, fileSame], size, fun x below => ?_⟩
          have bytes := filled.bytes x below
          rwa [fileSize, Nat.zero_add] at bytes
      · have total := filled.freeblock
        rw [fileSize, Nat.zero_add, zero] at total
        rw [List.map_append, List.sum_append, List.length_append, List.length_singleton]
        simp only [List.map_cons, List.map_nil, List.sum_cons, List.sum_nil, Nat.add_zero, InputFile.blocks]
        rw [show fs.length + 1 + 2 = fs.length + 3 by omega]
        omega

end Files

end Xv6.Mkfs
