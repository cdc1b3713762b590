import Xv6.Mkfs.WellFormed

namespace Xv6.Mkfs
open Function Content

/-- The name of an input file in the image. -/
def InputFile.name (f : InputFile) : List UInt8 := MkfsState.imageName f.argv

/-- The kernel finds the file in the root directory and reads all its bytes. -/
def Delivered (v : Volume) (f : InputFile) : Prop :=
  ∃ inum off, v.dirlookup ROOTINO (ofList f.name) = .ok (some (inum, off), v) ∧
    (v.inode inum).size = f.bytes.length ∧ ∀ dst, ∃ dst',
      v.readi inum dst none 0 f.bytes.length = .ok ((f.bytes.length : Int), dst', v) ∧
      ∀ x < f.bytes.length, dst' x = ofList f.bytes x

section Lookup

variable {s s' : MkfsState} {k n x : Nat} {f : InputFile} {files : List InputFile} {l : List UInt8}

theorem str_ofList (named : 0 ∉ l) (short : l.length ≤ n) : Bytes.str n (ofList l) = l := by
  induction n generalizing l with
  | zero =>
    rw [List.eq_nil_of_length_eq_zero (Nat.le_zero.mp short)]
    rfl
  | succ n ih =>
    cases l with
    | nil => rfl
    | cons b l =>
      rw [List.mem_cons, not_or] at named
      rw [List.length_cons] at short
      have first : ofList (b :: l) 0 = b := rfl
      have rest : (ofList (b :: l)).drop 1 = ofList l := funext fun x => by
        rw [Bytes.drop_apply, Nat.add_comm]
        rfl
      rw [Bytes.str, first, if_neg (Ne.symm named.1), rest, ih named.2 (by omega)]

theorem InputFile.name_named (f : InputFile) : 0 ∉ f.name := fun mem => by
  have short : 0 ∉ MkfsState.shortname f.argv := fun mem => by
    unfold MkfsState.shortname at mem
    split at mem
    · exact f.named (List.mem_of_mem_drop mem)
    · exact f.named mem
  unfold InputFile.name MkfsState.imageName at mem
  split at mem
  · exact short (List.mem_of_mem_tail mem)
  · exact short mem

/-- A short name is the one that the kernel compares. -/
theorem InputFile.Good.key (good : f.Good) : nameKey (ofList f.name) = f.name :=
  str_ofList f.name_named good.short

/-- The entries of the root directory as the kernel reads them. -/
theorem Finished.entry (finished : Finished s s') (holds : Holds files s) (below : k < files.length + 2) :
    (ofImage s'.image).Readable ROOTINO k ∧ (ofImage s'.image).inum ROOTINO k = s.current.inum ROOTINO k ∧
      (ofImage s'.image).name ROOTINO k = s.current.name ROOTINO k := by
  have inside : ∀ x, x < direntSize * k + direntSize → x < (s.current.inode ROOTINO).size := fun x upper => by
    rw [holds.size]
    unfold direntSize at *
    omega
  have present : ∀ x, x < direntSize * k + direntSize → x / BSIZE < MAXFILE ∧
      s.current.slot ROOTINO (dataSlot (x / BSIZE)) ≠ 0 := fun x upper =>
    holds.rest.inside (by decide) (inside x upper)
  refine ⟨⟨?_, fun x _ upper => ?_⟩, Volume.entry_congr fun x _ upper => ?_⟩
  · have root : ((ofImage s'.image).inode ROOTINO).size = (direntSize * (files.length + 2) /
      BSIZE + 1) * BSIZE := by
      rw [finished.root, ← holds.size]
    rw [root]
    unfold direntSize BSIZE
    omega
  · rw [finished.slots]
    exact (present x upper).2
  · exact finished.files ROOTINO x (present x upper).1 (present x upper).2

/-- A lookup ends at the first entry with the name. -/
theorem Finished.lookup (wanted : Bytes) (finished : Finished s s') (holds : Holds files s)
    (below : k < files.length + 2)
    (found : s.current.inum ROOTINO k ≠ 0 ∧ s.current.name ROOTINO k = nameKey wanted)
    (first : ∀ j < k, s.current.name ROOTINO j ≠ nameKey wanted) :
    (ofImage s'.image).dirlookup ROOTINO wanted =
      .ok (some (s.current.inum ROOTINO k, direntSize * k), ofImage s'.image) := by
  have entry := fun j (upper : j ≤ k) => finished.entry holds (k := j) (by omega)
  have here := entry k (le_refl k)
  have dir : ((ofImage s'.image).inode ROOTINO).type = T_DIR := by
    rw [finished.root]
    exact holds.type
  have size := here.1.1
  unfold Volume.dirlookup
  rw [if_neg (not_not.mpr dir), ← here.2.1]
  refine Volume.lookupLoop_found (j := 0) finished.cons (Nat.zero_le k)
    (fun j _ upper => (entry j upper).1) ?_
    (fun j _ before again => ?_) ?_
  · exact ⟨here.2.1.trans_ne found.1, here.2.2.trans found.2⟩
  · exact first j before ((entry j before.le).2.2.symm.trans again.2)
  · unfold direntSize at size
    omega

/-- The kernel reads from the image what is in the file. -/
theorem Finished.read (finished : Finished s s') (holds : Holds files s) (bound : k < files.length)
    (few : files.length ≤ 198) : ((ofImage s'.image).inode (k + 2)).size = files[k].bytes.length ∧
    ∀ dst, ∃ dst',
      (ofImage s'.image).readi (k + 2) dst none 0 files[k].bytes.length =
        .ok ((files[k].bytes.length : Int), dst', ofImage s'.image) ∧
      ∀ x < files[k].bytes.length, dst' x = ofList files[k].bytes x := by
  obtain ⟨-, length, bytes⟩ := holds.files k bound
  have inside : k + 2 < NINODES := by
    unfold NINODES
    omega
  have apart : k + 2 ≠ ROOTINO := by
    unfold ROOTINO
    omega
  have size : ((ofImage s'.image).inode (k + 2)).size = files[k].bytes.length := by
    rw [finished.others _ apart, length]
  have present : ∀ x < files[k].bytes.length, x / BSIZE < MAXFILE ∧
      s.current.slot (k + 2) (dataSlot (x / BSIZE)) ≠ 0 := fun x below =>
    holds.rest.inside inside (by rwa [length])
  refine ⟨size, fun dst => ?_⟩
  obtain ⟨dst', run, same⟩ := Volume.readi_inside dst 0 (n := files[k].bytes.length) finished.cons
    (by rw [size, Nat.zero_add]) fun x _ upper => by
      rw [finished.slots]
      exact (present x (by omega)).2
  refine ⟨dst', run, fun x below => ?_⟩
  have place := present x below
  rw [same x below, Nat.zero_add, finished.files _ _ place.1 place.2, bytes x below]

end Lookup

/-- `mkfs` and the kernel agree on the format: the kernel finds each of the files in the image by its name
there, and reads the bytes of the file, if the names are distinct and none of them is "." or "..". -/
theorem main_delivered {files : List InputFile} (fits : Fits files)
    (distinct : (files.map InputFile.name).Nodup)
    (dots : ∀ f ∈ files, f.name ≠ [46] ∧ f.name ≠ [46, 46]) :
    ∃ s, main files = .ok s ∧ ∀ f ∈ files, Delivered (ofImage s.image) f := by
  obtain ⟨s', s, run, holds, finished⟩ := fits.main_ok
  refine ⟨s', run, fun f mem => ?_⟩
  have few : files.length ≤ 198 := by
    have := fits.inodes
    unfold NINODES at this
    omega
  obtain ⟨k, bound, rfl⟩ := List.getElem_of_mem mem
  have key : ∀ j (inside : j < files.length), s.current.name ROOTINO (j + 2) = files[j].name :=
    fun j inside =>
    (holds.entries j inside).2.trans (fits.good _ (List.getElem_mem inside)).key
  have wanted := (fits.good _ mem).key
  have inum := (holds.entries k bound).1
  obtain ⟨size, read⟩ := finished.read holds bound few
  refine ⟨k + 2, direntSize * (k + 2), ?_, size, read⟩
  have found := finished.lookup (ofList files[k].name) holds (k := k + 2) (by omega)
    ⟨by omega, by rw [key k bound, wanted]⟩ fun j before => ?_
  · rwa [inum] at found
  · rw [wanted]
    match j with
    | 0 =>
      rw [holds.dots.1.2]
      exact (dots _ mem).1.symm
    | 1 =>
      rw [holds.dots.2.2]
      exact (dots _ mem).2.symm
    | j + 2 =>
      rw [key j (by omega)]
      intro same
      have apart := List.pairwise_iff_getElem.mp distinct j k (by rw [List.length_map]; omega)
        (by rwa [List.length_map]) (by omega)
      rw [List.getElem_map, List.getElem_map] at apart
      exact apart same

/-- The file "_cat" of three bytes, which `read` returns in two pieces. -/
def cat : InputFile := ⟨[95, 99, 97, 116], true, [[1, 2], [3]], by decide, by decide⟩

theorem nothing_split : ∀ buf ∈ ([] : List (List UInt8)), buf.length ≤ BSIZE := List.forall_mem_nil _

theorem underscoreDot_named : (0 : UInt8) ∉ [95, 46] := by decide

/-- The empty file "_.". -/
def underscoreDot : InputFile := ⟨[95, 46], true, [], nothing_split, underscoreDot_named⟩

theorem fits_singleton {f : InputFile} (good : f.Good) (small : f.bytes.length ≤ BSIZE) : Fits [f] := by
  have one : f.blocks ≤ 1 := (blocks_mono small).trans (by decide)
  have inodes : 1 + 2 ≤ NINODES := by decide
  have room : nmeta + blocks (direntSize * (1 + 2)) + 1 ≤ FSSIZE := by decide
  have capacity : BSIZE ≤ MAXFILE * BSIZE := by decide
  refine ⟨by simpa using good, ?_, inodes, ?_⟩
  · simp only [List.mem_singleton, forall_eq]
    omega
  · simp only [List.length_singleton, List.map_singleton, List.sum_singleton]
    omega

theorem main_delivered_cat : ∃ s, main [cat] = .ok s ∧ ∀ f ∈ [cat], Delivered (ofImage s.image) f :=
  main_delivered (fits_singleton ⟨by decide, rfl, by decide⟩ (by decide)) (by decide) (by decide)

/-- The file "_." cannot be found: its name in the image is that of the root directory's first entry. -/
theorem main_dot : Fits [underscoreDot] ∧ ∃ s, main [underscoreDot] = .ok s ∧
    (ofImage s.image).dirlookup ROOTINO (ofList underscoreDot.name) = .ok
    (some (ROOTINO, 0), ofImage s.image) ∧
    ¬ Delivered (ofImage s.image) underscoreDot := by
  have fits : Fits [underscoreDot] := fits_singleton ⟨by decide, rfl, by decide⟩ (by decide)
  obtain ⟨s', s, run, holds, finished⟩ := fits.main_ok
  have found := finished.lookup (ofList underscoreDot.name) holds (k := 0) (by decide)
    ⟨by rw [holds.dots.1.1]; decide, by rw [holds.dots.1.2]; decide⟩ fun j before => by omega
  rw [holds.dots.1.1] at found
  refine ⟨fits, s', run, found, ?_⟩
  rintro ⟨inum, off, again, size, _⟩
  rw [found] at again
  cases again
  have root : ((ofImage s'.image).inode ROOTINO).size = (direntSize * 3 / BSIZE + 1) * BSIZE := by
    rw [finished.root, holds.size]
    rfl
  rw [root] at size
  exact absurd size (by decide)

end Xv6.Mkfs
