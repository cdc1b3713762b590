import Xv6.Content.Flat
import Xv6.Exec.Image
import Xv6.Namei.Runs

/-! `exec` until it has let go of the inode: the program is loaded into a new page table, or everything is as
it was. -/

namespace Xv6.Exec
open Function Content Namei Vm

/-- What `exec` reads of an inode that has a block for each of its bytes is what `readi` of
kernel/fs.c reads. -/
theorem readi_fileOf {v : Volume} {i n : Nat} (cons : v.Consistent) (full : v.NoHoles i)
    (dst : Bytes) (off : Nat)
    (small : n < 2 ^ 32) : ∃ dst', v.readi i dst none off n = .ok ((fileOf v i).count off n, dst', v) ∧
      ∀ x < (fileOf v i).count off n, dst' x = (fileOf v i).bytes (off + x) := by
  have size := cons.sizes i
  have capacity : MAXFILE * BSIZE < 2 ^ 32 := by decide
  by_cases guard : (v.inode i).size < off ∨ (off + n) % 2 ^ 32 < off
  · have none : (fileOf v i).count off n = 0 := if_pos guard
    rw [none]
    exact ⟨dst, if_pos guard, fun x below => absurd below (Nat.not_lt_zero x)⟩
  have sum : (off + n) % 2 ^ 32 = off + n := Nat.mod_eq_of_lt (by omega)
  obtain ⟨c, count⟩ : ∃ c, c = if (v.inode i).size < off + n then (v.inode i).size - off else n := ⟨_, rfl⟩
  have bound : off + c ≤ (v.inode i).size ∧ c ≤ n := by
    rw [sum] at guard
    split at count <;> omega
  have here : (fileOf v i).count off n = c := by
    rw [count, ← sum]
    exact if_neg guard
  have same : v.readi i dst none off n = v.readi i dst none off c := by
    have guard' : ¬((v.inode i).size < off ∨ off + c < off) := by omega
    have within : ¬(v.inode i).size < off + c := by omega
    unfold Volume.readi
    dsimp only
    rw [Nat.mod_eq_of_lt (by omega : off + c < 2 ^ 32), if_neg guard, if_neg guard', sum,
      ← count, if_neg within]
  obtain ⟨dst', run, bytes⟩ := Volume.readi_inside dst off cons bound.1 fun x _ upper =>
    (full.present (by omega : x < (v.inode i).size)).2
  rw [here, same]
  exact ⟨dst', run, bytes⟩

/-- What holds when a process calls `exec`: its page table maps the trampoline and its trapframe, and no page
of memory is twice free or in the page table. -/
structure Ready (k : Kernel) : Prop where
  tree : Tree k.fs
  sound : k.pagetable.Sound
  trampoline : ∃ perm, k.pagetable.leaf (TRAMPOLINE / PGSIZE) = some ⟨k.memory.trampoline, perm⟩
  trapframe : ∃ perm, k.pagetable.leaf (TRAPFRAME / PGSIZE) = some ⟨k.trapframe, perm⟩
  once (x) : total k.memory k.pagetable x ≤ 1

/-- Only memory and the entries of the inode table that are not in use have changed. -/
structure Kept (k k' : Kernel) : Prop where
  rest : k' = { k with memory := k'.memory, fs := k'.fs }
  files : Holds [] none k.fs k'.fs

/-- Only the contents of free pages have changed, their order in the list, and the entries of the inode table
that are not in use. -/
structure Undone (k k' : Kernel) :
    Prop extends Kept k k', Uses (· ∈ k.memory.freelist) k.memory k'.memory where
  list : k'.memory.freelist.Perm k.memory.freelist

/-- The program of inode `i` is in a new page table. -/
structure Begun (k k' : Kernel) (i : Nat) (pt : Pagetable) (sz : Nat) : Prop extends Kept k k' where
  image : Image k.memory k.trapframe k'.memory pt
  small : sz ≤ MAXVA
  magic : (fileOf k.fs.volume i).count 0 elfhdrSize = elfhdrSize ∧
    (fileOf k.fs.volume i).bytes.le 0 4 = ELF_MAGIC
  loaded : ∃ pt₀ s₀, Image k.memory k.trapframe s₀ pt₀ ∧ loadSegments (fileOf k.fs.volume i)
    ((fileOf k.fs.volume i).bytes.le 56 2) ((fileOf k.fs.volume i).bytes.le 32 8 % 2 ^ 32) pt₀ 0 s₀ = .ok
    ((true, pt, sz), k'.memory)

/-- `k` in the middle of a transaction. -/
def Kernel.inside (k : Kernel) (memory : Memory) (fs : Fs) : Kernel :=
  { k with memory, fs, outstanding := k.outstanding + 1 }

section Load

variable {k k' : Kernel} {s : Memory} {f : Fs} {ip : Namei.Slot} {i : Nat} {path : List UInt8}

theorem Ready.framed (ready : Ready k) {q : Nat} {pte : Pte} (here : k.pagetable.leaf q = some pte) :
    pte.pa ∉ k.memory.freelist ∧ 0 < k.pagetable.owned pte.pa := by
  have framed := ready.sound.framed here
  have once := ready.once pte.pa
  unfold total Pagetable.owned at once
  refine ⟨fun listed => ?_, by unfold Pagetable.owned; omega⟩
  have free := List.count_pos_iff.mpr listed
  omega

theorem Ready.spare (ready : Ready k) : Spare k.memory k.trapframe := by
  obtain ⟨_, top⟩ := ready.trampoline
  obtain ⟨_, frame⟩ := ready.trapframe
  refine ⟨List.nodup_iff_count_le_one.mpr fun x => ?_, (ready.framed top).1, (ready.framed frame).1⟩
  have once := ready.once x
  unfold total at once
  omega

theorem Kept.undone (kept : Kept k k') (uses : Uses (· ∈ k.memory.freelist) k.memory k'.memory)
    (list : k'.memory.freelist.Perm k.memory.freelist) : Undone k k' := { kept, uses with list }

/-- The inode is let go of, and with it the transaction. -/
theorem iunlockput_gives (holds : Holds [ip] (some ip) k.fs f) (present : k.fs.Present (f.inode ip).inum) :
    Gives (do fs (iunlockput ip); endOp) (k.inside s f) fun _ k' => Kept k k' ∧ k'.memory = s :=
  .seq (.part ((iunlockput_ends (E := fun _ => True) holds present).gives.mono fun _ _ ⟨left, _⟩ =>
    Gives.modify ⟨⟨rfl, left⟩, rfl⟩))

/-- The ends of `exec` that fail while it has the inode. -/
theorem bad_gives (table : Option (Pagetable × Nat)) (holds : Holds [ip] (some ip) k.fs f)
    (present : k.fs.Present (f.inode ip).inum)
    (freed : Gives (match table with | some (pt, sz) => procFreepagetable pt sz | none => pure ()) s fun _ s' =>
      Uses (· ∈ k.memory.freelist) k.memory s' ∧ s'.freelist.Perm k.memory.freelist) :
    Gives (bad table (some ip)) (k.inside s f) fun _ k' => Undone k k' := by
  unfold bad
  cases table with
  | none =>
    obtain ⟨uses, list⟩ := freed _ _ rfl
    refine (iunlockput_gives holds present).mono fun _ k' ⟨kept, same⟩ => kept.undone ?_ ?_
    · exact same ▸ uses
    · exact same ▸ list
  | some table =>
    refine .seq (.part (freed.mono fun _ s' ⟨uses, list⟩ => ?_))
    refine (iunlockput_gives (k := k) (s := s') holds present).mono fun _ k' ⟨kept, same⟩ => kept.undone ?_ ?_
    · exact same ▸ uses
    · exact same ▸ list

/-- `exec` of an inode that it has locked. -/
theorem loadFile_gives (ready : Ready k) (holds : Holds [ip] (some ip) k.fs f) (inum : (f.inode ip).inum = i)
    (present : k.fs.Present i) : Gives (loadFile ip (fileOf k.fs.volume i)) (k.inside k.memory f) fun r k' =>
      r = none ∧ Undone k k' ∨ ∃ pt sz, r = some ((fileOf k.fs.volume i).bytes.le 24 8, pt, sz) ∧
        Begun k k' i pt sz := by
  have present' : k.fs.Present (f.inode ip).inum := inum.symm ▸ present
  have short : (fileOf k.fs.volume i).size < 2 ^ 32 :=
    Nat.lt_of_le_of_lt (ready.tree.cons.sizes i) (by decide : MAXFILE * BSIZE < 2 ^ 32)
  have failed (s : Memory) (table : Option (Pagetable × Nat))
      (freed : Gives (match table with | some (pt, sz) => procFreepagetable pt sz | none => pure ()) s fun _ s' =>
        Uses (· ∈ k.memory.freelist) k.memory s' ∧ s'.freelist.Perm k.memory.freelist) :
      Gives (bad table (some ip) >>= fun _ => pure none) (k.inside s f) fun
        (r : Option (Nat × Pagetable × Nat)) k' =>
        r = none ∧ Undone k k' ∨ ∃ pt sz, r = some ((fileOf k.fs.volume i).bytes.le 24 8, pt, sz) ∧
          Begun k k' i pt sz :=
    (bad_gives table holds present' freed).bind fun _ k' undone => Gives.pure (.inl ⟨rfl, undone⟩)
  have same : Gives (pure () : VmM Unit) k.memory fun _ s' =>
      Uses (· ∈ k.memory.freelist) k.memory s' ∧ s'.freelist.Perm k.memory.freelist :=
    Gives.pure ⟨.refl fun _ => id, .refl _⟩
  unfold loadFile
  refine Gives.ite (fun _ => failed _ none same) fun header => Gives.ite
    (fun _ => failed _ none same) fun magic => ?_
  refine Gives.bind_run (rfl : (get : ExecM Kernel) (k.inside k.memory f) =
    .ok (k.inside k.memory f, k.inside k.memory f)) ?_
  refine .seq (.part ((procPagetable_image _).mono fun r s₁ made => ?_))
  obtain ⟨rfl, uses, list⟩ | ⟨pt₀, rfl, image₀⟩ := made
  · exact failed s₁ none (Gives.pure ⟨uses, list⟩)
  refine .seq (.part ?_)
  intro result s₂ run
  obtain ⟨grown, small⟩ := loadSegments_gives _ _ (image₀.once ready.spare) (Nat.zero_le _) image₀.free
    short result s₂ run
  obtain ⟨ok, pt, sz⟩ := result
  have image := image₀.grown grown
  refine Gives.ite (fun _ => failed s₂ (some (pt, sz)) (image.freed sz)) fun fine => ?_
  obtain rfl : ok = true := by simpa using fine
  rw [← bind_assoc]
  refine (iunlockput_gives holds present').bind fun _ k' ⟨kept, memory⟩ => Gives.pure (.inr ⟨pt, sz, rfl, ?_⟩)
  subst memory
  exact { kept with
    image
    small
    magic := ⟨not_not.mp header, not_not.mp magic⟩
    loaded := ⟨pt₀, s₁, image₀, run⟩ }

/-- `exec` as far as the program has been loaded. -/
theorem loadProgram_gives (ready : Ready k) (nonzero : ∀ b ∈ path, b ≠ 0) :
    Gives (loadProgram path) k fun r k' =>
    r = none ∧ Undone k k' ∨ ∃ i pt sz, follow k.fs.volume (k.fs.start path) (components path) = some i ∧
      r = some ((fileOf k.fs.volume i).bytes.le 24 8, pt, sz) ∧ Begun k k' i pt sz := by
  unfold loadProgram
  refine .seq (Gives.modify (.seq (.part ((namei_ends (E := fun _ => True) ready.tree path nonzero trivial).gives.mono
    fun r f ⟨holds, found⟩ => ?_))))
  cases r with
  | none =>
    refine .seq (Gives.modify (Gives.pure (.inl ⟨rfl, ?_⟩)))
    exact Kept.undone ⟨rfl, holds⟩ (.refl fun _ => id) (.refl _)
  | some ip =>
    obtain ⟨i, there, inum⟩ : ∃ i, follow k.fs.volume (k.fs.start path) (components path) = some i ∧
      (f.inode ip).inum = i :=
      ⟨_, found.symm, rfl⟩
    have present := ready.tree.follow_present (ready.tree.start_present path) there
    have holds : Holds [ip] none k.fs f := holds
    have used : 0 < (f.inode ip).ref := by
      rw [holds.ref, List.count_singleton_self]
      omega
    refine .seq (.part ((ilock_ends (E := fun _ => True) holds used ?_).gives.mono fun _ f₁ ⟨locked, same⟩ => ?_))
    · rw [holds.volume, inum]
      exact present.1
    · refine Gives.bind_run (rfl : (get : ExecM Kernel) (k.inside k.memory f₁) =
        .ok (k.inside k.memory f₁, k.inside k.memory f₁)) ?_
      have inum₁ : (f₁.inode ip).inum = i := (same ip).trans inum
      show Gives (loadFile ip (fileOf f₁.volume (f₁.inode ip).inum)) (k.inside k.memory f₁) _
      rw [inum₁, locked.volume]
      refine (loadFile_gives ready locked inum₁ present).mono fun r k' way => way.imp_right ?_
      rintro ⟨pt, sz, rfl, begun⟩
      exact ⟨i, pt, sz, there, rfl, begun⟩

end Load

end Xv6.Exec
