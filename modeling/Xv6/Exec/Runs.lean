import Xv6.Exec.Commit

/-! What `exec` makes of an ELF file and of the arguments. -/

namespace Xv6.Exec
open Function Content Namei Vm

/-- The fields of `struct elfhdr` that `exec` reads. -/
def elfEntry (file : Vm.File) : Nat := file.bytes.le 24 8
def elfPhoff (file : Vm.File) : Nat := file.bytes.le 32 8
def elfPhnum (file : Vm.File) : Nat := file.bytes.le 56 2

/-- The process is to run the program of an ELF file, which has all its program headers: each segment is in
memory as the file has it, with its permissions. -/
structure Obeys (file : Vm.File) (k : Kernel) : Prop where
  entry : k.register epc = elfEntry file
  headers : 0 < elfPhnum file → elfPhoff file + proghdrSize * elfPhnum file ≤ file.size
  segments : ∀ j < elfPhnum file, phType (phdr file (elfPhoff file) j) = ELF_PROG_LOAD →
    Loaded file (phdr file (elfPhoff file) j) k.pagetable k.memory

/-- Where the program headers are, and where the bytes of the segments are and how many, are numbers of 32
bits. -/
structure Fits (file : Vm.File) : Prop where
  phoff : 0 < elfPhnum file → elfPhoff file < 2 ^ 32
  segments : ∀ j < elfPhnum file, phType (phdr file (elfPhoff file) j) = ELF_PROG_LOAD →
    phFilesz (phdr file (elfPhoff file) j) < 2 ^ 32 ∧
      (0 < phFilesz (phdr file (elfPhoff file) j) → phOff (phdr file (elfPhoff file) j) < 2 ^ 32)

section Runs

variable {k k' : Kernel} {s : Memory} {f : Fs} {pt : Pagetable} {i sz entry : Nat} {r : Int}
  {path : List UInt8}
  {argv : List (List UInt8)}

/-- The file that the program is in is the one that the path leads to. -/
theorem exec_gives (ready : Ready k) (nonzero : ∀ b ∈ path, b ≠ 0) : Gives (exec path argv) k fun r k' =>
    r = -1 ∧ Undone k k' ∨ r = argv.length ∧ ∃ i k₁ pt sz s pt' stack,
      follow k.fs.volume (k.fs.start path) (components path) = some i ∧ Begun k k₁ i pt sz ∧
      Stacked k k₁.memory pt sz argv s pt' stack ∧ k'.fs = k₁.fs ∧
      Committed k s pt' (PGROUNDUP sz + 2 * PGSIZE) (elfEntry (fileOf k.fs.volume i)) stack k' := by
  unfold exec execWith
  refine (loadProgram_gives ready nonzero).bind fun r k₁ way => ?_
  obtain ⟨rfl, undone⟩ | ⟨i, pt, sz, found, rfl, begun⟩ := way
  · exact Gives.pure (.inl ⟨rfl, undone⟩)
  · dsimp only
    rw [begun.rest]
    refine (pushStack_gives ready begun.image begun.files begun.small (Bytes.le_lt _ 24 8)).mono
      fun r k' way => way.imp_right ?_
    rintro ⟨result, files, s, pt', stack, stacked, committed⟩
    exact ⟨result, i, k₁, pt, sz, s, pt', stack, found, begun, stacked, files, committed⟩

theorem pushStack_checked (image : Image k.memory k.trapframe s pt) (small : sz ≤ MAXVA)
    (few : argv.length < MAXARG)
    (short : ∀ arg ∈ argv, arg.length < PGSIZE) (spare : Spare k.memory k.trapframe) :
    pushStack pushArgsChecked path argv entry pt sz { k with memory := s, fs := f } =
      pushStack pushArgs path argv entry pt sz { k with memory := s, fs := f } := by
  obtain ⟨size, -, -, guard, base, fits⟩ := stack_sizes small
  unfold pushStack
  dsimp only
  rw [size]
  refine Gives.bind_congr (Q := fun r _ => r.1 ≠ 0 → r.1 = PGROUNDUP sz + 2 * PGSIZE)
    (.part ((stack_pages image spare small).mono fun r s₁ ⟨_, added⟩ some => (added some).1))
    fun r k₁ some => ?_
  split
  · rfl
  next fine =>
    have same (pt : Pagetable) : pushArgsChecked pt (PGROUNDUP sz + PGSIZE) argv
      (PGROUNDUP sz + 2 * PGSIZE) [] =
        pushArgs pt (PGROUNDUP sz + PGSIZE) argv (PGROUNDUP sz + 2 * PGSIZE) [] :=
      pushArgsChecked_eq argv _ [] (by simpa using few) short (Nat.le_add_left ..) (by omega)
    rw [some fine, base]
    simp only [same]

/-- If `exec` returns with fewer than `MAXARG` strings, each shorter than a page, it gives -1 or their number,
and then they are on the stack page above the guard page, all apart, with the addresses of the strings below
them. It never stores past the end of `ustack` or takes more from the stack pointer than it has. -/
theorem exec_arguments (ready : Ready k) (nonzero : ∀ b ∈ path, b ≠ 0) (few : argv.length < MAXARG)
    (short : ∀ arg ∈ argv, arg.length < PGSIZE) :
    execWith pushArgsChecked path argv k = exec path argv k ∧ ∀ r k', exec path argv k = .ok (r, k') →
      r = -1 ∨ r = argv.length ∧ k'.register a1 = k'.register sp ∧
        ∃ base ps pa pa', k'.sz = base + 2 * PGSIZE ∧ base % PGSIZE = 0 ∧
          k'.pagetable.leaf (base / PGSIZE) = some ⟨pa, ⟨true, true, false, false⟩⟩ ∧
          k'.pagetable.leaf (base / PGSIZE + 1) = some ⟨pa', ⟨true, true, false, true⟩⟩ ∧
          Arguments k'.pagetable k'.memory (base + PGSIZE) (base + 2 * PGSIZE) argv ps ps
          (k'.register sp) := by
  constructor
  · unfold exec execWith
    refine Gives.bind_congr (loadProgram_gives ready nonzero) fun r k₁ way => ?_
    obtain ⟨rfl, undone⟩ | ⟨i, pt, sz, found, rfl, begun⟩ := way
    · rfl
    · dsimp only
      rw [begun.rest]
      exact pushStack_checked begun.image begun.small few short ready.spare
  · intro r k' run
    obtain ⟨failed, -⟩ | ⟨result, i, k₁, pt, sz, s, pt', stack, -, -, stacked, -,
      committed⟩ := exec_gives ready nonzero r k' run
    · exact .inl failed
    obtain ⟨ps, args⟩ := stacked.arguments few short
    obtain ⟨pa, guard⟩ := stacked.guard
    obtain ⟨pa', page⟩ := stacked.page
    have pagetable : k'.pagetable = pt' := by rw [committed.rest]
    have size : k'.sz = PGROUNDUP sz + 2 * PGSIZE := by rw [committed.rest]
    refine .inr ⟨result, committed.a1.trans committed.sp.symm, PGROUNDUP sz, ps, pa, pa', size,
      PGROUNDUP_aligned sz, ?_⟩
    rw [pagetable, committed.sp]
    exact ⟨guard, page, args.congr committed.user⟩

/-- A program that `exec` loads, with its segments in ascending order, is as the ELF file says exactly if the
numbers that the code cuts to 32 bits fit. -/
theorem exec_obeys_iff (ready : Ready k) (nonzero : ∀ b ∈ path, b ≠ 0)
    (found : follow k.fs.volume (k.fs.start path) (components path) = some i)
    (ascending : Ascending (fileOf k.fs.volume i) (elfPhoff (fileOf k.fs.volume i))
      (elfPhnum (fileOf k.fs.volume i)))
    (run : exec path argv k = .ok (r, k')) (success : r ≠ -1) :
    Obeys (fileOf k.fs.volume i) k' ↔ Fits (fileOf k.fs.volume i) := by
  obtain ⟨failed, -⟩ | ⟨-, i', k₁, pt, sz, s, pt', stack, found', begun, stacked, -,
    committed⟩ := exec_gives ready nonzero r k' run
  · exact absurd failed success
  obtain rfl := Option.some.inj (found.symm.trans found')
  generalize hfile : fileOf k.fs.volume i = file at *
  have short : file.size < 2 ^ 32 :=
    hfile ▸ Nat.lt_of_le_of_lt (ready.tree.cons.sizes i) (by decide : MAXFILE * BSIZE < 2 ^ 32)
  constructor
  · intro obeys
    refine ⟨fun some => ?_, fun j below load => ?_⟩
    · have inside := obeys.headers some
      omega
    · have bytes := (obeys.segments j below load).bytes
      refine ⟨?_, fun some => ?_⟩
      · by_contra long
        have last := (bytes (2 ^ 32 - 1) (by omega)).1
        omega
      · have first := (bytes 0 some).1
        omega
  · intro fits
    obtain ⟨pt₀, s₀, image₀, loaded⟩ := begun.loaded
    rw [hfile] at loaded
    have phoff : loadSegments file (file.bytes.le 56 2) (file.bytes.le 32 8 % 2 ^ 32) pt₀ 0 s₀ =
        loadSegments file (elfPhnum file) (elfPhoff file) pt₀ 0 s₀ := by
      by_cases some : 0 < elfPhnum file
      · rw [show file.bytes.le 32 8 % 2 ^ 32 = elfPhoff file from Nat.mod_eq_of_lt (fits.phoff some)]
        rfl
      · have none : elfPhnum file = 0 := by omega
        rw [show file.bytes.le 56 2 = 0 from none, none, loadSegments, loadSegments]
    rw [phoff] at loaded
    obtain ⟨-, done⟩ := loadSegments_loads _ _ (image₀.once ready.spare) (Nat.zero_le _) image₀.free
      short fits.phoff ascending
      (fun _ _ _ => Nat.zero_le _) fits.segments _ _ loaded
    obtain ⟨inside, segments, ⟨-, sizes⟩, -⟩ := done rfl
    have pagetable : k'.pagetable = pt' := by rw [committed.rest]
    refine ⟨committed.epc, inside, fun j below load => ?_⟩
    have segment := segments j below load
    obtain ⟨fewer, upper⟩ := sizes j below load
    dsimp only at upper
    have round : sz ≤ PGROUNDUP sz := by
      have small := begun.small
      unfold PGROUNDUP MAXVA PGSIZE at *
      omega
    refine ⟨fun x less => ?_, fun va low high => ?_⟩
    · obtain ⟨within, byte⟩ := segment.bytes x less
      refine ⟨within, ?_⟩
      obtain ⟨pa, here⟩ := segment.pages (phVaddr (phdr file (elfPhoff file) j) + x) (by omega) (by omega)
      rw [pagetable, committed.user, stacked.user (by omega) (here ▸ Option.some_ne_none _)]
      exact byte
    · obtain ⟨pa, here⟩ := segment.pages va low high
      exact ⟨pa, pagetable ▸ stacked.kept here⟩

end Runs

/-- Memory that is zero but for some fields: where each is, its size and its value. -/
def fields (l : List (Nat × Nat × Nat)) : Bytes :=
  l.foldl (fun m field => m.store field.1 field.2.1 field.2.2) fun _ => 0

/-- An ELF file with one segment, of the byte at an offset, at address 0. -/
def elfBytes (off : Nat) : Bytes :=
  fields [(0, 4, ELF_MAGIC), (32, 8, 64), (56, 2, 1), (64, 4, ELF_PROG_LOAD), (68, 4, 5), (72, 8, off),
    (96, 8, 1), (104, 8, 1)]

/-- A root with an entry "a" for inode 2, which is the ELF file. -/
def elfVolume (off : Nat) : Volume where
  size := 2000
  used b := b < 48
  block b :=
    if b = 46 then (dirent 1 dot).splice 16 32 ((dirent 1 dotdot).splice 16 16
      (dirent 2 fun x => if x = 0 then 97 else 0))
    else if b = 47 then elfBytes off
    else fun _ => 0
  inode i :=
    if i = 1 then ⟨T_DIR, 1, 48, fun k => if k = 0 then 46 else 0⟩
    else if i = 2 then ⟨T_FILE, 1, 120, fun k => if k = 0 then 47 else 0⟩
    else ⟨0, 0, 0, fun _ => 0⟩
  ballocs := 0
  logWrites := 0

/-- A process in the root directory. -/
def elfFs (off : Nat) : Fs := ⟨elfVolume off, fun b => ⟨1, if b.val = 0 then 1 else 0, true, false⟩,
      ⟨0, NINODE_pos⟩⟩

theorem elfFs_tree (off : Nat) : Tree (elfFs off) := by
  have slots (i l : Nat) (place : (elfVolume off).slot i l ≠ 0) :
      i = 1 ∧ l = 0 ∧ (elfVolume off).slot i l = 46 ∨ i = 2 ∧ l = 0 ∧ (elfVolume off).slot i l = 47 := by
    by_cases root : i = 1
    · by_cases first : l = 0
      · exact .inl ⟨root, first, by rw [root, first]; rfl⟩
      · exact absurd (by simp [Volume.slot, elfVolume, root, first, NDIRECT]) place
    by_cases file : i = 2
    · by_cases first : l = 0
      · exact .inr ⟨file, first, by rw [file, first]; rfl⟩
      · exact absurd (by simp [Volume.slot, elfVolume, file, first, NDIRECT]) place
    · exact absurd (by simp [Volume.slot, elfVolume, root, file]) place
  have root {d : Nat} (dir : ((elfVolume off).inode d).type = T_DIR) : d = 1 := by
    by_contra other
    simp only [elfVolume, if_neg other] at dir
    split at dir <;> cases dir
  have present {i : Nat} (one : i = 1 ∨ i = 2) : (elfFs off).Present i := by
    rcases one with rfl | rfl <;> simp [Fs.Present, elfFs, elfVolume, T_DIR, T_FILE]
  have entries {k : Nat} (below : k < 3) : (elfVolume off).inum 1 k = 1 ∨ (elfVolume off).inum 1 k = 2 := by
    obtain rfl | rfl | rfl : k = 0 ∨ k = 1 ∨ k = 2 := by omega
    · exact .inl rfl
    · exact .inl rfl
    · exact .inr rfl
  exact {
    cons := by
      refine ⟨fun i l j m _ _ (same : (elfVolume off).slot i l = (elfVolume off).slot j m) place => ?_,
      fun i l _ place => ?_,
        (by decide : 2000 ≤ 2 ^ 32), fun i => ?_⟩
      · obtain ⟨rfl, rfl, here⟩ | ⟨rfl, rfl, here⟩ := slots i l place
        · obtain ⟨rfl, rfl, -⟩ | ⟨rfl, rfl, there⟩ := slots j m (same ▸ place)
          · exact ⟨rfl, rfl⟩
          · rw [here, there] at same
            cases same
        · obtain ⟨rfl, rfl, there⟩ | ⟨rfl, rfl, -⟩ := slots j m (same ▸ place)
          · rw [here, there] at same
            cases same
          · exact ⟨rfl, rfl⟩
      · rcases slots i l place with ⟨-, -, here⟩ | ⟨-, -, here⟩
        · rw [show (elfFs off).volume.slot i l = 46 from here]
          rfl
        · rw [show (elfFs off).volume.slot i l = 47 from here]
          rfl
      · by_cases root : i = 1
        · simp [elfFs, elfVolume, root, MAXFILE, NDIRECT, NINDIRECT, BSIZE]
        · by_cases file : i = 2 <;> simp [elfFs, elfVolume, root, file, MAXFILE, NDIRECT, NINDIRECT, BSIZE]
    full := fun dir bn inside => by
      obtain rfl := root dir
      have first : bn = 0 := by
        have size : ((elfFs off).volume.inode 1).size = 48 := rfl
        rw [size] at inside
        unfold BSIZE at inside
        omega
      rw [first]
      exact ⟨by decide, (by decide : (elfVolume 0).slot 1 (dataSlot 0) ≠ 0)⟩
    aligned := fun dir => by
      obtain rfl := root dir
      exact (by decide : ((elfVolume 0).inode 1).size % direntSize = 0)
    entries := fun dir below _ => by
      obtain rfl := root dir
      exact present (entries (Nat.lt_of_lt_of_eq below (by decide : 48 / 16 = 3)))
    root := present (.inl rfl)
    cwd := ⟨Nat.one_pos, present (.inl rfl)⟩
    unlocked := fun _ => rfl
    unique := fun b c used used' _ => by
      have first {b : Namei.Slot} (used : 0 < ((elfFs off).inode b).ref) : b.val = 0 := by
        by_contra other
        rw [show ((elfFs off).inode b).ref = 0 from if_neg other] at used
        cases used
      exact Fin.ext ((first used).trans (first used').symm) }

/-- Memory with 18 free pages. The fourth has what will be a path at address 8 and the arguments at address
16, and the trapframe these addresses. -/
def fresh : Memory where
  kernelEnd := 0x80022000
  trampoline := 0x80007000
  mem pa :=
    if pa = 0x87F00000 then fields [(a0, 8, 8), (a1, 8, 16)]
    else if pa = 0x87F13000 then fields [(8, 1, 97), (16, 8, 8)]
    else fun _ => 0
  freelist := (List.range 18).map fun i => 0x87F10000 + 4096 * i
  written _ _ := false

/-- A page table with one page. -/
def setUp : VmM Pagetable := do
  match ← procPagetable ⟨emptyTable 0, 0, 0x87F00000⟩ with
  | none => throw "no memory"
  | some pt => do
    let (_, pt) ← uvmalloc pt 0 4096 true false
    return pt

def started : Pagetable × Memory :=
  match setUp fresh with
  | .ok r => r
  | .error _ => (emptyTable 0, fresh)

/-- A process with one page, which is to run the ELF file. -/
def process (off : Nat) : Kernel where
  memory := started.2
  fs := elfFs off
  outstanding := 0
  pagetable := started.1
  sz := 4096
  trapframe := 0x87F00000
  name := fun _ => 0
  ofile := fun _ => none

/-- How `process` is set up, runs, and the one program header of what it runs. -/
theorem process_values : (setUp fresh).toOption.isSome ∧ ∀ off ∈ [0, 2 ^ 32],
    (exec [97] [[97]] (process off)).toOption.map Prod.fst = some 1 ∧
      follow (process off).fs.volume ((process off).fs.start [97]) (components [97]) = some 2 ∧
      elfPhnum (fileOf (process off).fs.volume 2) = 1 := by
  decide +kernel

theorem fresh_spare : Spare fresh 0x87F00000 := ⟨by decide, by decide, by decide⟩

theorem started_image : Image fresh 0x87F00000 started.2 started.1 := by
  have gives : Gives setUp fresh fun pt s => Image fresh 0x87F00000 s pt := by
    refine (procPagetable_image _).bind fun r s way => ?_
    obtain ⟨rfl, -⟩ | ⟨pt, rfl, image⟩ := way
    · exact Gives.throw _
    · exact (uvmalloc_grown pt 0 4096 true false (Nat.zero_le _) image.free).bind fun r s' ⟨grown, _⟩ =>
        Gives.pure (image.grown grown)
  have ends := process_values.1
  unfold started
  cases run : setUp fresh with
  | error e =>
    rw [run] at ends
    cases ends
  | ok r => exact gives r.1 r.2 run

theorem process_ready (off : Nat) : Ready (process off) := by
  have image := started_image
  refine ⟨elfFs_tree off, image.sound, ⟨⟨true, false, true, false⟩, ?_⟩,
    ⟨⟨true, true, false, false⟩, image.frame⟩, fun x => ?_⟩
  · show started.1.leaf _ = some ⟨started.2.trampoline, _⟩
    rw [image.trampoline]
    exact image.top
  · show total started.2 started.1 x ≤ 1
    rw [image.balance]
    by_cases listed : x ∈ fresh.freelist
    · have once := List.nodup_iff_count_le_one.mp fresh_spare.nodup x
      have other : fresh.trampoline ≠ x := fun same => fresh_spare.trampoline (same ▸ listed)
      have other' : 0x87F00000 ≠ x := fun same => fresh_spare.trapframe (same ▸ listed)
      rw [if_neg other, if_neg other']
      exact once
    · rw [List.count_eq_zero.mpr listed]
      by_cases top : fresh.trampoline = x
      · have other : 0x87F00000 ≠ x := fun same => absurd (top.trans same.symm) (by decide)
        rw [if_pos top, if_neg other]
      · rw [if_neg top]
        split <;> decide

/-- The program "a" is run with the argument "a". -/
theorem process_runs (off : Nat) (one : off = 0 ∨ off = 2 ^ 32) :
    ∃ k', exec [97] [[97]] (process off) = .ok (1, k') :=
  Gives.run_of_result (process_values.2 off (List.mem_pair.mpr one)).1

theorem exec_arguments_a : ∃ k' p, exec [97] [[97]] (process 0) = .ok (1, k') ∧
    k'.pagetable.user k'.memory p = some 97 ∧
    k'.pagetable.user k'.memory (p + 1) = some 0 := by
  obtain ⟨k', run⟩ := process_runs 0 (.inl rfl)
  have nonzero : ∀ b ∈ ([97] : List UInt8), b ≠ 0 := by decide +kernel
  have short : ∀ arg ∈ ([[97]] : List (List UInt8)), arg.length < PGSIZE := by decide
  obtain ⟨-, all⟩ := exec_arguments (process_ready 0) nonzero (by decide) short
  obtain failed | ⟨-, -, base, ps, pa, pa', -, -, -, -, args⟩ := all 1 k' run
  · omega
  · exact ⟨k', ps.getD 0 0, run, args.string 0 (by decide) 0 (by decide),
      args.string 0 (by decide) 1 (by decide)⟩

/-- What `process` runs has one program header. -/
theorem elf_headers (off : Nat) (one : off = 0 ∨ off = 2 ^ 32) :
    follow (process off).fs.volume ((process off).fs.start [97]) (components [97]) = some 2 ∧
      elfPhnum (fileOf (process off).fs.volume 2) = 1 :=
  (process_values.2 off (List.mem_pair.mpr one)).2

theorem one_ascending {file : Vm.File} {off : Nat} (one : elfPhnum file = 1) :
    Ascending file off (elfPhnum file) := by
  intro i j order below
  omega

theorem exec_obeys_iff_zero : ∃ k', exec [97] [[97]] (process 0) = .ok (1, k') ∧
    Obeys (fileOf (process 0).fs.volume 2) k' := by
  obtain ⟨k', run⟩ := process_runs 0 (.inl rfl)
  obtain ⟨found, one⟩ := elf_headers 0 (.inl rfl)
  refine ⟨k', run, (exec_obeys_iff (process_ready 0) (by decide +kernel) found (one_ascending one)
    run (by decide)).mpr
    ⟨fun _ => by decide +kernel, fun j below _ => ?_⟩⟩
  obtain rfl : j = 0 := by omega
  exact (by decide +kernel)

/-- The bytes of a segment at 2^32 are taken from the start of the file. -/
theorem exec_cuts : Ready (process (2 ^ 32)) ∧
    follow (process (2 ^ 32)).fs.volume ((process (2 ^ 32)).fs.start [97]) (components [97]) = some 2 ∧
    Ascending (fileOf (process (2 ^ 32)).fs.volume 2) (elfPhoff (fileOf (process (2 ^ 32)).fs.volume 2))
      (elfPhnum (fileOf (process (2 ^ 32)).fs.volume 2)) ∧
    ∃ k', exec [97] [[97]] (process (2 ^ 32)) = .ok (1, k') ∧
    ¬Obeys (fileOf (process (2 ^ 32)).fs.volume 2) k' := by
  obtain ⟨k', run⟩ := process_runs (2 ^ 32) (.inr rfl)
  obtain ⟨found, one⟩ := elf_headers (2 ^ 32) (.inr rfl)
  refine ⟨process_ready _, found, one_ascending one, k', run, fun obeys => ?_⟩
  have first := ((obeys.segments 0 (by omega) (by decide +kernel)).bytes 0 (by decide +kernel)).1
  exact absurd first (by decide +kernel)

end Xv6.Exec
