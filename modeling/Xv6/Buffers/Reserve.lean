import Mathlib.Data.List.Dedup
import Mathlib.Data.List.Perm.Subperm
import Xv6.Buffers.Machine

namespace Xv6.Buffers
open Function Content
open Vm (Pagetable Memory copyin_spec)
open Mkfs (BPB)

namespace FsState

/-- The address of the `n`th block of an inode, 0 if there is none. -/
def slot (s : FsState) (i bn : Nat) : Nat :=
  if bn < NDIRECT then (s.inode i).addrs bn
  else if (s.inode i).addrs NDIRECT = 0 then 0
  else (s.view ((s.inode i).addrs NDIRECT)).le (4 * (bn - NDIRECT)) 4

/-- No block below the size is missing. -/
def NoHoles (s : FsState) (i : Nat) : Prop := ∀ bn < MAXFILE, bn * BSIZE < (s.inode i).size → s.slot i bn ≠ 0

section Blocks

variable {s s' : FsState} {i b bn k addr : Nat} {ks : List Nat}

@[simp] theorem bread_view (s : FsState) (b : Nat) : (s.bread b).2.view = s.view := by
  funext c
  by_cases same : c = b
  · subst same
    simp [view, bread]
  · simp [view, bread, update_of_ne same]

@[simp] theorem setInode_view (s : FsState) (i : Nat) (ip : Inode) : (s.setInode i ip).view = s.view := rfl

@[simp] theorem logWrite_view (s : FsState) (b : Nat) : (s.logWrite b).view = s.view := rfl

@[simp] theorem setData_view (s : FsState) (b : Nat) (data : Bytes) :
    (s.setData b data).view = update s.view b data := by
  funext c
  by_cases same : c = b
  · subst same
    simp [view, setData]
  · simp [view, setData, update_of_ne same]

/-- The blocks that `balloc` passes to `log_write`: a bitmap block and the block it has found, or none. -/
theorem ballocFrom_written (ks : List Nat) (s : FsState) : (ballocFrom ks s).2.inode = s.inode ∧
    (ballocFrom ks s).2.sb = s.sb ∧
    ((ballocFrom ks s).2.written = s.written ∧ (ballocFrom ks s).1 = 0 ∨
      ∃ bitmap, (ballocFrom ks s).2.written = (ballocFrom ks s).1 :: bitmap :: s.written) := by
  induction ks generalizing s with
  | nil => exact ⟨rfl, rfl, .inl ⟨rfl, rfl⟩⟩
  | cons k rest ih =>
    rw [ballocFrom]
    dsimp only
    cases (s.bread (BBLOCK s.sb (k * BPB))).2.freeBit (k * BPB) (s.bread (BBLOCK s.sb (k * BPB))).1 with
    | some bi => exact ⟨rfl, rfl, .inr ⟨_, rfl⟩⟩
    | none => exact ih _

theorem balloc_written (s : FsState) : s.balloc.2.inode = s.inode ∧ s.balloc.2.sb = s.sb ∧
    (s.balloc.2.written = s.written ∧ s.balloc.1 = 0 ∨
      ∃ bitmap, s.balloc.2.written = s.balloc.1 :: bitmap :: s.written) := ballocFrom_written ..

/-- The blocks passed to `log_write` so far are among `d` data blocks, `a` bitmap blocks, one more if there is
an indirect block, and this one. -/
def Covered (i d a : Nat) (s : FsState) : Prop := ∃ ds bs : List Nat, ds.length ≤ d ∧
  bs.length + (if (s.inode i).addrs NDIRECT = 0 then 1 else 0) ≤ a + 1 ∧
  ∀ b ∈ s.written, b ∈ ds ∨ b ∈ bs ∨ b = (s.inode i).addrs NDIRECT ∧ b ≠ 0

theorem Covered.start (fresh : s.written = []) : Covered i 0 0 s :=
  ⟨[], [], Nat.le_refl 0, by rw [List.length_nil]; split <;> omega,
    fun b member => absurd (fresh ▸ member) List.not_mem_nil⟩

theorem Covered.weaken {d d' a a' : Nat} (covered : Covered i d a s) (more : d ≤ d') (more' : a ≤ a') :
    Covered i d' a' s := by
  obtain ⟨ds, bs, data, bitmap, cover⟩ := covered
  exact ⟨ds, bs, by omega, by omega, cover⟩

theorem Covered.unlogged {d a : Nat} (covered : Covered i d a (s.logWrite b)) : Covered i d a s := by
  obtain ⟨ds, bs, data, bitmap, cover⟩ := covered
  exact ⟨ds, bs, data, bitmap, fun c member => cover c (List.mem_cons_of_mem b member)⟩

/-- A block that was there. -/
theorem Covered.present {d a : Nat} (covered : Covered i d a s) (addr : Nat) :
    Covered i (d + 1) a (s.logWrite addr) := by
  obtain ⟨ds, bs, data, bitmap, cover⟩ := covered
  refine ⟨addr :: ds, bs, by rw [List.length_cons]; omega, bitmap, fun c member => ?_⟩
  rcases List.mem_cons.mp member with rfl | old
  · exact .inl (List.mem_cons_self ..)
  · exact (cover c old).imp_left (List.mem_cons_of_mem addr)

theorem Covered.congr {d a : Nat} (covered : Covered i d a s) (written : s'.written = s.written)
    (indirect : (s'.inode i).addrs NDIRECT = (s.inode i).addrs NDIRECT) : Covered i d a s' := by
  obtain ⟨ds, bs, data, bitmap, cover⟩ := covered
  refine ⟨ds, bs, data, by rw [indirect]; exact bitmap, fun c member => ?_⟩
  rw [written] at member
  rw [indirect]
  exact cover c member

/-- A block that `balloc` has found, or not found, for data. -/
theorem Covered.balloc {d a : Nat} (covered : Covered i d a s) (written : s'.written = s.balloc.2.written)
    (indirect : (s'.inode i).addrs NDIRECT = (s.inode i).addrs NDIRECT) :
    Covered i (d + 1) (a + 1) (s'.logWrite s.balloc.1) := by
  obtain ⟨-, -, none | ⟨bm, found⟩⟩ := balloc_written s
  · have same : Covered i d a s' := covered.congr (written.trans none.1) indirect
    exact (same.present s.balloc.1).weaken (Nat.le_refl _) (Nat.le_succ a)
  · obtain ⟨ds, bs, data, bitmap, cover⟩ := covered
    refine ⟨s.balloc.1 :: ds, bm :: bs, Nat.succ_le_succ data, ?_, fun c member => ?_⟩
    · show (bm :: bs).length + (if (s'.inode i).addrs NDIRECT = 0 then 1 else 0) ≤ a + 1 + 1
      rw [indirect, List.length_cons]
      omega
    · show c ∈ s.balloc.1 :: ds ∨ c ∈ bm :: bs ∨ c = (s'.inode i).addrs NDIRECT ∧ c ≠ 0
      have member : c ∈ s.balloc.1 :: s'.written := member
      rw [written, found, List.mem_cons, List.mem_cons, List.mem_cons] at member
      rw [indirect, List.mem_cons, List.mem_cons]
      rcases member with first | first | same | old
      · exact .inl (.inl first)
      · exact .inl (.inl first)
      · exact .inr (.inl (.inl same))
      · exact (cover c old).imp .inr (.imp_left .inr)

theorem loadAddr_covered {d a : Nat} (covered : Covered i d a s) (data : k ≠ NDIRECT) :
    Covered i (d + 1) (a + 1) ((s.loadAddr i k).2.logWrite (s.loadAddr i k).1) := by
  have inode := (balloc_written s).1
  unfold loadAddr
  split
  · dsimp only
    split
    next zero =>
      have allocated := covered.balloc rfl (congrArg (fun ip : Nat → Inode => (ip i).addrs NDIRECT) inode)
      rw [zero] at allocated
      exact allocated
    next =>
      refine covered.balloc rfl ?_
      simp [setAddr, setInode, update_of_ne data.symm, inode]
  · exact (covered.present _).weaken (Nat.le_refl _) (Nat.le_succ a)

/-- The indirect block, which is covered from then on. -/
theorem loadAddr_indirect {d a : Nat} (covered : Covered i d a s) :
    (s.loadAddr i NDIRECT).1 = 0 ∧ Covered i (d + 1) (a + 1) ((s.loadAddr i NDIRECT).2.logWrite 0) ∨
      (s.loadAddr i NDIRECT).1 ≠ 0 ∧ Covered i d a (s.loadAddr i NDIRECT).2 ∧
        ((s.loadAddr i NDIRECT).2.inode i).addrs NDIRECT = (s.loadAddr i NDIRECT).1 := by
  have inode := (balloc_written s).1
  unfold loadAddr
  split
  next absent =>
    dsimp only
    split
    next zero =>
      have allocated := covered.balloc rfl (congrArg (fun ip : Nat → Inode => (ip i).addrs NDIRECT) inode)
      rw [zero] at allocated
      exact .inl ⟨rfl, allocated⟩
    next some =>
      have here : ((s.balloc.2.setAddr i NDIRECT s.balloc.1).inode i).addrs NDIRECT = s.balloc.1 := by
        simp [setAddr, setInode]
      refine .inr ⟨some, ?_, here⟩
      obtain ⟨-, -, none | ⟨bm, found⟩⟩ := balloc_written s
      · exact absurd none.2 some
      obtain ⟨ds, bs, data, bitmap, cover⟩ := covered
      refine ⟨ds, bm :: bs, data, ?_, fun c member => ?_⟩
      · rw [here, if_neg some, List.length_cons]
        rw [if_pos absent] at bitmap
        omega
      · have member : c ∈ s.balloc.2.written := member
        rw [found, List.mem_cons, List.mem_cons] at member
        rw [here, List.mem_cons]
        rcases member with same | same | old
        · exact .inr (.inr ⟨same, same ▸ some⟩)
        · exact .inr (.inl (.inl same))
        · rcases cover c old with inData | inBitmap | ⟨zero, nonzero⟩
          · exact .inl inData
          · exact .inr (.inl (.inr inBitmap))
          · exact absurd (zero.trans absent) nonzero
  next present => exact .inr ⟨present, covered, rfl⟩

theorem loadEntry_covered {d a : Nat} (covered : Covered i d a s) (indirect : (s.inode i).addrs NDIRECT = b)
    (nonzero : b ≠ 0) : Covered i (d + 1) (a + 1) ((s.loadEntry b bn).2.logWrite (s.loadEntry b bn).1) := by
  unfold loadEntry
  dsimp only
  have read : Covered i d a (s.bread b).2 := covered.congr rfl rfl
  split
  · have inode := (balloc_written (s.bread b).2).1
    have allocated := read.balloc rfl (congrArg (fun ip : Nat → Inode => (ip i).addrs NDIRECT) inode)
    split
    next zero =>
      rw [zero] at allocated
      exact allocated
    next =>
      obtain ⟨ds, bs, data, bitmap, cover⟩ := allocated
      refine ⟨ds, bs, data, bitmap, fun c member => ?_⟩
      have member : c ∈ (s.bread b).2.balloc.1 :: b :: (s.bread b).2.balloc.2.written := member
      have same : ((s.bread b).2.balloc.2.inode i).addrs NDIRECT = b := by rw [inode]; exact indirect
      rcases List.mem_cons.mp member with first | rest
      · exact cover c (first ▸ List.mem_cons_self ..)
      · rcases List.mem_cons.mp rest with own | old
        · exact .inr (.inr ⟨own.trans same.symm, own ▸ nonzero⟩)
        · exact cover c (List.mem_cons_of_mem _ old)
  · exact (read.present _).weaken (Nat.le_refl _) (Nat.le_succ a)

/-- What `bmap` adds is covered by one more data block, which it returns, and one more bitmap block. -/
theorem bmap_covered {d a : Nat} (covered : Covered i d a s) (small : bn < MAXFILE) :
    ∃ addr s', s.bmap i bn = .ok (addr, s') ∧ Covered i (d + 1) (a + 1) (s'.logWrite addr) := by
  unfold bmap
  by_cases direct : bn < NDIRECT
  · exact ⟨_, _, if_pos direct, loadAddr_covered covered (by omega)⟩
  have inside : bn - NDIRECT < NINDIRECT := by
    unfold MAXFILE at small
    omega
  rw [if_neg direct, if_pos inside]
  obtain ⟨zero, failed⟩ | ⟨some, loaded, here⟩ := loadAddr_indirect covered
  · exact ⟨_, _, congrArg Except.ok (if_pos zero), failed⟩
  · exact ⟨_, _, congrArg Except.ok (if_neg some), loadEntry_covered loaded here some⟩

/-- A block that is there is found, and nothing changes that the buffers show. -/
theorem bmap_there (small : bn < MAXFILE) (present : s.slot i bn ≠ 0) : ∃ s',
    s.bmap i bn = .ok (s.slot i bn, s') ∧ s'.view = s.view ∧ s'.inode = s.inode ∧ s'.written = s.written := by
  unfold slot at present ⊢
  unfold bmap
  by_cases direct : bn < NDIRECT
  · rw [if_pos direct] at present ⊢
    rw [if_pos direct]
    exact ⟨s, congrArg Except.ok (if_neg present), rfl, rfl, rfl⟩
  have inside : bn - NDIRECT < NINDIRECT := by
    unfold MAXFILE at small
    omega
  rw [if_neg direct] at present
  by_cases absent : (s.inode i).addrs NDIRECT = 0
  · exact absurd (if_pos absent) present
  rw [if_neg absent] at present
  have loaded : s.loadAddr i NDIRECT = ((s.inode i).addrs NDIRECT, s) := if_neg absent
  rw [if_neg direct, if_neg direct, if_neg absent, if_pos inside, loaded]
  exact ⟨(s.bread _).2, congrArg Except.ok ((if_neg absent).trans (if_neg present)), bread_view .., rfl, rfl⟩

/-- Nothing is added for a block that is there. -/
theorem bmap_present {d a : Nat} (covered : Covered i d a s) (small : bn < MAXFILE)
    (present : s.slot i bn ≠ 0) :
    ∃ addr s', s.bmap i bn = .ok (addr, s') ∧ Covered i (d + 1) a (s'.logWrite addr) := by
  obtain ⟨s', mapped, -, inode, written⟩ := bmap_there small present
  exact ⟨_, s', mapped, (covered.congr written (by rw [inode])).present _⟩

end Blocks

section Loop

variable {pt : Pagetable} {mem : Memory} {s s' : FsState} {i src off tot n fuel k d a : Nat}

theorem eitherCopyin_ok (pt : Pagetable) (mem : Memory) (dst : Bytes) (at' va len : Nat) :
    ∃ r data, eitherCopyin pt mem dst at' va len = .ok (r, data) := by
  obtain ⟨k, -, run, -⟩ := copyin_spec pt dst at' va len mem
  exact ⟨_, _, by rw [eitherCopyin, run]; rfl⟩

/-- A round of `writei`, whose copy may fail. -/
theorem writeLoop_round (more : tot < n) {addr : Nat} (mapped : s.bmap i (off / BSIZE) = .ok (addr, s')) :
    (∃ t, t.written = s'.written ∧ t.inode = s'.inode ∧
      writeLoop pt mem i src (fuel + 1) off tot n s = .ok (off, tot, t)) ∨
    ∃ t, t.written = addr :: s'.written ∧ t.inode = s'.inode ∧ writeLoop pt mem i src (fuel + 1) off tot n s =
      writeLoop pt mem i src fuel (off + min (n - tot) (BSIZE - off % BSIZE))
        (tot + min (n - tot) (BSIZE - off % BSIZE)) n t := by
  rw [writeLoop, if_pos more, mapped]
  simp only [bind, Except.bind]
  by_cases zero : addr = 0
  · rw [if_pos zero]
    exact .inl ⟨s', rfl, rfl, rfl⟩
  rw [if_neg zero]
  obtain ⟨r, data, copied⟩ := eitherCopyin_ok pt mem (s'.bread addr).1 (off % BSIZE) (src + tot)
    (min (n - tot) (BSIZE - off % BSIZE))
  rw [copied]
  dsimp only
  by_cases failed : r = -1
  · rw [if_pos failed]
    exact .inl ⟨(s'.bread addr).2.setData addr data, rfl, rfl, rfl⟩
  · rw [if_neg failed]
    exact .inr ⟨((s'.bread addr).2.setData addr data).logWrite addr, rfl, rfl, rfl⟩

/-- From the start of a block on, each round is covered by one more data block and one more bitmap block. -/
theorem writeLoop_covered (covered : Covered i d a s) (aligned : off % BSIZE = 0 ∨ n ≤ tot)
    (few : n - tot ≤ k * BSIZE)
    (bound : off + (n - tot) ≤ MAXFILE * BSIZE) : ∃ off' tot' s',
      writeLoop pt mem i src fuel off tot n s = .ok (off', tot', s') ∧ Covered i (d + k) (a + k) s' := by
  induction fuel generalizing off tot s k d a with
  | zero => exact ⟨off, tot, s, rfl, covered.weaken (Nat.le_add_right ..) (Nat.le_add_right ..)⟩
  | succ fuel ih =>
    by_cases more : tot < n
    swap
    · exact ⟨off, tot, s, by rw [writeLoop, if_neg more],
        covered.weaken (Nat.le_add_right ..) (Nat.le_add_right ..)⟩
    obtain _ | k := k
    · omega
    have small : off / BSIZE < MAXFILE := by unfold BSIZE at *; omega
    obtain ⟨addr, s₁, mapped, covered'⟩ := bmap_covered covered small
    obtain ⟨t, written, inode, run⟩ | ⟨t, written, inode,
      run⟩ := @writeLoop_round pt mem s s₁ i src off tot n fuel more
        addr mapped
    · refine ⟨off, tot, t, run, (covered'.unlogged.congr written ?_).weaken (by omega) (by omega)⟩
      rw [inode]
    · have logged : Covered i (d + 1) (a + 1) t := covered'.congr written (by rw [inode]; rfl)
      obtain ⟨m, hm⟩ : ∃ m, m = min (n - tot) (BSIZE - off % BSIZE) := ⟨_, rfl⟩
      rw [run, ← hm]
      have aligned' : (off + m) % BSIZE = 0 ∨ n ≤ tot + m := by unfold BSIZE at *; omega
      have few' : n - (tot + m) ≤ k * BSIZE := by unfold BSIZE at *; omega
      obtain ⟨off', tot', s', run', final⟩ := @ih t (off + m) (tot + m) k (d + 1) (a + 1) logged aligned' few'
        (by omega)
      exact ⟨off', tot', s', run', final.weaken (by omega) (by omega)⟩

/-- A chunk that starts inside a block finds this block there. -/
theorem writeLoop_chunk (fresh : s.written = []) (full : s.NoHoles i) (inside : off ≤ (s.inode i).size)
    (few : n ≤ 3 * BSIZE) (bound : off + n ≤ MAXFILE * BSIZE) : ∃ off' tot' s',
      writeLoop pt mem i src n off 0 n s = .ok (off', tot', s') ∧ Covered i 4 3 s' := by
  have size : BSIZE = 1024 := rfl
  have start := Covered.start (i := i) fresh
  by_cases aligned : off % BSIZE = 0
  · obtain ⟨off', tot', s', run, covered⟩ :=
      @writeLoop_covered pt mem s i src off 0 n n 3 0 0 start (.inl aligned)
      (by omega) (by omega)
    exact ⟨off', tot', s', run, covered.weaken (by omega) (Nat.le_refl _)⟩
  obtain _ | n := n
  · exact ⟨off, 0, s, rfl, start.weaken (Nat.zero_le _) (Nat.zero_le _)⟩
  have small : off / BSIZE < MAXFILE := by unfold BSIZE at *; omega
  have present := full (off / BSIZE) small (by unfold BSIZE at *; omega)
  obtain ⟨addr, s₁, mapped, covered⟩ := bmap_present start small present
  obtain ⟨t, written, inode, run⟩ | ⟨t, written, inode, run⟩ :=
    @writeLoop_round pt mem s s₁ i src off 0 (n + 1) n (Nat.succ_pos n) addr mapped
  · exact ⟨off, 0, t, run, (covered.unlogged.congr written (by rw [inode])).weaken (by omega) (by omega)⟩
  · have logged : Covered i 1 0 t := covered.congr written (by rw [inode]; rfl)
    obtain ⟨m, hm⟩ : ∃ m, m = min (n + 1 - 0) (BSIZE - off % BSIZE) := ⟨_, rfl⟩
    have aligned' : (off + m) % BSIZE = 0 ∨ n + 1 ≤ 0 + m := by unfold BSIZE at *; omega
    rw [run, ← hm]
    exact @writeLoop_covered pt mem t i src (off + m) (0 + m) (n + 1) n 3 1 0 logged aligned'
      (by omega) (by omega)

theorem Covered.distinct (covered : Covered i 4 3 s) (b : Nat) :
    (s.logWrite b).written.dedup.length ≤ MAXOPBLOCKS := by
  obtain ⟨ds, bs, data, bitmap, cover⟩ := covered
  have among : (s.logWrite b).written.dedup ⊆ b :: (s.inode i).addrs NDIRECT :: (ds ++ bs) := by
    intro c member
    have member : c ∈ b :: s.written := List.mem_dedup.mp member
    simp only [List.mem_cons, List.mem_append]
    rcases List.mem_cons.mp member with same | old
    · exact .inl same
    · rcases cover c old with inData | inBitmap | ⟨same, -⟩
      · exact .inr (.inr (.inl inData))
      · exact .inr (.inr (.inr inBitmap))
      · exact .inr (.inl same)
  have few := (List.subperm_of_subset (List.nodup_dedup _) among).length_le
  simp only [List.length_cons, List.length_append] at few
  unfold MAXOPBLOCKS
  omega

/-- One `writei` of a chunk passes no more than `MAXOPBLOCKS` different blocks to `log_write`. -/
theorem writei_reserved (pt : Pagetable) (mem : Memory) (src off : Nat) (fresh : s.written = [])
    (full : s.NoHoles i)
    (few : n ≤ maxChunk) : ∃ r s', writei pt mem s i src off n = .ok (r, s') ∧
      s'.written.dedup.length ≤ MAXOPBLOCKS := by
  have chunk : maxChunk = 3 * BSIZE := rfl
  have size : BSIZE = 1024 := rfl
  have capacity : MAXFILE * BSIZE = 274432 := rfl
  have nothing : s.written.dedup.length ≤ MAXOPBLOCKS := by
    rw [fresh]
    exact Nat.zero_le _
  unfold writei
  by_cases guard : (s.inode i).size < off ∨ (off + n) % 2 ^ 32 < off
  · exact ⟨-1, s, if_pos guard, nothing⟩
  rw [if_neg guard]
  by_cases large : MAXFILE * BSIZE < (off + n) % 2 ^ 32
  · exact ⟨-1, s, if_pos large, nothing⟩
  rw [if_neg large]
  obtain ⟨off', tot', s', run, covered⟩ :=
    @writeLoop_chunk pt mem s i src off n fresh full (by omega) (by omega)
    (by omega)
  rw [run]
  refine ⟨_, _, rfl, Covered.distinct (i := i) (covered.congr rfl ?_) _⟩
  simp

end Loop

end FsState

/-- Each transaction that `filewrite` issues on an inode passes no more than `MAXOPBLOCKS` different blocks to
`log_write`, whatever happens between the transactions, as long as the inode has no holes. -/
theorem filewrite_reserved (pt : Pagetable) (mem : Memory) (writable : Bool) (i addr : Nat)
    (env : Nat → FsState × Nat)
    (n : Int) (full : ∀ k, (env k).1.NoHoles i) : ∃ ret transactions,
      filewrite pt mem writable i addr env n = .ok (ret, transactions) ∧
      ∀ logged ∈ transactions, logged.dedup.length ≤ MAXOPBLOCKS := by
  have loop : ∀ n fuel k done, ∃ ret transactions,
      filewriteLoop pt mem i addr env n fuel k done = .ok (ret, transactions) ∧
      ∀ logged ∈ transactions, logged.dedup.length ≤ MAXOPBLOCKS := by
    intro n fuel
    induction fuel with
    | zero => exact fun k done => ⟨_, [], rfl, fun logged member => by cases member⟩
    | succ fuel ih =>
      intro k done
      rw [filewriteLoop]
      by_cases more : done < n
      swap
      · exact ⟨_, [], if_neg more, fun logged member => by cases member⟩
      rw [if_pos more]
      obtain ⟨r, s', run, few⟩ := FsState.writei_reserved (s := { (env k).1 with written := [] })
        pt mem (addr + done)
        (env k).2 rfl (full k) (Nat.min_le_right (n - done) maxChunk)
      simp only [run, bind, Except.bind]
      split
      · exact ⟨-1, [s'.written], rfl, fun logged member => List.mem_singleton.mp member ▸ few⟩
      · obtain ⟨ret, transactions, rest, all⟩ := ih (k + 1) (done + min (n - done) maxChunk)
        rw [rest]
        refine ⟨ret, s'.written :: transactions, rfl, fun logged member => ?_⟩
        rcases List.mem_cons.mp member with rfl | old
        · exact few
        · exact all logged old
  unfold filewrite
  split
  · exact ⟨-1, [], rfl, fun logged member => by cases member⟩
  split
  · exact ⟨-1, [], rfl, fun logged member => by cases member⟩
  · exact loop n.toNat n.toNat 0 0

/-- A process with the first page of its memory only, which is full of nines. -/
def onePage : Pagetable := ⟨0, fun _ => some 1, fun _ => some 2,
  fun p => if p = 0 then some ⟨3, true, true, false, true⟩ else none⟩

def nines : Memory := ⟨0, 0, fun _ _ => 9, [], fun _ _ => false⟩

/-- A file of one block, the last one that the bitmap marks. -/
def oneBlock : FsState where
  sb := ⟨2000, 32, 45⟩
  disk b := if b = 45 then fun x => if x < 6 then 255 else if x = 6 then 1 else 0 else fun _ => 7
  cache _ := none
  log := []
  inode i := if i = 1 then ⟨T_FILE, 1, BSIZE, fun k => if k = 0 then 48 else 0⟩ else ⟨0, 0, 0, fun _ => 0⟩
  written := []

theorem oneBlock_noHoles : oneBlock.NoHoles 1 := by
  intro bn _ below
  have first : bn = 0 := by
    by_contra later
    exact absurd below (Nat.not_lt.mpr (Nat.le_mul_of_pos_left BSIZE (Nat.pos_of_ne_zero later)))
  rw [first]
  decide

/-- A write over its second half and beyond it takes two transactions: the first allocates three blocks. -/
theorem filewrite_reserved_append :
    filewrite onePage nines true 1 0 (fun _ => (oneBlock, 500)) 4000 =
      .ok (4000, [[32, 51, 51, 45, 50, 50, 45, 49, 49, 45, 48], [32, 49, 49, 45, 48]]) ∧
    ∀ logged ∈ [[32, 51, 51, 45, 50, 50, 45, 49, 49, 45, 48], [32, 49, 49, 45, 48]],
    logged.dedup.length ≤ MAXOPBLOCKS := by
  have values : filewrite onePage nines true 1 0 (fun _ => (oneBlock, 500)) 4000 =
      .ok (4000, [[32, 51, 51, 45, 50, 50, 45, 49, 49, 45, 48], [32, 49, 49, 45, 48]]) := by decide +kernel
  obtain ⟨ret, transactions, run, few⟩ :=
    filewrite_reserved onePage nines true 1 0 (fun _ => (oneBlock, 500)) 4000
    fun _ => oneBlock_noHoles
  obtain ⟨-, rfl⟩ := Prod.mk.inj (Except.ok.inj (run.symm.trans values))
  exact ⟨values, few⟩

end Xv6.Buffers
