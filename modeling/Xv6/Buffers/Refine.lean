import Mathlib.Data.List.Find
import Xv6.Buffers.Reserve
import Xv6.Content.Ops

namespace Xv6.Buffers
open Function Content
open Mkfs (BPB bit)

section Fresh

open Content.Volume

variable {v : Volume} {i k b bn : Nat}

/-- What is in use stays in use, and a place that changes gets a block that was free. -/
def Grows (v v' : Volume) : Prop := (∀ c, v.used c = true → v'.used c = true) ∧
  ∀ j l, l < NSLOT → v'.slot j l = v.slot j l ∨ v.used (v'.slot j l) = false

theorem Grows.trans {v' v'' : Volume} (first : Grows v v') (second : Grows v' v'') : Grows v v'' := by
  refine ⟨fun c used => second.1 c (first.1 c used), fun j l small => ?_⟩
  rcases second.2 j l small with same | fresh
  · rw [same]
    exact first.2 j l small
  · right
    cases used : v.used (v''.slot j l) with
    | false => rfl
    | true =>
      rw [first.1 _ used] at fresh
      cases fresh

theorem balloc_grows (cons : v.Consistent) : Grows v v.balloc.2 :=
  ⟨fun c used => ((balloc_spec cons).2.1 c used).1, fun j l _ => .inl (balloc_slot cons j l)⟩

theorem loadAddr_grows (cons : v.Consistent) (direct : k ≤ NDIRECT) : Grows v (v.loadAddr i k).2 := by
  have spec := balloc_spec cons
  unfold loadAddr
  split
  next absent =>
    dsimp only
    split
    next => exact balloc_grows cons
    next got =>
      obtain ⟨fresh, marked, zeroed, _⟩ := spec.2.2 got
      obtain ⟨-, -, -, slots⟩ := cons.fill_addr (v.balloc.2.setAddr i k v.balloc.1) direct absent got
        fresh zeroed (fun c used => (spec.2.1 c used).2) ⟨marked, fun c used => (spec.2.1 c used).1⟩ spec.1.2
        (fun j apart => by simp [setAddr, setInode, spec.1.1, apart]) (by simp [setAddr, setInode, spec.1.1])
        (by simp [setAddr, setInode, spec.1.1])
      refine ⟨fun c used => (spec.2.1 c used).1, fun j l small => ?_⟩
      rw [slots j l small]
      split
      · exact .inr fresh
      · exact .inl rfl
  next => exact ⟨fun _ used => used, fun _ _ _ => .inl rfl⟩

theorem loadEntry_grows (cons : v.Consistent) (indirect : v.slot i NDIRECT = b) (present : b ≠ 0)
    (small : bn < NINDIRECT) : Grows v (v.loadEntry b bn).2 := by
  have spec := balloc_spec cons
  unfold loadEntry
  split
  next absent =>
    dsimp only
    split
    next => exact balloc_grows cons
    next got =>
      obtain ⟨fresh, marked, _, bound⟩ := spec.2.2 got
      have before := (spec.2.1 b (indirect ▸ cons.used i NDIRECT (by decide) (by rwa [indirect]))).2
      obtain ⟨-, -, -, slots⟩ := @Consistent.fill_entry v i b ({ v.balloc.2 with
          block := update v.balloc.2.block b ((v.balloc.2.block b).store
          (4 * bn) 4 v.balloc.1) }.logWrite) bn v.balloc.1
        cons indirect present small absent fresh bound (by rw [← before]; exact update_self ..)
        (fun x apart used => (update_of_ne apart _ _).trans (spec.2.1 x used).2)
        ⟨marked, fun x used => (spec.2.1 x used).1⟩ spec.1.2 spec.1.1
      refine ⟨fun c used => (spec.2.1 c used).1, fun j l inside => ?_⟩
      rw [slots j l inside]
      split
      · exact .inr fresh
      · exact .inl rfl
  next => exact ⟨fun _ used => used, fun _ _ _ => .inl rfl⟩

end Fresh

section Bits

variable {m : Bytes} {a b : Nat}

/-- Setting a bit leaves the others alone. -/
theorem bit_setBit (m : Bytes) (a b : Nat) : bit (setBit m a) b = (decide (b = a) || bit m b) := by
  have small : 2 ^ (a % 8) < 2 ^ 8 := Nat.pow_lt_pow_right (by omega) (Nat.mod_lt a (by omega))
  unfold bit setBit
  by_cases byte : b / 8 = a / 8
  · rw [byte, update_self, UInt8.toNat_or, Nat.testBit_or, UInt8.toNat_ofNat', Nat.mod_eq_of_lt small,
      Nat.testBit_two_pow]
    have same : a % 8 = b % 8 ↔ b = a := by omega
    simp only [same, Bool.or_comm]
  · rw [update_of_ne byte]
    have apart : ¬ b = a := fun same => byte (by rw [same])
    simp [apart]

end Bits

/-- Up to `size`, one stretch of `w` numbers after the other. -/
theorem range_stretches (w size n : Nat) : (List.range n).flatMap (fun k =>
    (List.range (min w (size - k * w))).map (k * w + ·)) = List.range (min (n * w) size) := by
  induction n with
  | zero => simp
  | succ n ih =>
    rw [List.range_succ, List.flatMap_append, ih, List.flatMap_singleton, Nat.succ_mul]
    by_cases below : n * w ≤ size
    · have sum : min (n * w + w) size = n * w + min w (size - n * w) := by omega
      rw [Nat.min_eq_left below, ← List.range_add, sum]
    · have none : size - n * w = 0 := by omega
      have sum : min (n * w + w) size = min (n * w) size := by omega
      rw [none, Nat.min_zero, List.range_zero, List.map_nil, List.append_nil, sum]

/-- A block holds a part of the bitmap. -/
def Superblock.Bitmap (sb : Superblock) (b : Nat) : Prop := ∃ c < sb.size, b = BBLOCK sb c

instance (sb : Superblock) (b : Nat) : Decidable (sb.Bitmap b) :=
  decidable_of_iff (∃ c ∈ List.range sb.size, b = BBLOCK sb c) (by simp [Superblock.Bitmap])

namespace FsState

/-- The file system that the buffers show, with the counts of a record. The bitmap is no longer in blocks. -/
def volume (s : FsState) (ballocs logWrites : Nat) : Volume where
  size := s.sb.size
  used b := decide (b < s.sb.size) && bit (s.view (BBLOCK s.sb b)) (b % BPB)
  block b := if s.sb.Bitmap b then fun _ => 0 else s.view b
  inode := s.inode
  ballocs
  logWrites

/-- The buffers show this file system. -/
def Refines (s : FsState) (v : Volume) : Prop := ∃ ballocs logWrites, v = s.volume ballocs logWrites

section Balloc

variable {s s' : FsState} {v : Volume} {b k : Nat}

theorem volume_congr (sb : s'.sb = s.sb) (view : s'.view = s.view) (inode : s'.inode = s.inode) (x y : Nat) :
    s'.volume x y = s.volume x y := by
  unfold volume
  simp only [sb, view, inode]

theorem Refines.congr (refines : s.Refines v) (sb : s'.sb = s.sb) (view : s'.view = s.view)
    (inode : s'.inode = s.inode) : s'.Refines v := by
  obtain ⟨x, y, rfl⟩ := refines
  exact ⟨x, y, (volume_congr sb view inode x y).symm⟩

theorem Refines.intro (size : v.size = s.sb.size)
    (used : ∀ c, v.used c = (decide (c < s.sb.size) && bit (s.view (BBLOCK s.sb c)) (c % BPB)))
    (block : ∀ c, v.block c = if s.sb.Bitmap c then fun _ => 0 else s.view c) (inode : v.inode = s.inode) :
    s.Refines v := by
  refine ⟨v.ballocs, v.logWrites, ?_⟩
  obtain ⟨vsize, vused, vblock, vinode, x, y⟩ := v
  obtain rfl : vsize = s.sb.size := size
  obtain rfl : vused = _ := funext used
  obtain rfl : vblock = _ := funext block
  obtain rfl : vinode = s.inode := inode
  rfl

theorem Refines.inode (refines : s.Refines v) : v.inode = s.inode := by
  obtain ⟨x, y, eq⟩ := refines
  rw [eq]
  rfl

theorem Refines.block (refines : s.Refines v) (plain : ¬ s.sb.Bitmap b) : v.block b = s.view b := by
  obtain ⟨x, y, eq⟩ := refines
  rw [eq]
  exact if_neg plain

theorem Refines.logWrite (refines : s.Refines v) (b : Nat) : (s.logWrite b).Refines v.logWrite := by
  obtain ⟨x, y, rfl⟩ := refines
  exact ⟨x, y + 1, rfl⟩

/-- A store to a block that holds no part of the bitmap. -/
theorem Refines.setData (refines : s.Refines v) (plain : ¬ s.sb.Bitmap b) (data : Bytes) :
    (s.setData b data).Refines { v with block := update v.block b data } := by
  obtain ⟨x, y, rfl⟩ := refines
  refine Refines.intro rfl (fun c => ?_) (fun c => ?_) rfl
  · show (s.volume x y).used c =
      (decide (c < s.sb.size) && bit ((s.setData b data).view (BBLOCK s.sb c)) (c % BPB))
    rw [setData_view]
    by_cases here : c < s.sb.size
    · have apart : BBLOCK s.sb c ≠ b := fun same => plain ⟨c, here, same.symm⟩
      rw [update_of_ne apart]
      rfl
    · simp [volume, here]
  · show update (s.volume x y).block b data c =
      if s.sb.Bitmap c then fun _ => 0 else (s.setData b data).view c
    rw [setData_view]
    by_cases same : c = b
    · subst same
      rw [update_self, update_self, if_neg plain]
    · rw [update_of_ne same, update_of_ne same]
      rfl

theorem BBLOCK_add (sb : Superblock) {k bi : Nat} (small : bi < BPB) :
    BBLOCK sb (k * BPB + bi) = BBLOCK sb (k * BPB) ∧ (k * BPB + bi) % BPB = bi := by
  have positive : 0 < BPB := by decide
  refine ⟨?_, by rw [Nat.mul_add_mod', Nat.mod_eq_of_lt small]⟩
  unfold BBLOCK
  rw [Nat.mul_div_cancel k positive, Nat.mul_comm k, Nat.mul_add_div positive,
    Nat.div_eq_of_lt small, Nat.add_zero]

/-- The scan of the bitmap finds the first block that is free, and marks and clears it. -/
theorem ballocFrom_scan (ks : List Nat) (s : FsState) :
    match (ks.flatMap fun k => (List.range (min BPB (s.sb.size - k * BPB))).map (k * BPB + ·)).find?
      (fun b => !bit (s.view (BBLOCK s.sb b)) (b % BPB)) with
    | some b => (ballocFrom ks s).1 = b ∧ (ballocFrom ks s).2.view = update (update s.view (BBLOCK s.sb b)
        (setBit (s.view (BBLOCK s.sb b)) (b % BPB))) b fun _ => 0
    | none => (ballocFrom ks s).1 = 0 ∧ (ballocFrom ks s).2.view = s.view := by
  induction ks generalizing s with
  | nil => exact ⟨rfl, rfl⟩
  | cons k rest ih =>
    have first : ((List.range (min BPB (s.sb.size - k * BPB))).map (k * BPB + ·)).find?
        (fun b => !bit (s.view (BBLOCK s.sb b)) (b % BPB)) =
        ((s.bread (BBLOCK s.sb (k * BPB))).2.freeBit (k * BPB) (s.view (BBLOCK s.sb (k * BPB)))).map
        (k * BPB + ·) := by
      rw [List.find?_map, freeBit]
      refine congrArg _ (List.find?_congr fun bi member => ?_)
      have less := List.mem_range.mp member
      obtain ⟨same, rest⟩ := BBLOCK_add s.sb (k := k) (show bi < BPB by omega)
      simp only [Function.comp_apply, same, rest]
    rw [List.flatMap_cons, List.find?_append, first, ballocFrom]
    dsimp only
    rw [show (s.bread (BBLOCK s.sb (k * BPB))).1 = s.view (BBLOCK s.sb (k * BPB)) from rfl]
    cases free : (s.bread (BBLOCK s.sb (k * BPB))).2.freeBit (k * BPB) (s.view (BBLOCK s.sb (k * BPB))) with
    | some bi =>
      have less := List.mem_range.mp (List.mem_of_find?_eq_some free)
      obtain ⟨same, rest⟩ := BBLOCK_add s.sb (k := k) (show bi < BPB by omega)
      refine ⟨rfl, ?_⟩
      simp only [same, rest]
      simp [bzero]
      rfl
    | none =>
      have later := ih (s.bread (BBLOCK s.sb (k * BPB))).2
      rw [bread_view] at later
      exact later

theorem balloc_scan (s : FsState) :
    match (List.range s.sb.size).find? (fun b => !bit (s.view (BBLOCK s.sb b)) (b % BPB)) with
    | some b => s.balloc.1 = b ∧ s.balloc.2.view = update (update s.view (BBLOCK s.sb b)
        (setBit (s.view (BBLOCK s.sb b)) (b % BPB))) b fun _ => 0
    | none => s.balloc.1 = 0 ∧ s.balloc.2.view = s.view := by
  have scan := ballocFrom_scan (List.range ((s.sb.size + BPB - 1) / BPB)) s
  have all : min ((s.sb.size + BPB - 1) / BPB * BPB) s.sb.size = s.sb.size := by
    unfold BPB BSIZE
    omega
  rw [range_stretches, all] at scan
  exact scan

/-- The bitmap marks its own blocks, and no block of an inode is one of these. -/
structure Apart (sb : Superblock) (v : Volume) : Prop where
  marked : ∀ b < sb.size, sb.Bitmap b → v.used b = true
  slots : ∀ j l, l < NSLOT → v.slot j l ≠ 0 → ¬ sb.Bitmap (v.slot j l)

theorem balloc_refines (refines : s.Refines v) (marked : ∀ b < s.sb.size, s.sb.Bitmap b → v.used b = true) :
    s.balloc.1 = v.balloc.1 ∧ s.balloc.2.Refines v.balloc.2 := by
  have scan := balloc_scan s
  obtain ⟨inode, sb, -⟩ := balloc_written s
  obtain ⟨x, y, rfl⟩ := refines
  have bits : ((List.range s.sb.size).find? fun b => !(s.volume x y).used b) =
      (List.range s.sb.size).find? (fun b => !bit (s.view (BBLOCK s.sb b)) (b % BPB)) :=
    List.find?_congr fun b member => by simp [volume, List.mem_range.mp member]
  unfold Volume.balloc
  dsimp only
  rw [show (s.volume x y).size = s.sb.size from rfl, bits]
  cases found : (List.range s.sb.size).find? (fun b => !bit (s.view (BBLOCK s.sb b)) (b % BPB)) with
  | none =>
    rw [found] at scan
    refine ⟨scan.1, x + 1, y, ?_⟩
    rw [volume_congr sb scan.2 inode]
    rfl
  | some b =>
    rw [found] at scan
    obtain ⟨got, view⟩ := scan
    have inside := List.mem_range.mp (List.mem_of_find?_eq_some found)
    have free := List.find?_some found
    have plain : ¬ s.sb.Bitmap b := by
      intro bitmap
      have used := marked b inside bitmap
      simp only [volume, inside, decide_true, Bool.true_and] at used
      simp [used] at free
    refine ⟨got, Refines.intro (congrArg Superblock.size sb.symm) (fun c => ?_) (fun c => ?_) inode.symm⟩
    · rw [sb, view]
      show update (s.volume x y).used b true c = _
      by_cases here : c < s.sb.size
      swap
      · have other : c ≠ b := by omega
        rw [update_of_ne other]
        simp [volume, here]
      have distinct : BBLOCK s.sb c ≠ b := fun same => plain ⟨c, here, same.symm⟩
      rw [update_of_ne distinct]
      by_cases same : c = b
      · subst same
        rw [update_self, update_self, bit_setBit]
        simp [here]
      · rw [update_of_ne same]
        by_cases block : BBLOCK s.sb c = BBLOCK s.sb b
        · have apart : c % BPB ≠ b % BPB := by
            intro rest
            have quotient : c / BPB = b / BPB := Nat.add_right_cancel block
            exact same (by rw [← Nat.div_add_mod c BPB, ← Nat.div_add_mod b BPB, quotient, rest])
          rw [block, update_self, bit_setBit]
          simp [volume, here, apart, block]
        · rw [update_of_ne block]
          rfl
    · rw [sb, view]
      show update (s.volume x y).block b (fun _ => 0) c = _
      by_cases same : c = b
      · subst same
        rw [update_self, update_self, if_neg plain]
      · rw [update_of_ne same, update_of_ne same]
        by_cases bitmap : s.sb.Bitmap c
        · rw [if_pos bitmap]
          exact if_pos bitmap
        · rw [if_neg bitmap, update_of_ne fun block => bitmap ⟨b, inside, block⟩]
          exact if_neg bitmap

end Balloc

section Sound

variable {s s' s'' : FsState} {v v' : Volume} {b k i bn : Nat}

/-- A buffer whose block is not in the log holds what is on the disk. -/
def Clean (s : FsState) : Prop := ∀ b ∉ s.log, s.cache b = none ∨ s.cache b = some (s.disk b)

/-- Changes to buffers that are in the log. -/
structure Logged (s s' : FsState) : Prop where
  sb : s'.sb = s.sb
  disk : s'.disk = s.disk
  clean : s.Clean → s'.Clean

theorem Logged.refl (s : FsState) : Logged s s := ⟨rfl, rfl, id⟩

theorem Logged.trans (first : Logged s s') (second : Logged s' s'') : Logged s s'' :=
  ⟨second.sb.trans first.sb, second.disk.trans first.disk, fun clean => second.clean (first.clean clean)⟩

theorem Clean.view (clean : s.Clean) (out : b ∉ s.log) : s.view b = s.disk b := by
  unfold FsState.view
  rcases clean b out with none | some
  · rw [none]
    rfl
  · rw [some]
    rfl

theorem bread_logged (s : FsState) (b : Nat) : Logged s (s.bread b).2 := by
  refine ⟨rfl, rfl, fun clean c out => ?_⟩
  by_cases same : c = b
  · subst same
    exact .inr ((update_self ..).trans (congrArg some (clean.view out)))
  · have kept : (s.bread b).2.cache c = s.cache c := update_of_ne same ..
    rw [kept]
    exact clean c out

theorem mem_logWrite : b ∈ (s.logWrite k).log ↔ b ∈ s.log ∨ b = k := by
  unfold logWrite
  dsimp only
  split
  next member => exact ⟨.inl, fun either => either.elim id fun same => same ▸ member⟩
  next => simp

theorem setData_logged (s : FsState) (b : Nat) (data : Bytes) : Logged s ((s.setData b data).logWrite b) := by
  refine ⟨rfl, rfl, fun clean c out => ?_⟩
  have out := fun either => out (mem_logWrite.mpr either)
  have kept : ((s.setData b data).logWrite b).cache c = s.cache c :=
    update_of_ne (fun same => out (.inr same)) ..
  rw [kept]
  exact clean c fun member => out (.inl member)

theorem logWrite_logged (s : FsState) (b : Nat) : Logged s (s.logWrite b) :=
  ⟨rfl, rfl, fun clean c out => clean c fun member => out (mem_logWrite.mpr (.inl member))⟩

theorem setInode_logged (s : FsState) (i : Nat) (ip : Inode) : Logged s (s.setInode i ip) := ⟨rfl, rfl, id⟩

theorem ballocFrom_logged (ks : List Nat) (s : FsState) : Logged s (ballocFrom ks s).2 := by
  induction ks generalizing s with
  | nil => exact Logged.refl s
  | cons k rest ih =>
    have read := bread_logged s (BBLOCK s.sb (k * BPB))
    rw [ballocFrom]
    dsimp only
    cases (s.bread (BBLOCK s.sb (k * BPB))).2.freeBit (k * BPB) (s.bread (BBLOCK s.sb (k * BPB))).1 with
    | some bi => exact (read.trans (setData_logged ..)).trans ((bread_logged ..).trans (setData_logged ..))
    | none => exact read.trans (ih _)

theorem balloc_logged (s : FsState) : Logged s s.balloc.2 := ballocFrom_logged ..

theorem loadAddr_logged (s : FsState) (i k : Nat) : Logged s (s.loadAddr i k).2 := by
  unfold loadAddr
  split
  · dsimp only
    split
    · exact balloc_logged s
    · exact (balloc_logged s).trans (setInode_logged ..)
  · exact Logged.refl s

theorem loadEntry_logged (s : FsState) (b bn : Nat) : Logged s (s.loadEntry b bn).2 := by
  unfold loadEntry
  dsimp only
  have read := (bread_logged s b).trans (balloc_logged (s.bread b).2)
  split
  · split
    · exact read
    · exact read.trans (setData_logged ..)
  · exact bread_logged s b

/-- The buffers are clean and show a consistent file system, whose bitmap is apart from its files. -/
structure Sound (s : FsState) (v : Volume) : Prop where
  clean : s.Clean
  refines : s.Refines v
  cons : v.Consistent
  apart : Apart s.sb v

theorem Refines.inside (refines : s.Refines v) (used : v.used b = true) : b < s.sb.size := by
  obtain ⟨x, y, rfl⟩ := refines
  exact of_decide_eq_true (Bool.and_eq_true_iff.mp used).1

theorem Sound.step (sound : Sound s v) (logged : Logged s s') (refines : s'.Refines v') (cons : v'.Consistent)
    (grows : Grows v v') : Sound s' v' := by
  refine ⟨logged.clean sound.clean, refines, cons, ?_⟩
  rw [logged.sb]
  refine ⟨fun b inside bitmap => grows.1 b (sound.apart.marked b inside bitmap),
    fun j l small present bitmap => ?_⟩
  rcases grows.2 j l small with same | fresh
  · rw [same] at present bitmap
    exact sound.apart.slots j l small present bitmap
  · have inside := refines.inside (cons.used j l small present)
    rw [logged.sb] at inside
    rw [sound.apart.marked _ inside bitmap] at fresh
    cases fresh

theorem loadAddr_refines (sound : Sound s v) (i k : Nat) :
    (s.loadAddr i k).1 = (v.loadAddr i k).1 ∧ (s.loadAddr i k).2.Refines (v.loadAddr i k).2 := by
  obtain ⟨same, refines⟩ := balloc_refines sound.refines sound.apart.marked
  have inode := sound.refines.inode
  unfold loadAddr Volume.loadAddr
  rw [inode]
  by_cases absent : (s.inode i).addrs k = 0
  · rw [if_pos absent, if_pos absent]
    dsimp only
    rw [← same]
    by_cases zero : s.balloc.1 = 0
    · rw [if_pos zero, if_pos zero]
      exact ⟨rfl, refines⟩
    · rw [if_neg zero, if_neg zero]
      obtain ⟨x, y, eq⟩ := refines
      exact ⟨rfl, x, y, by rw [eq]; rfl⟩
  · rw [if_neg absent, if_neg absent]
    exact ⟨rfl, sound.refines⟩

theorem loadEntry_refines (sound : Sound s v) (plain : ¬ s.sb.Bitmap b) (bn : Nat) :
    (s.loadEntry b bn).1 = (v.loadEntry b bn).1 ∧ (s.loadEntry b bn).2.Refines (v.loadEntry b bn).2 := by
  have read : (s.bread b).2.Refines v := sound.refines.congr rfl (bread_view s b) rfl
  obtain ⟨same, refines⟩ := balloc_refines read sound.apart.marked
  have view := sound.refines.block plain
  unfold loadEntry Volume.loadEntry Volume.entry
  dsimp only
  rw [view, show (s.bread b).1 = s.view b from rfl]
  by_cases absent : (s.view b).le (4 * bn) 4 = 0
  · rw [if_pos absent, if_pos absent, ← same]
    by_cases zero : (s.bread b).2.balloc.1 = 0
    · rw [if_pos zero, if_pos zero]
      exact ⟨rfl, refines⟩
    · rw [if_neg zero, if_neg zero]
      have sb : (s.bread b).2.balloc.2.sb = s.sb := (balloc_written _).2.1
      have kept : ¬ (s.bread b).2.balloc.2.sb.Bitmap b := by rwa [sb]
      rw [refines.block kept]
      exact ⟨rfl, (refines.setData kept _).logWrite b⟩
  · rw [if_neg absent, if_neg absent]
    exact ⟨rfl, read⟩

/-- `bmap` answers as it does on the file system that the buffers show. -/
theorem bmap_sound (sound : Sound s v) (i : Nat) (small : bn < MAXFILE) : ∃ addr s' v',
    s.bmap i bn = .ok (addr, s') ∧ Volume.Loaded i (dataSlot bn) v (addr, v') ∧ Sound s' v' ∧ Logged s s' := by
  obtain ⟨r, mapped, loaded⟩ := Volume.bmap_spec (i := i) sound.cons small
  unfold Volume.bmap at mapped
  unfold bmap
  by_cases direct : bn < NDIRECT
  · rw [if_pos direct] at mapped
    obtain rfl := Except.ok.inj mapped
    obtain ⟨same, refines⟩ := loadAddr_refines sound i bn
    have logged := loadAddr_logged s i bn
    refine ⟨(s.loadAddr i bn).1, (s.loadAddr i bn).2, (v.loadAddr i bn).2, if_pos direct, ?_, ?_, logged⟩
    · rw [same]
      exact loaded
    · exact sound.step logged refines loaded.cons (loadAddr_grows sound.cons (Nat.le_of_lt direct))
  have inside : bn - NDIRECT < NINDIRECT := by
    unfold MAXFILE at small
    omega
  rw [if_neg direct, if_pos inside] at mapped
  rw [if_neg direct, if_pos inside]
  obtain rfl := Except.ok.inj mapped
  obtain ⟨same, refines⟩ := loadAddr_refines sound i NDIRECT
  have logged := loadAddr_logged s i NDIRECT
  have first := Volume.loadAddr_spec (i := i) sound.cons (le_refl NDIRECT)
  have grows := loadAddr_grows (i := i) sound.cons (le_refl NDIRECT)
  have sound' := sound.step logged refines first.cons grows
  dsimp only at loaded ⊢
  by_cases zero : (v.loadAddr i NDIRECT).1 = 0
  · rw [if_pos zero] at loaded
    refine ⟨0, _, (v.loadAddr i NDIRECT).2, congrArg Except.ok (if_pos (same.trans zero)),
      loaded, sound', logged⟩
  · rw [if_neg zero] at loaded
    have here := first.result zero
    have plain : ¬ (s.loadAddr i NDIRECT).2.sb.Bitmap (v.loadAddr i NDIRECT).1 := by
      rw [← here]
      exact sound'.apart.slots i NDIRECT (by decide) (by rwa [here])
    obtain ⟨same', refines'⟩ := loadEntry_refines sound' plain (bn - NDIRECT)
    have logged' := loadEntry_logged (s.loadAddr i NDIRECT).2 (v.loadAddr i NDIRECT).1 (bn - NDIRECT)
    refine ⟨((s.loadAddr i NDIRECT).2.loadEntry (v.loadAddr i NDIRECT).1 (bn - NDIRECT)).1,
      ((s.loadAddr i NDIRECT).2.loadEntry (v.loadAddr i NDIRECT).1 (bn - NDIRECT)).2,
      ((v.loadAddr i NDIRECT).2.loadEntry (v.loadAddr i NDIRECT).1 (bn - NDIRECT)).2,
      congrArg Except.ok ((if_neg (by rwa [same])).trans ?_), ?_, ?_, logged.trans logged'⟩
    · rw [same]
    · rw [same']
      exact loaded
    · exact sound'.step logged' refines' loaded.cons (loadEntry_grows first.cons here zero inside)

end Sound

end FsState

end Xv6.Buffers
