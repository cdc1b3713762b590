import Mathlib.Logic.Relation
import Xv6.Buffers.Refine

namespace Xv6.Buffers
open Function Content

namespace FsState

/-- The contents of an inode as the buffers show them. -/
def contents (s : FsState) (i : Nat) : Bytes := fun x => s.view (s.slot i (x / BSIZE)) (x % BSIZE)

/-- What happens to the buffers when nobody writes to a file: a block is read, the buffer of a block that is
not in the log is recycled by `bget`, and the log is committed. -/
inductive Elapses : FsState → FsState → Prop
  | read (s : FsState) (b : Nat) : Elapses s (s.bread b).2
  | recycle (s : FsState) (b : Nat) (free : b ∉ s.log) : Elapses s { s with cache := update s.cache b none }
  | commit (s : FsState) : Elapses s { s with
        disk := fun b => if b ∈ s.log then s.view b else s.disk b, log := [] }

def Later : FsState → FsState → Prop := Relation.ReflTransGen Elapses

/-- Reads from any inode give this size and these bytes. -/
def Shows (s : FsState) (size : Nat → Nat) (bytes : Nat → Bytes) : Prop :=
  ∀ j dst off n, off < 2 ^ 32 → n < 2 ^ 32 → ∃ count s',
    s.readi j dst off n = .ok (Int.ofNat count, dst.splice 0 count ((bytes j).drop off), s') ∧
    count = if size j < off ∨ 2 ^ 32 ≤ off + n then 0 else min n (size j - off)

section Later

variable {s u s' : FsState} {v : Volume} {i j b bn x off tot n fuel : Nat} {dst : Bytes}

/-- What is kept from `s` on: a block in the log shows the same, from the log or from the disk, and any other
block is left alone on the disk and shows what it did or what the disk holds. -/
structure Kept (s u : FsState) : Prop where
  sb : u.sb = s.sb
  inode : u.inode = s.inode
  inside : ∀ b ∈ s.log, u.view b = s.view b ∧ (b ∈ u.log ∨ u.disk b = s.view b)
  outside : ∀ b ∉ s.log, b ∉ u.log ∧ u.disk b = s.disk b ∧ (u.view b = s.view b ∨ u.view b = s.disk b)

theorem recycle_view (s : FsState) (c b : Nat) :
    FsState.view { s with cache := update s.cache c none } b = if b = c then s.disk b else s.view b := by
  unfold view
  by_cases same : b = c
  · subst same
    simp
  · simp [same]

theorem commit_view (s : FsState) (disk : Nat → Bytes)
    (hdisk : disk = fun b => if b ∈ s.log then s.view b else s.disk b) :
    FsState.view { s with disk, log := [] } = s.view := by
  funext b
  subst hdisk
  unfold view
  cases cached : s.cache b <;> simp [cached]

theorem Kept.step (kept : Kept s u) (step : Elapses u s') : Kept s s' := by
  obtain ⟨sb, inode, inside, outside⟩ := kept
  cases step with
  | read c =>
    refine ⟨sb, inode, fun b member => ?_, fun b out => ?_⟩
    · rw [bread_view]
      exact inside b member
    · rw [bread_view]
      exact outside b out
  | recycle c free =>
    refine ⟨sb, inode, fun b member => ?_, fun b out => ?_⟩
    · rw [recycle_view]
      obtain ⟨same, home⟩ := inside b member
      split
      next here =>
        subst here
        have disk := home.resolve_left free
        exact ⟨disk, .inr disk⟩
      next => exact ⟨same, home⟩
    · rw [recycle_view]
      obtain ⟨absent, disk, shown⟩ := outside b out
      split
      next => exact ⟨absent, disk, .inr disk⟩
      next => exact ⟨absent, disk, shown⟩
  | commit =>
    refine ⟨sb, inode, fun b member => ?_, fun b out => ?_⟩
    · rw [commit_view u _ rfl]
      obtain ⟨same, home⟩ := inside b member
      refine ⟨same, .inr ?_⟩
      dsimp only
      split
      next => exact same
      next absent => exact home.resolve_left absent
    · rw [commit_view u _ rfl]
      obtain ⟨absent, disk, shown⟩ := outside b out
      exact ⟨List.not_mem_nil, (if_neg absent).trans disk, shown⟩

theorem Later.kept (later : Later s u) : Kept s u := by
  induction later with
  | refl => exact ⟨rfl, rfl, fun b member => ⟨rfl, .inl member⟩, fun b out => ⟨out, rfl, .inl rfl⟩⟩
  | tail _ step ih => exact ih.step step

/-- A block shows what it did, or what the disk held if it was not in the log. -/
theorem Later.view (later : Later s u) (b : Nat) : u.view b = s.view b ∨ b ∉ s.log ∧ u.view b = s.disk b := by
  by_cases member : b ∈ s.log
  · exact .inl (later.kept.inside b member).1
  · exact (later.kept.outside b member).2.2.imp_right fun disk => ⟨member, disk⟩

end Later

section Reads

variable {s u s' : FsState} {v : Volume} {i j b bn x off tot n fuel : Nat} {dst : Bytes}

theorem slot_congr (addrs : (u.inode i).addrs = (s.inode i).addrs) (indirect : (s.inode i).addrs NDIRECT ≠ 0 →
    u.view ((s.inode i).addrs NDIRECT) = s.view ((s.inode i).addrs NDIRECT)) : u.slot i bn = s.slot i bn := by
  unfold slot
  rw [addrs]
  split
  next => rfl
  next =>
    split
    next => rfl
    next present => rw [indirect present]

theorem contents_congr (view : u.view = s.view) (inode : u.inode = s.inode) (i : Nat) :
    u.contents i = s.contents i := by
  funext x
  unfold contents
  rw [slot_congr (by rw [inode]) fun _ => congrFun view _, view]

/-- The loop of `readi` copies what the buffers show, as long as no block is missing. -/
theorem readLoop_contents (dst : Bytes) (off : Nat) (part : tot ≤ n) (enough : n - tot ≤ fuel)
    (bound : off + (n - tot) ≤ MAXFILE * BSIZE)
    (present : ∀ x, off ≤ x → x < off + (n - tot) → s.slot i (x / BSIZE) ≠ 0) : ∃ s',
      readLoop i fuel off tot n dst s = .ok (Int.ofNat n, dst.splice tot (n - tot)
        ((s.contents i).drop off), s') := by
  have empty : ∀ (dst : Bytes) src, dst.splice tot 0 src = dst := fun dst src =>
    funext fun x => Bytes.splice_outside (by omega)
  induction fuel generalizing off tot s dst with
  | zero =>
    obtain rfl : tot = n := by omega
    exact ⟨s, by rw [Nat.sub_self, empty]; rfl⟩
  | succ fuel ih =>
    by_cases more : tot < n
    swap
    · obtain rfl : tot = n := by omega
      exact ⟨s, by rw [Nat.sub_self, empty, readLoop, if_neg more]; rfl⟩
    have positive : off % BSIZE < BSIZE := Nat.mod_lt _ (by decide)
    have small : off / BSIZE < MAXFILE := Volume.index_lt (by omega)
    have here := present off (le_refl off) (by omega)
    obtain ⟨s₁, mapped, view, inode, -⟩ := bmap_there small here
    obtain ⟨m, hm⟩ : ∃ m, m = min (n - tot) (BSIZE - off % BSIZE) := ⟨_, rfl⟩
    obtain ⟨s', rest⟩ := @ih (s₁.bread (s.slot i (off / BSIZE))).2 (tot + m)
      (dst.splice tot m ((s₁.view (s.slot i (off / BSIZE))).drop (off % BSIZE))) (off + m)
      (by omega) (by omega)
      (by omega) (fun x lower upper => by
        rw [slot_congr (s := s) (congrArg (Inode.addrs <| · i) inode) fun _ => congrFun
        ((bread_view ..).trans view) _]
        exact present x (by omega) (by omega)) (fun dst src => funext fun x =>
        Bytes.splice_outside (by omega))
    refine ⟨s', ?_⟩
    rw [readLoop, if_pos more, mapped]
    simp only [bind, Except.bind, here, if_false, ← hm]
    refine Eq.trans rest ?_
    have whole : m + (n - (tot + m)) = n - tot := by omega
    have part : (dst.splice tot m ((s₁.view (s.slot i (off / BSIZE))).drop (off % BSIZE))) =
        dst.splice tot m ((s.contents i).drop off) := by
      refine Vm.splice_congr fun x less => ?_
      rw [Bytes.drop_apply, Bytes.drop_apply, contents, view]
      obtain ⟨same, -, -, -⟩ := Volume.round_block (x := off + x) off (m := m) (by omega)
        (by omega) (by omega)
      rw [same]
      congr 1
      unfold BSIZE at *
      omega
    have later : ((s₁.bread (s.slot i (off / BSIZE))).2.contents i).drop (off + m) =
        ((s.contents i).drop off).drop m := by
      rw [contents_congr (s := s) ((bread_view ..).trans view) inode]
      funext x
      rw [Bytes.drop_apply, Bytes.drop_apply, Bytes.drop_apply, Nat.add_assoc]
    rw [part, later, Vm.splice_splice, whole]

/-- Files without holes show their contents. -/
theorem shows_contents (full : ∀ j, s.NoHoles j) (sizes : ∀ j, (s.inode j).size ≤ MAXFILE * BSIZE) :
    s.Shows (fun j => (s.inode j).size) s.contents := by
  have capacity : MAXFILE * BSIZE = 274432 := rfl
  intro j dst off n small small'
  have size := sizes j
  have empty : ∀ src, dst.splice 0 0 src = dst := fun src => funext fun x => Bytes.splice_outside (by omega)
  unfold readi
  dsimp only
  by_cases guard : (s.inode j).size < off ∨ (off + n) % 2 ^ 32 < off
  · refine ⟨0, s, ?_, (if_pos ?_).symm⟩
    · rw [if_pos guard, empty]
      rfl
    · omega
  rw [if_neg guard]
  have wide : ¬ ((s.inode j).size < off ∨ 2 ^ 32 ≤ off + n) := by omega
  rw [if_neg wide]
  have whole : (off + n) % 2 ^ 32 = off + n := Nat.mod_eq_of_lt (by omega)
  rw [whole]
  have count : (if (s.inode j).size < off + n then (s.inode j).size - off else n) =
    min n ((s.inode j).size - off) := by
    split <;> omega
  rw [count]
  obtain ⟨s', run⟩ := @readLoop_contents s j 0 (min n ((s.inode j).size - off))
    (min n ((s.inode j).size - off)) dst off
    (Nat.zero_le _) (by omega) (by omega) fun x lower upper => by
      have below : x < (s.inode j).size := by omega
      refine full j (x / BSIZE) (Volume.index_lt (by omega)) ?_
      exact lt_of_le_of_lt (Nat.div_mul_le_self x BSIZE) below
  exact ⟨min n ((s.inode j).size - off), s', run, rfl⟩

/-- Two ways to show the same file agree on its bytes. -/
theorem Shows.unique {size size' : Nat → Nat} {bytes bytes' : Nat → Bytes} (first : s.Shows size bytes)
    (second : s.Shows size' bytes') (small : x + 1 < 2 ^ 32) (below : x < size j) :
    bytes' j x = bytes j x := by
  obtain ⟨count, s₁, run, got⟩ := first j (fun _ => 0) x 1 (by omega) (by omega)
  obtain ⟨count', s₂, run', -⟩ := second j (fun _ => 0) x 1 (by omega) (by omega)
  rw [if_neg (by omega)] at got
  obtain rfl : count = 1 := by omega
  rw [run] at run'
  have both := Except.ok.inj run'
  have counts : Int.ofNat 1 = Int.ofNat count' := congrArg Prod.fst both
  obtain rfl : count' = 1 := (Int.ofNat.inj counts).symm
  have bytes := congrFun (congrArg (fun r : Int × Bytes × FsState => r.2.1) both) 0
  dsimp only at bytes
  rw [Bytes.splice_inside (by omega) (by omega), Bytes.splice_inside (by omega) (by omega)] at bytes
  exact bytes.symm

/-- Only what is below the size is read. -/
theorem Shows.congr {size size' : Nat → Nat} {bytes bytes' : Nat → Bytes} (shows' : s.Shows size bytes)
    (sizes : ∀ j, size' j = size j) (same : ∀ j x, x < size j → bytes' j x = bytes j x) :
    s.Shows size' bytes' := by
  intro j dst off n small small'
  obtain ⟨count, s', run, got⟩ := shows' j dst off n small small'
  refine ⟨count, s', ?_, by rw [sizes]; exact got⟩
  rw [run]
  have part : dst.splice 0 count ((bytes j).drop off) = dst.splice 0 count ((bytes' j).drop off) := by
    refine Vm.splice_congr fun x less => ?_
    rw [Bytes.drop_apply, Bytes.drop_apply, same]
    split at got <;> omega
  rw [part]

end Reads

end FsState

end Xv6.Buffers
