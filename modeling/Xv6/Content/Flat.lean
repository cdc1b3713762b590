import Xv6.Content.Holes

namespace Xv6.Content
open Function

/-! ### Flat byte arrays -/

/-- Replace the bytes of an array from `off` on by others, past its end if need be. -/
def overwrite (A : List UInt8) (off : Nat) (data : List UInt8) : List UInt8 :=
  A.take off ++ data ++ A.drop (off + data.length)

section Flat

variable {f g : Nat → UInt8} {size off n t : Nat}

theorem overwrite_length {A data : List UInt8} (inside : off ≤ A.length) :
    (overwrite A off data).length = max A.length (off + data.length) := by
  simp only [overwrite, List.length_append, List.length_take, List.length_drop]
  omega

/-- The bytes that are read from an array. -/
theorem range_slice : (((List.range size).map f).drop off).take n =
    (List.range (min (off + n) size - off)).map fun x => f (off + x) := by
  refine List.ext_getElem ?_ fun x before after => ?_
  · simp only [List.length_take, List.length_drop, List.length_map, List.length_range]
    omega
  · simp

theorem range_overwrite (inside : off ≤ size) :
    overwrite ((List.range size).map f) off ((List.range t).map g) =
    (List.range (max size (off + t))).map fun x => if off ≤ x ∧ x < off + t then g (x - off) else f x := by
  refine List.ext_getElem ?_ fun x before after => ?_
  · rw [overwrite_length (by simpa using inside)]
    simp
  · have bound : x < max size (off + t) := by simpa using after
    simp only [overwrite, List.getElem_append, List.getElem_map, List.getElem_range, List.length_append,
      List.length_take, List.length_map, List.length_range, List.getElem_take, List.getElem_drop]
    split
    next low =>
      split
      next first => rw [if_neg (by omega)]
      next second =>
        rw [if_pos (by omega)]
        congr 1
        omega
    next high =>
      rw [if_neg (by omega)]
      congr 1
      omega

end Flat

/-! ### What is done with the contents of inodes -/

inductive ContentOp where
  | readi (i : Nat) (off n : UInt32)
  | writei (i : Nat) (src : Bytes) (off n : UInt32)
  | itrunc (i : Nat)

/-- The inode that an operation is about. -/
def ContentOp.ip : ContentOp → Nat
  | .readi i _ _ => i
  | .writei i _ _ _ => i
  | .itrunc i => i

/-- What an operation returns, for `readi` with the memory that it has copied to. -/
inductive Answer where
  | read (r : Int) (dst : Bytes)
  | wrote (r : Int)
  | truncated

def ContentOp.run (s : Volume) : ContentOp → Except String (Answer × Volume)
  | .readi i off n => do
    let (r, dst, s) ← s.readi i (fun _ => 0) none off.toNat n.toNat
    return (.read r dst, s)
  | .writei i src off n => do
    let (r, s) ← s.writei i src none off.toNat n.toNat
    return (.wrote r, s)
  | .itrunc i => do return (.truncated, ← s.itrunc i)

def ContentOp.runs : List ContentOp → Volume → Except String (List Answer × Volume)
  | [], s => .ok ([], s)
  | op :: rest, s => do
    let (answer, s) ← op.run s
    let (answers, s) ← ContentOp.runs rest s
    return (answer :: answers, s)

/-- `readi` is not asked for bytes past the range of its offsets. -/
def ContentOp.InRange : ContentOp → Prop
  | .readi _ off n => off.toNat + n.toNat < 2 ^ 32
  | _ => True

/-- What an operation does with a byte array. -/
def FlatStep (A : List UInt8) : ContentOp → Answer → List UInt8 → Prop
  | .readi _ off n, .read r dst, A' =>
    A' = A ∧ 0 ≤ r ∧ (List.range r.toNat).map dst = (A.drop off.toNat).take n.toNat
  | .writei _ src off n, .wrote r, A' =>
    r = -1 ∧ A' = A ∨
      ∃ tot : Nat, r = tot ∧ tot ≤ n.toNat ∧ off.toNat ≤ A.length ∧
        A' = overwrite A off.toNat ((List.range tot).map src)
  | .itrunc _, .truncated, A' => A' = []
  | _, _, _ => False

/-- Operations on a byte array for each inode: each one touches that of its own inode only. -/
inductive FlatRuns : (Nat → List UInt8) → List ContentOp → List Answer → (Nat → List UInt8) → Prop
  | nil {F} : FlatRuns F [] [] F
  | cons {F F' op answer rest answers A} : FlatStep (F op.ip) op answer A →
      FlatRuns (update F op.ip A) rest answers F' → FlatRuns F (op :: rest) (answer :: answers) F'

namespace Volume

/-- The bytes of an inode up to its size. -/
def contents (s : Volume) (i : Nat) : List UInt8 := (List.range (s.inode i).size).map (s.file i)

section Contents

variable {s s' : Volume} {i j off n : Nat} {src dst : Bytes}

@[simp] theorem contents_length (s : Volume) (i : Nat) : (s.contents i).length = (s.inode i).size := by
  simp [contents]

theorem contents_congr (size : (s'.inode j).size = (s.inode j).size)
    (bytes : ∀ x < (s.inode j).size, s'.file j x = s.file j x) : s'.contents j = s.contents j := by
  unfold contents
  rw [size]
  exact List.map_congr_left fun x below => bytes x (List.mem_range.mp below)

theorem NoHoles.present (full : s.NoHoles j) {x : Nat} (below : x < (s.inode j).size) :
    x / BSIZE < MAXFILE ∧ s.slot j (dataSlot (x / BSIZE)) ≠ 0 :=
  full (x / BSIZE) (by have := Nat.div_mul_le_self x BSIZE; omega)

theorem readi_contents (dst : Bytes) (cons : s.Consistent) (full : s.NoHoles i) (range : off + n < 2 ^ 32) :
    ∃ (r : Nat) (dst' : Bytes), s.readi i dst none off n = .ok ((r : Int), dst', s) ∧
      (List.range r).map dst' = ((s.contents i).drop off).take n := by
  have size := cons.sizes i
  rw [contents, range_slice]
  unfold readi
  simp only [Nat.mod_eq_of_lt range]
  by_cases past : (s.inode i).size < off
  · refine ⟨0, dst, by rw [if_pos (.inl past)]; rfl, ?_⟩
    rw [show min (off + n) (s.inode i).size - off = 0 by omega]
    rfl
  rw [if_neg (by omega)]
  obtain ⟨count, eq⟩ : ∃ c, c = if (s.inode i).size < off + n then (s.inode i).size - off else n := ⟨_, rfl⟩
  rw [← eq]
  have bound : count = min (off + n) (s.inode i).size - off := by split at eq <;> omega
  obtain ⟨r, dst', s', run, _, _, _, whole⟩ := readLoop_spec i none dst off count cons (Nat.zero_le count)
    (by omega) (le_refl _)
  obtain ⟨rfl, read⟩ := whole fun x _ below => (full.present (by omega)).2
  refine ⟨count, dst', by rw [run, read.result rfl], ?_⟩
  rw [← bound]
  refine List.map_congr_left fun x below => ?_
  rw [read.inside rfl x (Nat.zero_le x) (List.mem_range.mp below)]
  rfl

/-- What happens to one inode leaves the bytes of the others alone. -/
theorem Wrote.contents (wrote : Wrote i s s') (apart : j ≠ i) (full : s.NoHoles j) :
    s'.contents j = s.contents j := by
  obtain ⟨inode, slots⟩ := wrote.others j apart
  refine contents_congr (by rw [inode]) fun x below => ?_
  obtain ⟨small, present⟩ := full.present below
  unfold file
  rw [slots _ (dataSlot_lt small), wrote.blocks j apart _ (dataSlot_lt small) (dataSlot_ne _) present]

theorem setSize_contents (apart : j ≠ i) : (s.setSize i n).contents j = s.contents j :=
  contents_congr (by rw [setSize_other apart]) fun x _ => setSize_file s i n j x

theorem Written.contents {off' tot : Nat} (full : s.NoHoles i)
    (written : Written i src none off 0 n s off' tot s') (inside : off ≤ (s.inode i).size) :
    (s'.setSize i (max (s.inode i).size off')).contents i =
      overwrite (s.contents i) off ((List.range tot).map src) := by
  have count := written.count
  rw [Volume.contents, Volume.contents, range_overwrite inside, setSize_size, show off' = off + tot by omega]
  refine List.map_congr_left fun x below => ?_
  have below := List.mem_range.mp below
  rw [setSize_file]
  by_cases new : off ≤ x ∧ x < off + tot
  · rw [if_pos new, written.inside rfl x new.1 (by omega)]
    congr 1
    omega
  · rw [if_neg new]
    obtain ⟨small, present⟩ := full.present (x := x) (by omega)
    exact written.outside rfl x (by omega) small present

theorem Truncated.contents (truncated : Truncated i s s') : s'.contents i = [] := by
  rw [Volume.contents, truncated.fields.2.2]
  rfl

theorem Truncated.contents_other (truncated : Truncated i s s') (apart : j ≠ i) :
    s'.contents j = s.contents j := by
  obtain ⟨inode, slots⟩ := truncated.others j apart
  refine contents_congr (by rw [inode]) fun x _ => ?_
  unfold file
  rw [slots, truncated.block]

end Contents

end Volume

section Runs

open Volume

variable {s s' : Volume}

/-- One operation does to the bytes of the inodes what it does to a byte array. -/
theorem ContentOp.run_flat (cons : s.Consistent) (full : ∀ i, s.NoHoles i) (op : ContentOp)
    (range : op.InRange) :
    ∃ answer s' A, op.run s = .ok (answer, s') ∧ Safe s s' ∧ FlatStep (s.contents op.ip) op answer A ∧
      s'.contents = update s.contents op.ip A := by
  cases op with
  | readi i off n =>
    obtain ⟨r, dst, run, read⟩ := readi_contents (fun _ => 0) cons (full i) range
    refine ⟨.read r dst, s, s.contents i, ?_, Safe.refl cons, ⟨rfl, Int.natCast_nonneg r, read⟩,
      (update_eq_self i _).symm⟩
    simp only [ContentOp.run, run, bind, Except.bind]
    rfl
  | writei i src off n =>
    obtain ⟨r, s', run, same | ⟨off', tot, s₁, rfl, inside, fits, written, rfl⟩⟩ :=
      writei_spec i src none off.toNat cons n.toNat_lt
    · obtain ⟨rfl, rfl, _⟩ := same
      refine ⟨.wrote (-1), s', s'.contents i, ?_, Safe.refl cons, .inl ⟨rfl, rfl⟩, (update_eq_self i _).symm⟩
      simp only [ContentOp.run, run, bind, Except.bind]
      rfl
    · refine ⟨.wrote tot, _, _, ?_, written.safe cons inside fits,
        .inr ⟨tot, rfl, written.count.2.2, by rwa [contents_length], rfl⟩, funext fun j => ?_⟩
      · simp only [ContentOp.run, run, bind, Except.bind]
        rfl
      · by_cases same : j = i
        · subst same
          exact (written.contents (full j) inside).trans (update_self j _ s.contents).symm
        · refine (setSize_contents same).trans ((written.wrote.contents same (full j)).trans ?_)
          exact (update_of_ne same ..).symm
  | itrunc i =>
    obtain ⟨s', run, truncated⟩ := itrunc_spec (i := i) cons
    refine ⟨.truncated, s', [], ?_, ⟨truncated.cons, fun j => truncated.noHoles⟩, rfl, funext fun j => ?_⟩
    · simp only [ContentOp.run, run, bind, Except.bind]
      rfl
    · by_cases same : j = i
      · subst same
        exact truncated.contents.trans (update_self j _ s.contents).symm
      · exact (truncated.contents_other same).trans (update_of_ne same ..).symm

end Runs

/-- Where no block has two places and no inode a hole, the bytes of the inodes behave like one flat byte array
for each inode, as long as its size, whatever is read, written and truncated: also if the disk runs out of
blocks. -/
theorem contents_flat {s : Volume} (cons : s.Consistent) (full : ∀ i, s.NoHoles i) (ops : List ContentOp)
    (range : ∀ op ∈ ops, op.InRange) : ∃ answers s', ContentOp.runs ops s = .ok (answers, s') ∧
      FlatRuns s.contents ops answers s'.contents ∧ ∀ i, (s'.contents i).length = (s'.inode i).size := by
  induction ops generalizing s with
  | nil => exact ⟨[], s, rfl, .nil, s.contents_length⟩
  | cons op rest ih =>
    obtain ⟨answer, s₁, A, run, safe, step, now⟩ := op.run_flat cons full (range op List.mem_cons_self)
    obtain ⟨answers, s', runs, flat, length⟩ := ih safe.cons (fun i => safe.noHoles i (full i))
      fun op member => range op (List.mem_cons_of_mem _ member)
    refine ⟨answer :: answers, s', ?_, .cons step (now ▸ flat), length⟩
    simp only [ContentOp.runs, run, runs, bind, Except.bind]
    rfl

/-- Three blocks are written to an empty file, and read across the end of one of them. -/
theorem contents_flat_write : ∃ answers s',
    ContentOp.runs [.writei 5 (fun x => UInt8.ofNat x) 0 3000, .readi 5 1000 100, .itrunc 5] emptyVolume =
      .ok (answers, s') ∧
    FlatRuns emptyVolume.contents [.writei 5 (fun x => UInt8.ofNat x) 0 3000, .readi 5 1000 100,
      .itrunc 5] answers
      s'.contents ∧ ∀ i, (s'.contents i).length = (s'.inode i).size :=
  contents_flat emptyVolume_consistent emptyVolume_noHoles _ (by simp [ContentOp.InRange])

end Xv6.Content
