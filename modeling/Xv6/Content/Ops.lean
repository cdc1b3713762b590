import Xv6.Content.Data

namespace Xv6.Content
open Function

namespace Volume

section Ops

variable {s s' : Volume} {i j k off tot n bn x fuel size : Nat} {dst src : Bytes} {limit : Option Nat}

/-- A step that leaves all contents consistent and every inode without holes so. -/
structure Safe (s s' : Volume) : Prop where
  cons : s'.Consistent
  noHoles : ∀ i, s.NoHoles i → s'.NoHoles i

theorem Safe.refl (cons : s.Consistent) : Safe s s := ⟨cons, fun _ full => full⟩

theorem Safe.trans {s'' : Volume} (first : Safe s s') (second : Safe s' s'') : Safe s s'' :=
  ⟨second.cons, fun i full => second.noHoles i (first.noHoles i full)⟩

/-! ### Reading -/

/-- What `readLoop` answers where the blocks are there. -/
structure Read (i : Nat) (limit : Option Nat) (off tot n : Nat) (dst : Bytes) (s : Volume)
    (r : Int) (dst' : Bytes) :
    Prop where
  result : limit = none → r = n
  inside : limit = none → ∀ x, tot ≤ x → x < n → dst' x = s.file i (off + (x - tot))
  outside : limit = none → ∀ x, x < tot ∨ n ≤ x → dst' x = dst x

theorem readLoop_spec (i : Nat) (limit : Option Nat) (dst : Bytes) (off fuel : Nat) (cons : s.Consistent)
    (tot_le : tot ≤ n) (bound : off + (n - tot) ≤ MAXFILE * BSIZE)
    (enough : n - tot ≤ fuel) : ∃ r dst' s', readLoop i limit fuel off tot n dst s = .ok (r, dst', s') ∧
      s'.Consistent ∧ Wrote i s s' ∧ Same i s s' ∧
      ((∀ x, off ≤ x → x < off + (n - tot) → s.slot i (dataSlot (x / BSIZE)) ≠ 0) →
        s' = s ∧ Read i limit off tot n dst s r dst') := by
  induction fuel generalizing off tot s dst with
  | zero =>
    have done : tot = n := by omega
    subst done
    exact ⟨tot, dst, s, rfl, cons, Wrote.refl s, fun _ _ _ _ => rfl, fun _ => ⟨rfl, fun _ => rfl,
      fun _ x lower upper => by omega, fun _ _ _ => rfl⟩⟩
  | succ fuel ih =>
    by_cases more : tot < n
    swap
    · have done : tot = n := by omega
      subst done
      exact ⟨tot, dst, s, by rw [readLoop, if_neg more], cons, Wrote.refl s, fun _ _ _ _ => rfl,
        fun _ => ⟨rfl, fun _ => rfl, fun _ x lower upper => by omega, fun _ _ _ => rfl⟩⟩
    have small : off / BSIZE < MAXFILE := index_lt (by omega)
    obtain ⟨⟨addr, s₁⟩, run, loaded⟩ := bmap_spec (i := i) cons small
    have whole : (∀ x, off ≤ x → x < off + (n - tot) → s.slot i (dataSlot (x / BSIZE)) ≠ 0) →
        addr = s.slot i (dataSlot (off / BSIZE)) ∧ s₁ = s ∧ addr ≠ 0 := fun full => by
      have present := full off (le_refl _) (by omega)
      have eq := loaded.present present
      exact ⟨congrArg Prod.fst eq, congrArg Prod.snd eq, by rwa [show addr = _ from congrArg Prod.fst eq]⟩
    by_cases got : addr = 0
    · refine ⟨tot, dst, s₁, ?_, loaded.cons, loaded.wrote, loaded.same, fun full =>
        absurd got (whole full).2.2⟩
      rw [readLoop, if_pos more, run]
      simp [bind, Except.bind, got, pure, Except.pure]
    obtain ⟨m, hm⟩ : ∃ m, m = min (n - tot) (BSIZE - off % BSIZE) := ⟨_, rfl⟩
    have positive : off % BSIZE < BSIZE := Nat.mod_lt _ (by decide)
    set dst₁ := dst.splice tot (copied limit tot m) ((s₁.block addr).drop (off % BSIZE)) with hd
    have path : readLoop i limit (fuel + 1) off tot n dst s =
        if copied limit tot m < m then .ok (-1, dst₁, s₁)
        else readLoop i limit fuel (off + m) (tot + m) n dst₁ s₁ := by
      rw [readLoop, if_pos more, run]
      simp only [bind, Except.bind, got, if_false, ← hm]
      rfl
    rw [path]
    by_cases fault : copied limit tot m < m
    · refine ⟨-1, dst₁, s₁, if_pos fault, loaded.cons, loaded.wrote, loaded.same, fun full =>
        ⟨(whole full).2.1, ?_⟩⟩
      have faulty : limit ≠ none := fun none => by simp [none, copied] at fault
      exact ⟨fun none => absurd none faulty, fun none => absurd none faulty, fun none => absurd none faulty⟩
    rw [if_neg fault]
    obtain ⟨r, dst', s', rest, cons', wrote, same, found⟩ :=
      ih dst₁ (off + m) loaded.cons (by omega : tot + m ≤ n) (by omega) (by omega)
    refine ⟨r, dst', s', rest, cons', loaded.wrote.trans wrote, Same.trans loaded.wrote loaded.same
      same, fun full => ?_⟩
    obtain ⟨value, rfl, _⟩ := whole full
    obtain ⟨kept, read⟩ := found fun x lower upper => full x (by omega) (by omega)
    refine ⟨kept, read.result, fun none x lower upper => ?_, fun none x out => ?_⟩
    · by_cases first : x < tot + m
      · have all : copied limit tot m = m := by simp [none, copied]
        obtain ⟨block, low, high, distance⟩ := round_block off (x := off + (x - tot)) (m := m) (by omega)
          (by omega) (by omega)
        rw [read.outside none x (.inl first), hd, all, Bytes.splice_inside lower first,
          Bytes.drop_apply, file, block,
          value]
        congr 1
        omega
      · rw [read.inside none x (by omega) upper]
        congr 1
        omega
    · have all : copied limit tot m = m := by simp [none, copied]
      rw [read.outside none x (by omega), hd, all, Bytes.splice_outside (by omega)]

theorem readi_spec (i : Nat) (dst : Bytes) (limit : Option Nat) (off : Nat) (cons : s.Consistent)
    (small : n < 2 ^ 32) : ∃ r dst' s', s.readi i dst limit off n = .ok (r, dst', s') ∧
    Safe s s' ∧ Wrote i s s' ∧ (s.NoHoles i → s' = s) := by
  have size := cons.sizes i
  have capacity : MAXFILE * BSIZE < 2 ^ 32 := by decide
  unfold readi
  simp only
  by_cases guard : (s.inode i).size < off ∨ (off + n) % 2 ^ 32 < off
  · exact ⟨0, dst, s, if_pos guard, Safe.refl cons, Wrote.refl s, fun _ => rfl⟩
  rw [if_neg guard]
  obtain ⟨count, bound⟩ : ∃ c, c = if (s.inode i).size < (off + n) % 2 ^ 32 then (s.inode
    i).size - off else n := ⟨_, rfl⟩
  rw [← bound]
  have inside : off + count ≤ (s.inode i).size := by split at bound <;> omega
  obtain ⟨r, dst', s', run, cons', wrote, _, full⟩ :=
    readLoop_spec i limit dst off count cons (Nat.zero_le count)
    (by omega) (by omega)
  refine ⟨r, dst', s', run, ⟨cons', fun j => wrote.noHoles⟩, wrote, fun noHoles =>
    (full fun x lower upper => ?_).1⟩
  exact (noHoles _ (by have := Nat.div_mul_le_self x BSIZE; omega)).2

/-- Reading inside a file whose blocks are there. -/
theorem readi_inside (dst : Bytes) (off : Nat) (cons : s.Consistent) (fits : off + n ≤ (s.inode i).size)
    (present : ∀ x, off ≤ x → x < off + n → s.slot i (dataSlot (x / BSIZE)) ≠ 0) :
    ∃ dst', s.readi i dst none off n = .ok ((n : Int), dst', s) ∧ ∀ x < n, dst' x = s.file i (off + x) := by
  have size := cons.sizes i
  have capacity : MAXFILE * BSIZE < 2 ^ 32 := by decide
  have sum : (off + n) % 2 ^ 32 = off + n := Nat.mod_eq_of_lt (by omega)
  obtain ⟨r, dst', s', run, _, _, _, full⟩ :=
    readLoop_spec i none dst off n cons (Nat.zero_le n) (by omega) (by omega)
  obtain ⟨rfl, read⟩ := full (by simpa using present)
  refine ⟨dst', ?_, fun x below => ?_⟩
  · unfold readi
    simp only [sum]
    rw [if_neg (by omega), if_neg (by omega), run, read.result rfl]
  · simpa using read.inside rfl x (Nat.zero_le x) below

/-! ### Writing -/

@[simp] theorem setSize_size (s : Volume) (i size : Nat) : ((s.setSize i size).inode i).size = size := by
  simp [setSize, setInode, logWrite]

theorem setSize_other (apart : j ≠ i) : (s.setSize i size).inode j = s.inode j := by
  simp [setSize, setInode, logWrite, apart]

theorem setSize_slot (s : Volume) (i size j l : Nat) : (s.setSize i size).slot j l = s.slot j l := by
  refine slot_congr ?_ fun _ => rfl
  by_cases same : j = i
  · subst same
    simp [setSize, setInode, logWrite]
  · rw [setSize_other same]

theorem setSize_file (s : Volume) (i size j x : Nat) : (s.setSize i size).file j x = s.file j x := by
  unfold file
  rw [setSize_slot]
  rfl

theorem setSize_consistent (cons : s.Consistent) (fits : size ≤ MAXFILE * BSIZE) :
    (s.setSize i size).Consistent := by
  refine cons.congr (fun j l _ => setSize_slot s i size j l) rfl rfl fun j => ?_
  by_cases same : j = i
  · subst same
    rwa [setSize_size]
  · rw [setSize_other same]
    exact cons.sizes j

theorem writei_spec (i : Nat) (src : Bytes) (limit : Option Nat) (off : Nat) (cons : s.Consistent)
    (small : n < 2 ^ 32) : ∃ r s', s.writei i src limit off n = .ok (r, s') ∧
    (r = -1 ∧ s' = s ∧ ((s.inode i).size < off ∨ MAXFILE * BSIZE < off + n) ∨
      ∃ (off' tot' : Nat) (s₁ : Volume), r = (tot' : Int) ∧ off ≤ (s.inode i).size ∧
      off + n ≤ MAXFILE * BSIZE ∧
        Written i src limit off 0 n s off' tot' s₁ ∧ s' = s₁.setSize i (max (s.inode i).size off')) := by
  have size := cons.sizes i
  have capacity : MAXFILE * BSIZE < 2 ^ 32 := by decide
  unfold writei
  by_cases guard : (s.inode i).size < off ∨ (off + n) % 2 ^ 32 < off
  · exact ⟨-1, s, if_pos guard, .inl ⟨rfl, rfl, by omega⟩⟩
  rw [if_neg guard]
  by_cases large : MAXFILE * BSIZE < (off + n) % 2 ^ 32
  · exact ⟨-1, s, if_pos large, .inl ⟨rfl, rfl, by omega⟩⟩
  rw [if_neg large]
  have fits : off + n ≤ MAXFILE * BSIZE := by omega
  obtain ⟨off', tot', s₁, run, written⟩ := writeLoop_spec i src limit off n cons
    (Nat.zero_le n) (by omega) (by omega)
  refine ⟨tot', s₁.setSize i (max (s.inode i).size off'), ?_,
    .inr ⟨off', tot', s₁, rfl, by omega, fits, written, rfl⟩⟩
  simp only [run, bind, Except.bind, written.wrote.fields.2.2]
  rfl

theorem Written.safe {off' tot' : Nat} (cons : s.Consistent)
    (written : Written i src limit off 0 n s off' tot' s')
    (at_most : off ≤ (s.inode i).size) (fits : off + n ≤ MAXFILE * BSIZE) :
    Safe s (s'.setSize i (max (s.inode i).size off')) := by
  have size := cons.sizes i
  have count := written.count
  refine ⟨setSize_consistent written.cons (by omega), fun j full bn below => ?_⟩
  rw [setSize_slot]
  by_cases same : j = i
  · subst same
    rw [setSize_size] at below
    by_cases old : bn * BSIZE < (s.inode j).size
    · obtain ⟨small, present⟩ := full bn old
      exact ⟨small, by rwa [written.wrote.slots _ (dataSlot_lt small) present]⟩
    · have index : bn * BSIZE / BSIZE = bn := Nat.mul_div_cancel bn (by decide)
      have present := written.present (bn * BSIZE) (by omega) (by omega)
      rw [index] at present
      exact ⟨index ▸ index_lt (by omega), present⟩
  · rw [setSize_other same] at below
    exact written.wrote.noHoles full bn below

theorem writei_safe (i : Nat) (src : Bytes) (limit : Option Nat) (off : Nat) (cons : s.Consistent)
    (small : n < 2 ^ 32) :
    ∃ r s', s.writei i src limit off n = .ok (r, s') ∧ Safe s s' := by
  obtain ⟨r, s', run, ⟨_, rfl, _⟩ | ⟨off', tot', s₁, _, at_most, fits, written, rfl⟩⟩ :=
    writei_spec i src limit off cons small
  · exact ⟨r, s', run, Safe.refl cons⟩
  · exact ⟨r, _, run, written.safe cons at_most fits⟩

end Ops

end Volume

end Xv6.Content
