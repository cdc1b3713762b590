import Xv6.Content.Slots

namespace Xv6.Content
open Function

namespace Volume

section Data

variable {s s' : Volume} {i j off tot n bn x fuel size : Nat} {dst src : Bytes} {limit : Option Nat}

/-- The contents of an inode, byte by byte. -/
def file (s : Volume) (i : Nat) : Bytes := fun x => s.block (s.slot i (dataSlot (x / BSIZE))) (x % BSIZE)

theorem copied_le (limit : Option Nat) (tot n : Nat) : copied limit tot n ≤ n := by
  unfold copied
  split <;> omega

theorem Consistent.congr (cons : s.Consistent) (slots : ∀ j l, l < NSLOT → s'.slot j l = s.slot j l)
    (used : s'.used = s.used) (size : s'.size = s.size) (sizes : ∀ j, (s'.inode j).size ≤ MAXFILE * BSIZE) :
    s'.Consistent := by
  refine ⟨fun i l j m small small' => ?_, fun i l small => ?_, size ▸ cons.small, sizes⟩
  · rw [slots i l small, slots j m small']
    exact cons.distinct i l j m small small'
  · rw [slots i l small, used]
    exact cons.used i l small

/-- The inode and its places for blocks are untouched by a store to a data block. -/
theorem store_spec (s' : Volume) (cons : s.Consistent) (small : bn < MAXFILE) (m : Bytes)
    (inode : s'.inode = s.inode) (used : s'.used = s.used) (size : s'.size = s.size)
    (block : s'.block = update s.block (s.slot i (dataSlot bn)) m) :
    s'.Consistent ∧ Wrote i s s' ∧ (∀ j l, s'.slot j l = s.slot j l) ∧
      ∀ l < NSLOT, l ≠ dataSlot bn → s.slot i l ≠ 0 → s'.block (s.slot i l) = s.block (s.slot i l) := by
  have place := dataSlot_lt small
  have outside : ∀ j l, l < NSLOT → s.slot j l ≠ 0 → (j = i → l ≠ dataSlot bn) →
      s'.block (s.slot j l) = s.block (s.slot j l) := fun j l inside used apart => by
    rw [block, update_of_ne]
    intro same
    obtain ⟨here, there⟩ := cons.distinct j l i _ inside place same used
    exact apart here there
  have slots : ∀ j l, s'.slot j l = s.slot j l := fun j l =>
    slot_congr (by rw [inode]) fun some => outside j NDIRECT (by decide) some fun _ => (dataSlot_ne bn).symm
  refine ⟨cons.congr (fun j l _ => slots j l) used size (by rw [inode]; exact cons.sizes),
    ⟨size, by rw [inode]; exact ⟨rfl, rfl, rfl⟩, fun l _ _ => slots i l,
      fun j _ => ⟨by rw [inode], fun l _ => slots j l⟩, fun j apart l inside _ some => ?_⟩, slots,
    fun l inside apart some => outside i l inside some fun _ => apart⟩
  exact outside j l inside some fun same => absurd same apart

theorem file_store (cons : s.Consistent) (small : bn < MAXFILE) {a k : Nat}
    (slots : ∀ l, s'.slot i l = s.slot i l)
    (block : s'.block = update s.block (s.slot i (dataSlot bn))
      ((s.block (s.slot i (dataSlot bn))).splice a k src))
    (below : x / BSIZE < MAXFILE) (present : s.slot i (dataSlot (x / BSIZE)) ≠ 0) :
    s'.file i x = if x / BSIZE = bn ∧ a ≤ x % BSIZE ∧ x % BSIZE < a + k then src (x % BSIZE -
      a) else s.file i x := by
  unfold file
  rw [slots, block]
  by_cases here : x / BSIZE = bn
  · subst here
    rw [update_self]
    by_cases inside : a ≤ x % BSIZE ∧ x % BSIZE < a + k
    · rw [if_pos ⟨rfl, inside⟩, Bytes.splice_inside inside.1 inside.2]
    · rw [if_neg fun both => inside both.2, Bytes.splice_outside (by omega)]
  · rw [if_neg fun both => here both.1, update_of_ne]
    intro same
    have := (cons.distinct i _ i _ (dataSlot_lt below) (dataSlot_lt small) same present).2
    exact here (dataSlot_inj this)

/-- What `writeLoop` leaves behind when it ends at `off'` with `tot'` bytes written. -/
structure Written (i : Nat) (src : Bytes) (limit : Option Nat) (off tot n : Nat)
    (s : Volume) (off' tot' : Nat)
    (s' : Volume) : Prop where
  cons : s'.Consistent
  wrote : Wrote i s s'
  count : off' = off + (tot' - tot) ∧ tot ≤ tot' ∧ tot' ≤ n
  present : ∀ x, off ≤ x → x < off' → s'.slot i (dataSlot (x / BSIZE)) ≠ 0
  inside : limit = none → ∀ x, off ≤ x → x < off' → s'.file i x = src (tot + (x - off))
  outside : limit = none → ∀ x, x < off ∨ off' ≤ x → x / BSIZE < MAXFILE →
    s.slot i (dataSlot (x / BSIZE)) ≠ 0 → s'.file i x = s.file i x
  aligned : limit = none → tot' < n → tot' = tot ∨ off' % BSIZE = 0
  complete : limit = none → (∀ x, off ≤ x → x < off + (n - tot) → s.slot i (dataSlot (x / BSIZE)) ≠ 0) →
    tot' = n

theorem file_same (wrote : Wrote i s s') (same : Same i s s') (below : x / BSIZE < MAXFILE)
    (present : s.slot i (dataSlot (x / BSIZE)) ≠ 0) : s'.file i x = s.file i x := by
  unfold file
  rw [wrote.slots _ (dataSlot_lt below) present, same _ (dataSlot_lt below) (dataSlot_ne _) present]

theorem Written.stop (cons : s'.Consistent) (wrote : Wrote i s s') (same : Same i s s') (tot_le : tot ≤ n)
    (missing : tot < n → s.slot i (dataSlot (off / BSIZE)) = 0) :
    Written i src limit off tot n s off tot s' :=
  ⟨cons, wrote, ⟨by omega, le_refl _, tot_le⟩, fun x lower upper => by omega, fun _ x lower upper => by omega,
    fun _ x _ small present => file_same wrote same small present, fun _ _ => .inl rfl, fun _ present => by
      by_contra short
      exact present off (le_refl _) (by omega) (missing (by omega))⟩

/-- The bytes of one round are in one block. -/
theorem round_block (off : Nat) {m : Nat} (m_le : m ≤ BSIZE - off % BSIZE) (lower : off ≤ x)
    (upper : x < off + m) :
    x / BSIZE = off / BSIZE ∧ off % BSIZE ≤ x % BSIZE ∧ x % BSIZE < off % BSIZE + m ∧
      x % BSIZE - off % BSIZE = x - off := by
  unfold BSIZE at *
  omega

theorem round_apart {m : Nat} (out : x < off ∨ off + m ≤ x) :
    ¬ (x / BSIZE = off / BSIZE ∧ off % BSIZE ≤ x % BSIZE ∧ x % BSIZE < off % BSIZE + m) := by
  unfold BSIZE at *
  omega

theorem index_lt (bound : x < MAXFILE * BSIZE) : x / BSIZE < MAXFILE := by
  unfold BSIZE at *
  omega

/-- A round that copies all its bytes, and the rounds after it. -/
theorem Written.next {m off' tot' : Nat} {s₁ s₂ : Volume} {addr : Nat}
    (w : Written i src limit (off + m) (tot + m) n s₂ off' tot' s') (small : off / BSIZE < MAXFILE)
    (loaded : Loaded i (dataSlot (off / BSIZE)) s (addr, s₁)) (got : addr ≠ 0)
    (hm : m = min (n - tot) (BSIZE - off % BSIZE)) (more : tot < n)
    (bound : off + (n - tot) ≤ MAXFILE * BSIZE)
    (inode : s₂.inode = s₁.inode) (used : s₂.used = s₁.used) (size : s₂.size = s₁.size)
    (block : s₂.block = update s₁.block addr ((s₁.block addr).splice (off % BSIZE) m (src.drop tot))) :
    Written i src limit off tot n s off' tot' s' := by
  have here : s₁.slot i (dataSlot (off / BSIZE)) = addr := loaded.result got
  have positive : off % BSIZE < BSIZE := Nat.mod_lt _ (by decide)
  have block' : s₂.block = update s₁.block (s₁.slot i (dataSlot (off / BSIZE)))
      ((s₁.block (s₁.slot i (dataSlot (off / BSIZE)))).splice (off % BSIZE) m (src.drop tot)) := by
    rw [here]
    exact block
  obtain ⟨cons₂, wrote₂, slots₂, same₂⟩ := store_spec s₂ loaded.cons small _ inode used size block'
  have wrote : Wrote i s s₂ := loaded.wrote.trans wrote₂
  have at₂ : s₂.slot i (dataSlot (off / BSIZE)) ≠ 0 := by
    rw [slots₂, here]
    exact got
  have whole : ∀ x, x / BSIZE < MAXFILE → s₁.slot i (dataSlot (x / BSIZE)) ≠ 0 →
      s₂.file i x = if x / BSIZE = off / BSIZE ∧ off % BSIZE ≤ x % BSIZE ∧ x % BSIZE < off % BSIZE + m
        then src.drop tot (x % BSIZE - off % BSIZE) else s₁.file i x := fun x below present =>
    file_store loaded.cons small (fun l => slots₂ i l) block' below present
  have count := w.count
  refine ⟨w.cons, wrote.trans w.wrote, by omega, fun x lower upper => ?_,
    fun none x lower upper => ?_, fun none x out below present => ?_, fun none short => ?_,
    fun none present => ?_⟩
  · by_cases first : x < off + m
    · rw [(round_block _ (by omega) lower first).1, w.wrote.slots _ (dataSlot_lt small) at₂]
      exact at₂
    · exact w.present x (by omega) upper
  · by_cases first : x < off + m
    · obtain ⟨same, low, high, distance⟩ := round_block _ (by omega) lower first
      rw [w.outside none x (.inl first) (by rwa [same]) (by rw [same]; exact at₂),
        whole x (by rwa [same]) (by rw [same, here]; exact got), if_pos ⟨same, low, high⟩,
        Bytes.drop_apply, distance]
    · rw [w.inside none x (by omega) upper]
      congr 1
      omega
  · have present₁ : s₁.slot i (dataSlot (x / BSIZE)) ≠ 0 := by
      rw [loaded.wrote.slots _ (dataSlot_lt below) present]
      exact present
    rw [w.outside none x (by omega) below (by rw [slots₂]; exact present₁), whole x below present₁,
      if_neg (round_apart (by omega)), file_same loaded.wrote loaded.same below present]
  · rcases w.aligned none short with stopped | aligned
    · refine .inr ?_
      have end' : off' = off + (BSIZE - off % BSIZE) := by omega
      rw [end']
      unfold BSIZE
      omega
    · exact .inr aligned
  · refine w.complete none fun x lower upper => ?_
    have before := present x (by omega) (by omega)
    rw [slots₂, loaded.wrote.slots _ (dataSlot_lt (index_lt (by omega))) before]
    exact before

theorem writeLoop_spec (i : Nat) (src : Bytes) (limit : Option Nat) (off fuel : Nat) (cons : s.Consistent)
    (tot_le : tot ≤ n) (bound : off + (n - tot) ≤ MAXFILE * BSIZE)
    (enough : n - tot ≤ fuel) : ∃ off' tot' s', writeLoop i src limit fuel off tot n s =
    .ok (off', tot', s') ∧
      Written i src limit off tot n s off' tot' s' := by
  induction fuel generalizing off tot s with
  | zero => exact ⟨off, tot, s, rfl, Written.stop cons (Wrote.refl s) (fun _ _ _ _ => rfl) tot_le (by omega)⟩
  | succ fuel ih =>
    by_cases more : tot < n
    swap
    · exact ⟨off, tot, s, by rw [writeLoop, if_neg more],
        Written.stop cons (Wrote.refl s) (fun _ _ _ _ => rfl) tot_le (by omega)⟩
    have small : off / BSIZE < MAXFILE := index_lt (by omega)
    obtain ⟨⟨addr, s₁⟩, run, loaded⟩ := bmap_spec (i := i) cons small
    by_cases got : addr = 0
    · refine ⟨off, tot, s₁, ?_, Written.stop loaded.cons loaded.wrote loaded.same tot_le fun _ => ?_⟩
      · rw [writeLoop, if_pos more, run]
        simp [bind, Except.bind, got, pure, Except.pure]
      · by_contra present
        exact present ((congrArg Prod.fst (loaded.present present)).symm.trans got)
    have here : s₁.slot i (dataSlot (off / BSIZE)) = addr := loaded.result got
    obtain ⟨m, hm⟩ : ∃ m, m = min (n - tot) (BSIZE - off % BSIZE) := ⟨_, rfl⟩
    have positive : off % BSIZE < BSIZE := Nat.mod_lt _ (by decide)
    set s₂ : Volume := { s₁ with
      block := update s₁.block addr ((s₁.block addr).splice (off % BSIZE) (copied limit tot m)
      (src.drop tot)) } with hs₂
    have path : writeLoop i src limit (fuel + 1) off tot n s =
        if copied limit tot m < m then .ok (off, tot, s₂)
        else writeLoop i src limit fuel (off + m) (tot + m) n s₂.logWrite := by
      rw [writeLoop, if_pos more, run]
      simp only [bind, Except.bind, got, if_false, ← hm]
      rfl
    rw [path]
    have block : s₂.block = update s₁.block (s₁.slot i (dataSlot (off / BSIZE)))
        ((s₁.block (s₁.slot i (dataSlot (off / BSIZE)))).splice (off % BSIZE) (copied limit tot m)
          (src.drop tot)) := by
      rw [here]
    obtain ⟨cons₂, wrote₂, -, -⟩ := store_spec s₂ loaded.cons small _ rfl rfl rfl block
    by_cases fault : copied limit tot m < m
    · refine ⟨off, tot, s₂, if_pos fault, cons₂, loaded.wrote.trans wrote₂, ⟨by omega, le_refl _, tot_le⟩,
        fun x lower upper => by omega, fun none => ?_, fun none => ?_, fun _ _ => .inl rfl, fun none => ?_⟩
      all_goals simp [none, copied] at fault
    rw [if_neg fault]
    have all : copied limit tot m = m := (copied_le limit tot m).antisymm (Nat.le_of_not_lt fault)
    have logged : s₂.logWrite.Consistent := cons₂.congr (fun _ _ _ => rfl) rfl rfl cons₂.sizes
    obtain ⟨off', tot', s', rest, w⟩ := ih (off + m) logged (by omega : tot + m ≤ n) (by omega) (by omega)
    refine ⟨off', tot', s', rest, w.next small loaded got hm more bound rfl rfl rfl ?_⟩
    rw [← all]
    rfl

end Data

end Volume

end Xv6.Content
