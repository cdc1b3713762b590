import Xv6.Mkfs.Building

namespace Xv6.Mkfs
open Function Content

section Append

variable {s s' : MkfsState} {din : Bytes} {i x off n m fuel : Nat} {v v' : Volume} {p : Bytes}

/-! ### Counting blocks -/

theorem blocks_mono {a b : Nat} (le : a ≤ b) : blocks a ≤ blocks b := by
  unfold blocks NDIRECT BSIZE
  split <;> split <;> omega

/-- The blocks that a round takes. -/
theorem blocks_round (positive : 0 < m) (inside : off + m ≤ (off / BSIZE + 1) * BSIZE) :
    blocks (off + m) = blocks off + (if off / BSIZE * BSIZE < off then 0 else 1) +
      (if off ≤ NDIRECT * BSIZE ∧ NDIRECT ≤ off / BSIZE then 1 else 0) := by
  unfold blocks NDIRECT BSIZE at *
  split <;> split <;> split <;> split <;> omega

/-! ### The loop of `iappend` -/

/-- What `appendLoop` leaves behind after the last `n` bytes from `off` on. -/
structure Appended (i : Nat) (p : Bytes) (off n : Nat) (s : MkfsState) (v : Volume)
    (off' : Nat) (s' : MkfsState)
    (v' : Volume) : Prop where
  building : Building s' v'
  wrote : Volume.Wrote i v v'
  low : ∀ b < nmeta, s'.image b = s.image b
  freeinode : s'.freeinode = s.freeinode
  offset : off' = off + n
  fits : off + n ≤ MAXFILE * BSIZE
  exact' : Exact v' i (off + n)
  freeblock : s'.freeblock + blocks off = s.freeblock + blocks (off + n)
  bound : s'.freeblock ≤ FSSIZE
  inside : ∀ x, off ≤ x → x < off + n → v'.file i x = p (x - off)
  before : ∀ x < off, v'.file i x = v.file i x

/-- There is no room for `n` bytes more at `off`. -/
def NoRoom (off n : Nat) (s : MkfsState) : Prop :=
  MAXFILE * BSIZE < off + n ∨ FSSIZE + blocks off < s.freeblock + blocks (off + n)

theorem Exact.missing (ex : Exact v i off) {bn : Nat} (small : bn < MAXFILE) :
    v.slot i (dataSlot bn) = 0 ↔ ¬ bn * BSIZE < off := by
  rw [← ex.data bn small, not_not]

theorem Exact.counted (ex : Exact v i off) (small : off / BSIZE < MAXFILE) (positive : 0 < m)
    (inside : off + m ≤ (off / BSIZE + 1) * BSIZE) : blocks (off + m) = blocks off +
      (if v.slot i (dataSlot (off / BSIZE)) = 0 then 1 else 0) +
      (if v.slot i NDIRECT = 0 ∧ NDIRECT ≤ off / BSIZE then 1 else 0) := by
  have absent : v.slot i NDIRECT = 0 ↔ off ≤ NDIRECT * BSIZE := by
    rw [← Nat.not_lt, ← ex.indirect, not_not]
  rw [blocks_round positive inside, if_congr (ex.missing small) rfl rfl]
  simp only [absent, ite_not]

/-- A store to a data block of the inode that is being appended to. -/
theorem Building.stored {fbn a k : Nat} (b : Building s (s.volume i din)) (small : fbn < MAXFILE)
    (place : (s.volume i din).slot i (dataSlot fbn) = x) (got : x ≠ 0) {src : Bytes}
    (eq : s' = s.wsect x ((s.image x).splice a k src)) : Building s' (s'.volume i din) ∧
      Volume.Wrote i (s.volume i din) (s'.volume i din) ∧ (∀ c < nmeta, s'.image c = s.image c) ∧
      (∀ j l, (s'.volume i din).slot j l = (s.volume i din).slot j l) ∧
      ∀ y, y / BSIZE < MAXFILE → (s.volume i din).slot i (dataSlot (y / BSIZE)) ≠ 0 →
      (s'.volume i din).file i y =
        if y / BSIZE = fbn ∧ a ≤ y % BSIZE ∧ y % BSIZE < a + k then src (y % BSIZE -
          a) else (s.volume i din).file i y := by
  have far := b.low i _ (dataSlot_lt small) (by rwa [place])
  rw [place] at far
  have used := volume_used.mp (b.cons.used i _ (dataSlot_lt small) (by rwa [place]))
  rw [place] at used
  have other : ∀ c, c ≠ x → s'.image c = s.image c := fun c apart => by
    rw [eq]
    exact update_of_ne apart _ _
  have counters : s'.freeblock = s.freeblock := by
    rw [eq]
    rfl
  have inode : (s'.volume i din).inode = (s.volume i din).inode := by
    have same : ∀ j, j < NINODES → s'.inodeAt j = s.inodeAt j := fun j inside => by
      have low := IBLOCK_lt inside
      have := bmapstart_lt
      unfold MkfsState.inodeAt
      rw [other _ (by omega)]
    simp only [MkfsState.volume]
    congr 1
    funext j
    split
    · next inside => rw [same j inside]
    · rfl
  have block : (s'.volume i din).block = update (s.volume i din).block
      ((s.volume i din).slot i (dataSlot fbn))
      (((s.volume i din).block ((s.volume i din).slot i (dataSlot fbn))).splice a k src) := by
    rw [place, eq]
    rfl
  obtain ⟨cons, wrote, slots, _⟩ := Volume.store_spec (s'.volume i din) b.cons small _ inode
    (by simp only [MkfsState.volume, counters]) rfl block
  have above := b.above
  refine ⟨⟨cons, fun c least => ?_, fun j l inside present => ?_, fun c low high => ?_,
    by omega, by have := b.bound; omega⟩,
    wrote, fun c low => other c (by omega), slots, fun y below present =>
      Volume.file_store b.cons small (fun l => slots i l) block below present⟩
  · rw [counters] at least
    rw [other c (by omega)]
    exact b.zero c least
  · rw [slots] at present ⊢
    exact b.low j l inside present
  · obtain ⟨j, l, inside, value⟩ := b.all c low (by omega)
    exact ⟨j, l, inside, by rw [slots, value]⟩

theorem Appended.none (b : Building s v) (bound : s.freeblock ≤ FSSIZE) (ex : Exact v i off)
    (at_most : off ≤ MAXFILE * BSIZE) : Appended i p off 0 s v off s v where
  building := b
  wrote := Volume.Wrote.refl v
  low _ _ := rfl
  freeinode := rfl
  offset := rfl
  fits := by rwa [Nat.add_zero]
  exact' := ex
  freeblock := rfl
  bound := bound
  inside x lower upper := by omega
  before _ _ := rfl

theorem appendLoop_spec (s : MkfsState) (din : Bytes) (i off n fuel : Nat) (p : Bytes)
    (b : Building s (s.volume i din)) (bound : s.freeblock ≤ FSSIZE)
    (ex : Exact (s.volume i din) i off) (at_most : off ≤ MAXFILE * BSIZE) (enough : n ≤ fuel) :
    match MkfsState.appendLoop fuel din off p n s with
    | .ok (din', off', s') => Appended i p off n s (s.volume i din) off' s' (s'.volume i din')
    | .error _ => NoRoom off n s := by
  induction fuel generalizing off p n s din with
  | zero =>
    have none : n = 0 := by omega
    subst none
    exact Appended.none b bound ex at_most
  | succ fuel ih =>
    rw [MkfsState.appendLoop]
    by_cases more : 0 < n
    swap
    · have none : n = 0 := by omega
      subst none
      rw [if_neg more]
      exact Appended.none b bound ex at_most
    rw [if_pos more]
    simp only
    by_cases large : MAXFILE ≤ off / BSIZE
    · rw [if_pos large]
      have beyond := Nat.mul_le_mul_right BSIZE large
      have := Nat.div_mul_le_self off BSIZE
      exact .inl (by omega)
    rw [if_neg large]
    have small : off / BSIZE < MAXFILE := by omega
    obtain ⟨m, hm⟩ : ∃ m, m = min n ((off / BSIZE + 1) * BSIZE - off) := ⟨_, rfl⟩
    have ahead : off < (off / BSIZE + 1) * BSIZE := by unfold BSIZE; omega
    have whole : off + m ≤ (off / BSIZE + 1) * BSIZE := by omega
    have counted := ex.counted small (by omega : 0 < m) whole
    have grows := blocks_mono (show off + m ≤ off + n by omega)
    have found := blockFor_spec b bound small
    revert found
    cases run : s.blockFor din (off / BSIZE) with
    | error message =>
      rintro ⟨absent, indirect, full⟩
      rw [if_pos (And.intro absent indirect)] at counted
      simp only [Bind.bind, Except.bind]
      exact .inr (by omega)
    | ok r =>
      obtain ⟨c, din₁, s₁⟩ := r
      intro found
      have found : Found i (off / BSIZE) s (s.volume i din) c din₁ s₁ := found
      simp only [Bind.bind, Except.bind]
      have total := found.freeblock
      by_cases reach : c < FSSIZE
      swap
      · have error : s₁.rsect c = .error "read" := if_neg reach
        simp only [error]
        have used := volume_used.mp (found.given.building.cons.used i _ (dataSlot_lt small)
          (by rw [found.place]; exact found.got))
        rw [found.place] at used
        exact .inr (by omega)
      have read : s₁.rsect c = .ok (s₁.image c) := if_pos reach
      simp only [read]
      have start : off - off / BSIZE * BSIZE = off % BSIZE := by unfold BSIZE; omega
      rw [← hm, start]
      obtain ⟨s₂, hs₂⟩ : ∃ s₂, s₂ = s₁.wsect c ((s₁.image c).splice (off % BSIZE) m p) := ⟨_, rfl⟩
      rw [← hs₂]
      obtain ⟨b₂, wrote₂, low₂, slots₂, file₂⟩ := found.given.building.stored small found.place found.got hs₂
      have count₂ : s₂.freeblock = s₁.freeblock := by rw [hs₂]; rfl
      have ex₂ : Exact (s₂.volume i din₁) i (off + m) := by
        refine ⟨fun bn inside => ?_, ?_⟩
        · rw [slots₂]
          by_cases here : bn = off / BSIZE
          · rw [here, found.place]
            exact ⟨fun _ => by unfold BSIZE; omega, fun _ => found.got⟩
          · rw [found.rest bn inside here, ex.data bn inside]
            unfold BSIZE at *
            omega
        · rw [slots₂, found.indirect, ex.indirect]
          unfold BSIZE at *
          omega
      have last := found.last reach
      have room : off + m ≤ MAXFILE * BSIZE := by
        have := Nat.mul_le_mul_right BSIZE (show off / BSIZE + 1 ≤ MAXFILE from small)
        omega
      have rest := ih s₂ din₁ (off + m) (n - m) (p.drop m) b₂ (by omega) ex₂ room (by omega)
      revert rest
      cases MkfsState.appendLoop fuel din₁ (off + m) (p.drop m) (n - m) s₂ with
      | error message =>
        rintro (large | full)
        · exact .inl (by omega)
        · rw [show off + m + (n - m) = off + n by omega] at full
          exact .inr (by omega)
      | ok r' =>
        obtain ⟨din', off', s'⟩ := r'
        intro w
        have w : Appended i (p.drop m) (off + m) (n - m) s₂ (s₂.volume i din₁) off' s' (s'.volume i din') := w
        have same : off + m + (n - m) = off + n := by omega
        have counts := w.freeblock
        have fits := w.fits
        rw [same] at counts fits
        refine ⟨w.building, (found.given.wrote.trans wrote₂).trans w.wrote, fun c low => ?_, ?_,
          w.offset.trans same, fits,
          same ▸ w.exact', by omega, w.bound, fun y lower upper => ?_, fun y before => ?_⟩
        · rw [w.low c low, low₂ c low, found.given.low c low]
        · rw [w.freeinode, hs₂]
          exact found.given.freeinode
        · by_cases first : y < off + m
          · obtain ⟨block, low, high, distance⟩ := Volume.round_block off (x := y) (m := m)
              (by unfold BSIZE at *; omega) lower first
            rw [w.before y first, file₂ y (by rwa [block]) (by rw [block, found.place]; exact found.got),
              if_pos ⟨block, low, high⟩, distance]
          · rw [w.inside y (by omega) (by omega), Bytes.drop_apply]
            congr 1
            omega
        · have index : y / BSIZE < MAXFILE := by unfold BSIZE at *; omega
          have present : (s.volume i din).slot i (dataSlot (y / BSIZE)) ≠ 0 := by
            rw [ex.data _ index]
            unfold BSIZE
            omega
          have present₁ : (s₁.volume i din₁).slot i (dataSlot (y / BSIZE)) ≠ 0 := by
            rw [found.given.wrote.slots _ (dataSlot_lt index) present]
            exact present
          rw [w.before y (by omega), file₂ y index present₁, if_neg (Volume.round_apart (.inl before)),
            Volume.file_same found.given.wrote found.given.same index present]

end Append

end Xv6.Mkfs
