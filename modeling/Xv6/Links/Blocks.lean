import Xv6.Sysfile.Space

/-! Which blocks of the disk are marked: those before the data, and those that have a place in an inode. -/

namespace Xv6.Sysfile.Links
open Function Content Content.Volume

/-- From block `start` on the marked blocks are those with a place, and an inode that is free
has no blocks. -/
structure Tight (start : Nat) (v : Volume) : Prop where
  low : 0 < start ∧ ∀ b < start, v.used b = true
  place {i l} : l < NSLOT → v.slot i l ≠ 0 → start ≤ v.slot i l ∧ v.slot i l < v.size
  owner {b} : start ≤ b → b < v.size → v.used b = true → ∃ i l, l < NSLOT ∧ v.slot i l = b
  clear {i l} : (v.inode i).type = 0 → l < NSLOT → v.slot i l = 0

section Blocks

variable {start : Nat} {v v' : Volume} {i k b bn off tot n : Nat} {src : Bytes} {limit : Option Nat}

theorem Tight.boot (tight : Tight start v) : v.used 0 = true := tight.low.2 0 tight.low.1

/-- Nothing has happened to the places for blocks. -/
theorem Tight.congr (tight : Tight start v) (slots : ∀ j l, l < NSLOT → v'.slot j l = v.slot j l)
    (used : v'.used = v.used)
    (size : v'.size = v.size) (free : ∀ j, (v'.inode j).type = 0 → (v.inode j).type = 0 ∨
      ∀ l < NSLOT, v.slot j l = 0) : Tight start v' where
  low := used ▸ tight.low
  place {j l} inside some := by
    rw [slots j l inside] at some ⊢
    rw [size]
    exact tight.place inside some
  owner {c} lower upper marked := by
    rw [size] at upper
    rw [used] at marked
    obtain ⟨j, l, inside, here⟩ := tight.owner lower upper marked
    exact ⟨j, l, inside, (slots j l inside).trans here⟩
  clear {j l} none inside := by
    rw [slots j l inside]
    exact (free j none).elim (fun free => tight.clear free inside) fun empty => empty l inside

/-- A block that was free gets a place. -/
theorem Tight.fill (tight : Tight start v) (free : v.used b = false) (below : b < v.size)
    (used : v'.used = update v.used b true)
    (size : v'.size = v.size) (inside : k < NSLOT) (empty : v.slot i k = 0)
    (slots : ∀ j l, l < NSLOT → v'.slot j l = if j = i ∧ l = k then b else v.slot j l)
    (types : ∀ j, (v'.inode j).type = (v.inode j).type) (live : (v.inode i).type ≠ 0) : Tight start v' where
  low := by
    refine ⟨tight.low.1, fun c lower => ?_⟩
    rw [used]
    by_cases here : c = b
    · rw [here, update_self]
    · rw [update_of_ne here]
      exact tight.low.2 c lower
  place {j l} here some := by
    rw [slots j l here] at some ⊢
    rw [size]
    split
    next =>
      refine ⟨Nat.le_of_not_lt fun lower => ?_, below⟩
      rw [tight.low.2 b lower] at free
      cases free
    next other =>
      rw [if_neg other] at some
      exact tight.place here some
  owner {c} lower upper marked := by
    rw [size] at upper
    rw [used] at marked
    by_cases here : c = b
    · exact ⟨i, k, inside, by rw [slots i k inside, if_pos ⟨rfl, rfl⟩, here]⟩
    · rw [update_of_ne here] at marked
      obtain ⟨j, l, there, same⟩ := tight.owner lower upper marked
      refine ⟨j, l, there, ?_⟩
      rw [slots j l there, if_neg, same]
      rintro ⟨rfl, rfl⟩
      have := tight.low.1
      omega
  clear {j l} none here := by
    rw [types] at none
    rw [slots j l here, if_neg, tight.clear none here]
    rintro ⟨rfl, -⟩
    exact live none

/-- Without a free block nothing is marked. -/
theorem balloc_none (boot : v.used 0 = true) (none : v.balloc.1 = 0) : v.balloc.2.used = v.used := by
  revert none
  unfold Volume.balloc
  dsimp only
  cases found : (List.range v.size).find? fun b => !v.used b with
  | none => exact fun _ => rfl
  | some b =>
    intro zero
    have free : v.used b = false := by simpa using List.find?_some found
    rw [show b = 0 from zero, boot] at free
    cases free

theorem Tight.balloc_none (tight : Tight start v) (cons : v.Consistent) (none : v.balloc.1 = 0) :
    Tight start v.balloc.2 := by
  have spec := balloc_spec cons
  exact tight.congr (fun j l _ => balloc_slot cons j l) (Links.balloc_none tight.boot none) spec.1.2
    fun _ free => .inl (spec.1.1 ▸ free)

theorem Tight.loadAddr (tight : Tight start v) (cons : v.Consistent) (live : (v.inode i).type ≠ 0)
    (direct : k ≤ NDIRECT) :
    Tight start (v.loadAddr i k).2 := by
  have place : k < NSLOT := by
    simp only [NSLOT]
    omega
  unfold Volume.loadAddr
  split
  next absent =>
    have empty : v.slot i k = 0 := (slot_direct direct).trans absent
    have spec := balloc_spec cons
    simp only
    split
    next none => exact tight.balloc_none cons none
    next got =>
      obtain ⟨fresh, marked, zeroed, _⟩ := spec.2.2 got
      obtain ⟨-, wrote, -, slots⟩ := cons.fill_addr (v.balloc.2.setAddr i k v.balloc.1) direct absent got
        fresh zeroed (fun c used => (spec.2.1 c used).2) ⟨marked, fun c used => (spec.2.1 c used).1⟩ spec.1.2
        (fun j apart => by simp [setAddr, setInode, spec.1.1, apart]) (by simp [setAddr, setInode, spec.1.1])
        (by simp [setAddr, setInode, spec.1.1])
      obtain ⟨below, used⟩ := balloc_used got
      refine tight.fill fresh below used spec.1.2 place empty slots (fun j => ?_) live
      by_cases here : j = i
      · rw [here]
        exact wrote.fields.1
      · rw [(wrote.others j here).1]
  next => exact tight

theorem Tight.loadEntry (tight : Tight start v) (cons : v.Consistent) (live : (v.inode i).type ≠ 0)
    (indirect : v.slot i NDIRECT = b)
    (present : b ≠ 0) (small : bn < NINDIRECT) : Tight start (v.loadEntry b bn).2 := by
  have addr : (v.inode i).addrs NDIRECT = b := (slot_direct (le_refl _)).symm.trans indirect
  have place : NDIRECT + 1 + bn < NSLOT := by
    simp only [NSLOT]
    omega
  unfold Volume.loadEntry
  split
  next absent =>
    have empty : v.slot i (NDIRECT + 1 + bn) = 0 := by rw [slot_indirect (by rwa [addr]), addr, absent]
    have spec := balloc_spec cons
    simp only
    split
    next none => exact tight.balloc_none cons none
    next got =>
      obtain ⟨fresh, marked, _, bound⟩ := spec.2.2 got
      have before := (spec.2.1 b (indirect ▸ cons.used i NDIRECT (by decide) (by rwa [indirect]))).2
      obtain ⟨-, -, -, slots⟩ := cons.fill_entry (c := v.balloc.1)
        ({ v.balloc.2 with
          block := update v.balloc.2.block b ((v.balloc.2.block b).store (4 * bn) 4 v.balloc.1) }.logWrite) _
        indirect present small absent fresh bound (by rw [← before]; exact update_self ..)
        (fun x apart used => (update_of_ne apart _ _).trans (spec.2.1 x used).2)
        ⟨marked, fun x used => (spec.2.1 x used).1⟩ spec.1.2 spec.1.1
      obtain ⟨below, used⟩ := balloc_used got
      exact tight.fill fresh below used spec.1.2 place empty slots
        (fun j => congrArg (fun inode => (inode j).type) spec.1.1) live
  next => exact tight

theorem Tight.bmap (tight : Tight start v) (cons : v.Consistent) (live : (v.inode i).type ≠ 0)
    {r : Nat × Volume}
    (run : v.bmap i bn = .ok r) : Tight start r.2 := by
  unfold Volume.bmap at run
  split at run
  next direct =>
    cases run
    exact tight.loadAddr cons live (by omega)
  next =>
    split at run
    next inside =>
      cases run
      have first := loadAddr_spec (i := i) cons (le_refl NDIRECT)
      have tight₁ := tight.loadAddr cons live (le_refl NDIRECT)
      split
      next => exact tight₁
      next got =>
        rw [← first.wrote.fields.1] at live
        exact tight₁.loadEntry first.cons live (first.result got) got inside
    next => cases run

/-- A store to a data block. -/
theorem Tight.store (tight : Tight start v) (cons : v.Consistent) (small : bn < MAXFILE) {m : Bytes}
    (inode : v'.inode = v.inode) (used : v'.used = v.used) (size : v'.size = v.size)
    (block : v'.block = update v.block (v.slot i (dataSlot bn)) m) : Tight start v' :=
  tight.congr (fun j l _ => (store_spec v' cons small m inode used size block).2.2.1 j l) used size
  fun _ free => .inl (inode ▸ free)

theorem Tight.writeLoop (tight : Tight start v) (cons : v.Consistent) (live : (v.inode i).type ≠ 0)
    (fuel : Nat) (tot_le : tot ≤ n)
    (bound : off + (n - tot) ≤ MAXFILE * BSIZE) {off' tot' : Nat}
    (run : Volume.writeLoop i src limit fuel off tot n v = .ok (off', tot', v')) : Tight start v' := by
  induction fuel generalizing off tot v with
  | zero =>
    cases run
    exact tight
  | succ fuel ih =>
    by_cases more : tot < n
    swap
    · rw [Volume.writeLoop, if_neg more] at run
      cases run
      exact tight
    have small : off / BSIZE < MAXFILE := index_lt (by omega)
    obtain ⟨⟨addr, v₁⟩, map, loaded⟩ := bmap_spec (i := i) cons small
    have tight₁ : Tight start v₁ := tight.bmap cons live map
    rw [Volume.writeLoop, if_pos more, map] at run
    simp only [bind, Except.bind] at run
    by_cases got : addr = 0
    · rw [if_pos got] at run
      cases run
      exact tight₁
    rw [if_neg got] at run
    have here : v₁.slot i (dataSlot (off / BSIZE)) = addr := loaded.result got
    set m := min (n - tot) (BSIZE - off % BSIZE) with hm
    have positive : off % BSIZE < BSIZE := Nat.mod_lt _ (by decide)
    set v₂ : Volume := { v₁ with
      block := update v₁.block addr ((v₁.block addr).splice (off % BSIZE) (copied limit tot m)
      (src.drop tot)) } with hv₂
    have block : v₂.block = update v₁.block (v₁.slot i (dataSlot (off / BSIZE)))
        ((v₁.block (v₁.slot i (dataSlot (off / BSIZE)))).splice (off % BSIZE) (copied limit tot m)
          (src.drop tot)) := by
      rw [here]
    have tight₂ : Tight start v₂ := tight₁.store loaded.cons small rfl rfl rfl block
    obtain ⟨cons₂, wrote₂, -, -⟩ := store_spec v₂ loaded.cons small _ rfl rfl rfl block
    have logged : Tight start v₂.logWrite := tight₂.congr (fun _ _ _ => rfl) rfl rfl fun _ => .inl
    have cons₃ : v₂.logWrite.Consistent := cons₂.congr (fun _ _ _ => rfl) rfl rfl cons₂.sizes
    split at run
    · exact (Prod.mk.inj (Prod.mk.inj (Except.ok.inj run)).2).2 ▸ tight₂
    · exact ih logged cons₃ ((loaded.wrote.trans wrote₂).fields.1.trans_ne live) (by omega) (by omega) run

theorem Tight.setSize (tight : Tight start v) (i size : Nat) : Tight start (v.setSize i size) :=
  tight.congr (fun j l _ => setSize_slot v i size j l) rfl rfl fun j free =>
    .inl ((setSize_type v i size j).symm.trans free)

theorem Tight.writei (tight : Tight start v) (cons : v.Consistent) (live : (v.inode i).type ≠ 0) {r : Int}
    (run : v.writei i src limit off n = .ok (r, v')) (small : n < 2 ^ 32) : Tight start v' := by
  have size := cons.sizes i
  have capacity : MAXFILE * BSIZE < 2 ^ 32 := by decide
  unfold Volume.writei at run
  split at run
  · cases run
    exact tight
  · split at run
    · cases run
      exact tight
    · cases loop : Volume.writeLoop i src limit n off 0 n v with
      | error e =>
        rw [loop] at run
        cases run
      | ok r =>
        rw [loop] at run
        obtain ⟨off', tot', v₁⟩ := r
        simp only [bind, Except.bind] at run
        cases run
        exact (tight.writeLoop cons live n (Nat.zero_le n) (by omega) loop).setSize i _

theorem Tight.setNlink (tight : Tight start v) (i : Nat) (nlink : Int) : Tight start (v.setNlink i nlink) := by
  have fields (j : Nat) : ((v.setNlink i nlink).inode j).type = (v.inode j).type ∧
    ((v.setNlink i nlink).inode j).addrs = (v.inode j).addrs := by
    by_cases same : j = i
    · subst same
      simp [Volume.setNlink, setInode, logWrite]
    · simp [Volume.setNlink, setInode, logWrite, same]
  exact tight.congr (fun j l _ => slot_congr (fields j).2 fun _ => rfl) rfl rfl fun j free =>
    .inl ((fields j).1.symm.trans free)

/-- An inode without blocks is given another type. -/
theorem Tight.replace (tight : Tight start v) (ip : Inode) (empty : ∀ l < NSLOT, v.slot i l = 0)
    (none : ∀ k ≤ NDIRECT, ip.addrs k = 0) :
    Tight start (v.setInode i ip).logWrite := by
  have self : ((v.setInode i ip).logWrite).inode i = ip := update_self ..
  have other {j : Nat} (apart : j ≠ i) : ((v.setInode i ip).logWrite).inode j = v.inode j :=
    update_of_ne apart ..
  refine tight.congr (fun j l inside => ?_) rfl rfl fun j free => ?_
  · by_cases here : j = i
    · subst here
      rw [empty l inside]
      by_cases direct : l ≤ NDIRECT
      · rw [slot_direct direct, self, none l direct]
      · exact slot_absent (by rw [self, none _ (le_refl _)]) (by omega)
    · exact slot_congr (by rw [other here]) fun _ => rfl
  · by_cases here : j = i
    · exact .inr fun l inside => here ▸ empty l inside
    · exact .inl (other here ▸ free)

/-! ### Blocks that are given back -/

/-- The blocks at some places of an inode are not marked any more, and nothing else has happened to the
bitmap. -/
structure Dropped (i : Nat) (gone : Nat → Prop) (v v' : Volume) : Prop where
  old {c : Nat} : v'.used c = true → v.used c = true
  kept {c : Nat} : v.used c = true → (∀ l < NSLOT, v.slot i l = c → c = 0) → v'.used c = true
  free {l : Nat} : l < NSLOT → gone l → v.slot i l ≠ 0 → v'.used (v.slot i l) = false

theorem Dropped.weaken {gone gone' : Nat → Prop} (dropped : Dropped i gone v v')
    (less : ∀ l, gone' l → gone l) : Dropped i gone' v v' :=
  ⟨dropped.old, dropped.kept, fun inside here => dropped.free inside (less _ here)⟩

/-- One more block is given back. -/
theorem Dropped.next {gone : Nat → Prop} {v'' : Volume} (dropped : Dropped i gone v v') (place : k < NSLOT)
    (used : v''.used = if v.slot i k = 0 then v'.used else update v'.used (v.slot i k) false) :
    Dropped i (fun l => gone l ∨ l = k) v v'' := by
  split at used
  next none =>
    refine ⟨fun marked => dropped.old (used ▸ marked), fun marked apart => ?_, fun {l} inside here some => ?_⟩
    · rw [used]
      exact dropped.kept marked apart
    · rw [used]
      refine dropped.free inside (here.resolve_right ?_) some
      rintro rfl
      exact some none
  next present =>
    refine ⟨fun {c} marked => ?_, fun {c} marked apart => ?_, fun {l} inside here some => ?_⟩
    · rw [used] at marked
      by_cases same : c = v.slot i k
      · rw [same, update_self] at marked
        cases marked
      · rw [update_of_ne same] at marked
        exact dropped.old marked
    · rw [used, update_of_ne]
      · exact dropped.kept marked apart
      · intro same
        exact present (same.symm.trans (apart k place same.symm))
    · rw [used]
      by_cases same : v.slot i l = v.slot i k
      · rw [same, update_self]
      · rw [update_of_ne same]
        refine dropped.free inside (here.resolve_right ?_) some
        rintro rfl
        exact same rfl

theorem freeAddr_used (run : freeAddr i v k = .ok v') :
    v'.used = if (v.inode i).addrs k = 0 then v.used else update v.used ((v.inode i).addrs k) false := by
  unfold freeAddr bfree at run
  split at run
  next none =>
    cases run
    rw [if_pos none]
  next some =>
    split at run
    · cases run
      rw [if_neg some]
      rfl
    · cases run

theorem freeEntry_used {j : Nat} (run : freeEntry b v j = .ok v') :
    v'.used = if v.entry b j = 0 then v.used else update v.used (v.entry b j) false := by
  unfold freeEntry bfree at run
  split at run
  next none =>
    cases run
    rw [if_pos none]
  next some =>
    split at run
    · cases run
      rw [if_neg some]
      rfl
    · cases run

/-- `itrunc` gives back the blocks of an inode and no others. -/
theorem itrunc_dropped (cons : v.Consistent) (run : v.itrunc i = .ok v') : Dropped i (fun _ => True) v v' ∧
    v'.size = v.size := by
  obtain ⟨v₁, first, ⟨freed, addrs⟩, dropped⟩ := foldlM_range (f := freeAddr i) (s := v)
    (J := fun k s => (Freed i (fun l => l < k) v s ∧ ∀ l, (s.inode i).addrs l =
      if l < k then 0 else (v.inode i).addrs l) ∧
      Dropped i (fun l => l < k) v s) NDIRECT
    ⟨⟨⟨rfl, rfl, fun _ _ => rfl, ⟨rfl, rfl⟩, fun b marked _ => marked⟩, fun l => by simp⟩, id,
      fun marked _ => marked, fun _ wrong => by omega⟩
    fun k s below both => by
      obtain ⟨⟨freed, addrs⟩, dropped⟩ := both
      have same : (s.inode i).addrs k = (v.inode i).addrs k := by rw [addrs k, if_neg (by omega)]
      obtain ⟨s', run, next, now⟩ := freeAddr_spec cons freed (by omega) same (by simp : ¬ k < k)
      have used := freeAddr_used run
      rw [same, ← slot_direct (s := v) (i := i) (by omega : k ≤ NDIRECT)] at used
      refine ⟨s', run, ⟨next.weaken fun l => by omega, fun l => ?_⟩,
        (dropped.next (by simp only [NSLOT]; omega) used).weaken fun l => by omega⟩
      rw [now]
      by_cases here : l = k
      · subst here
        simp
      · rw [update_of_ne here, addrs l]
        by_cases before : l < k
        · rw [if_pos before, if_pos (by omega)]
        · rw [if_neg before, if_neg (by omega)]
  have indirect : (v₁.inode i).addrs NDIRECT = (v.inode i).addrs NDIRECT := by rw [addrs, if_neg (by omega)]
  unfold Volume.itrunc at run
  simp only [first, bind, Except.bind] at run
  by_cases absent : (v₁.inode i).addrs NDIRECT = 0
  · rw [if_pos absent] at run
    cases run
    refine ⟨⟨dropped.old, dropped.kept, fun {l} inside _ some => dropped.free inside ?_ some⟩, freed.size⟩
    by_contra beyond
    exact some (slot_absent (indirect ▸ absent) (by omega))
  · rw [if_neg absent, indirect] at run
    rw [indirect] at absent
    obtain ⟨v₂, second, ⟨freed₂, inode⟩, dropped₂⟩ :=
      foldlM_range (f := freeEntry ((v.inode i).addrs NDIRECT)) (s := v₁)
      (J := fun j s => (Freed i (fun l => l < NDIRECT ∨ NDIRECT < l ∧ l < NDIRECT + 1 + j) v s ∧
        s.inode = v₁.inode) ∧
        Dropped i (fun l => l < NDIRECT ∨ NDIRECT < l ∧ l < NDIRECT + 1 + j) v s)
      NINDIRECT ⟨⟨freed.weaken fun l => .inl, rfl⟩, dropped.weaken fun l => by omega⟩ fun j s below both => by
        obtain ⟨⟨freed, inode⟩, dropped⟩ := both
        obtain ⟨s', run, next, now⟩ := freeEntry_spec cons freed absent below (by omega)
        have used := freeEntry_used run
        have value : s.entry ((v.inode i).addrs NDIRECT) j = v.slot i (NDIRECT + 1 + j) := by
          rw [slot_indirect absent, entry, entry, freed.block]
        rw [value] at used
        exact ⟨s', run, ⟨next.weaken fun l => by omega, now.trans inode⟩,
          (dropped.next (by simp only [NSLOT]; omega) used).weaken fun l => by omega⟩
    obtain ⟨v₃, third, freed₃, addrs₃⟩ :=
      freeAddr_spec cons freed₂ (le_refl NDIRECT) (by rw [inode, indirect]) (by omega)
    have used := freeAddr_used third
    rw [inode, indirect, ← slot_direct (s := v) (i := i) (le_refl NDIRECT)] at used
    simp only [second, third] at run
    cases run
    have last := dropped₂.next (by decide) used
    refine ⟨⟨last.old, last.kept, fun {l} inside _ some => last.free inside ?_ some⟩, freed₃.size⟩
    simp only [NSLOT] at inside
    omega

theorem Tight.itrunc (tight : Tight start v) (cons : v.Consistent) (run : v.itrunc i = .ok v') :
    Tight start v' := by
  obtain ⟨dropped, size⟩ := itrunc_dropped cons run
  obtain ⟨v₁, run', truncated⟩ := itrunc_spec (i := i) cons
  rw [run] at run'
  obtain rfl := Except.ok.inj run'
  refine ⟨⟨tight.low.1, fun b lower => ?_⟩, fun {j l} inside some => ?_, fun {b} lower upper marked => ?_,
    fun {j l} none inside => ?_⟩
  · refine dropped.kept (tight.low.2 b lower) fun l inside same => ?_
    by_contra some
    have := (tight.place (i := i) inside (by omega)).1
    omega
  · by_cases here : j = i
    · exact absurd (here ▸ truncated.empty l) some
    · rw [(truncated.others j here).2] at some ⊢
      rw [size]
      exact tight.place inside some
  · rw [size] at upper
    obtain ⟨j, l, inside, here⟩ := tight.owner lower upper (dropped.old marked)
    refine ⟨j, l, inside, ?_⟩
    by_cases mine : j = i
    · subst mine
      have present : v.slot j l ≠ 0 := by
        have := tight.low.1
        omega
      have free := dropped.free inside trivial present
      rw [here, marked] at free
      cases free
    · rw [(truncated.others j mine).2, here]
  · by_cases here : j = i
    · rw [here, truncated.empty]
    · rw [(truncated.others j here).1] at none
      rw [(truncated.others j here).2]
      exact tight.clear none inside

theorem Tight.iputFree (tight : Tight start v) (cons : v.Consistent) (run : v.iputFree i = .ok v') :
    Tight start v' := by
  obtain ⟨v₁, run', truncated⟩ := itrunc_spec (i := i) cons
  simp only [Volume.iputFree, run', bind, Except.bind] at run
  cases run
  refine (tight.itrunc cons run').replace _ (fun l _ => truncated.empty l) fun k direct => ?_
  exact (slot_direct direct).symm.trans (truncated.empty k)

end Blocks

end Xv6.Sysfile.Links
