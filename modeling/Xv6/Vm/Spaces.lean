import Xv6.Vm.Load
import Xv6.Vm.Uvmcopy
import Mathlib.Order.Interval.Finset.Nat

/-! The address space of a process: what its page table maps, and why no step on it stops with a panic. -/

namespace Xv6.Vm
open Function

/-- The page table maps the pages below a size, the trampoline and the trapframe, and nothing else. -/
structure Shaped (pt : Pagetable) (sz trampoline trapframe : Nat) : Prop where
  sound : pt.Sound
  top : pt.leaf (TRAMPOLINE / PGSIZE) = some ⟨trampoline, ⟨true, false, true, false⟩⟩
  frame : pt.leaf (TRAPFRAME / PGSIZE) = some ⟨trapframe, ⟨true, true, false, false⟩⟩
  user {q} : q ≠ TRAMPOLINE / PGSIZE → q ≠ TRAPFRAME / PGSIZE → (pt.leaf q ≠ none ↔ q < PGROUNDUP sz / PGSIZE)
  readable {q pte} : pt.leaf q = some pte → pte.perm.r = true
  small : sz ≤ TRAPFRAME

/-- A program may use all pages below the trapframe. -/
def Pagetable.Users (pt : Pagetable) : Prop := ∀ q pte, q < TRAPFRAME / PGSIZE →
    pt.leaf q = some pte → pte.perm.u = true

/-- A page that `kfree` takes. -/
def Valid (kernelEnd pa : Nat) : Prop := pa % PGSIZE = 0 ∧ kernelEnd ≤ pa ∧ pa < PHYSTOP

/-- The pages below the size and the tables are pages of `F`, which are free or in the page
table only once. -/
structure Owned (F : Nat → Prop) (s : Memory) (pt : Pagetable) (sz trampoline trapframe : Nat) : Prop
    extends Shaped pt sz trampoline trapframe where
  free : ∀ pa ∈ s.freelist, F pa
  frames {q pte} : q < TRAPFRAME / PGSIZE → pt.leaf q = some pte → F pte.pa
  tables {pa} : 0 < pt.tables pa → F pa
  once {x} : F x → total s pt x ≤ 1
  valid {pa} : F pa → Valid s.kernelEnd pa
  kernelEnd : KERNBASE ≤ s.kernelEnd

/-- A run that does not stop with a panic. -/
structure Safe {α : Type} (m : VmM α) (s : Memory) : Prop where
  ends : Ends m s (fun _ => False) fun _ s' => s'.kernelEnd = s.kernelEnd

section Safe

variable {α β : Type} {F : Nat → Prop} {s s' : Memory} {pt pt' : Pagetable}
  {a n pa sz start newsz trampoline trapframe va : Nat}
  {perm : Perm} {m : VmM α} {f : α → VmM β}

theorem Safe.bind {Q : α → Memory → Prop} (first : Safe m s) (gives : Gives m s Q)
    (rest : ∀ a s', Q a s' → s'.kernelEnd = s.kernelEnd → Safe (f a) s') : Safe (m >>= f) s := by
  refine ⟨(first.ends.and gives).bind fun a s' ⟨same, holds⟩ => ?_⟩
  exact (rest a s' holds same).ends.mono fun _ _ same' => same'.trans same

theorem Safe.bind_run {a : α} (run : m s = .ok (a, s)) (rest : Safe (f a) s) : Safe (m >>= f) s :=
  ⟨.bind_run run rest.ends⟩

theorem Safe.pure (a : α) (s : Memory) : Safe (pure a) s := ⟨Ends.pure rfl⟩

theorem Safe.write (s : Memory) (src : Memory → Bytes) :
    Safe (modify fun s => s.write pa a n (src s) : VmM PUnit) s := ⟨Ends.modify rfl⟩

theorem Safe.ite {c : Prop} [Decidable c] {m' : VmM α} (yes : c → Safe m s) (no : ¬c → Safe m' s) :
    Safe (if c then m else m') s :=
  ⟨Ends.ite (fun holds => (yes holds).ends) fun fails => (no fails).ends⟩

theorem Safe.forM_range {g : Nat → VmM PUnit}
    (each : ∀ i < n, ∀ s', s'.kernelEnd = s.kernelEnd → Safe (g i) s') :
    Safe ((List.range n).forM g) s :=
  ⟨Ends.forM_range (fun _ (s' : Memory) => s'.kernelEnd = s.kernelEnd) rfl fun i below s' same =>
    (each i below s' same).ends.mono fun _ _ same' => same'.trans same⟩

theorem kfree_safe (valid : Valid s.kernelEnd pa) : Safe (kfree pa) s := by
  obtain ⟨aligned, lower, upper⟩ := valid
  have fine : ¬(pa % PGSIZE ≠ 0 ∨ pa < s.kernelEnd ∨ PHYSTOP ≤ pa) := by omega
  exact ⟨.of_run (if_neg fine) rfl⟩

theorem kalloc_safe (s : Memory) : Safe kalloc s := by
  refine ⟨?_⟩
  unfold Ends kalloc
  cases s.freelist <;> rfl

theorem descend_safe (entry : Option Nat) (alloc : Bool) (s : Memory) : Safe (descend entry alloc) s := by
  cases entry with
  | some page => exact .pure _ _
  | none =>
    refine Safe.ite (fun _ => ?_) fun _ => .pure _ _
    refine (kalloc_safe s).bind Gives.any fun r s₁ _ _ => ?_
    cases r with
    | none => exact .pure _ _
    | some page => exact (Safe.write s₁ _).bind Gives.any fun _ _ _ _ => .pure _ _

theorem walk_safe (pt : Pagetable) (alloc : Bool) (inside : va < MAXVA) (s : Memory) :
    Safe (walk pt va alloc) s := by
  unfold walk
  refine Safe.ite (fun wrong => absurd wrong (by omega)) fun _ => ?_
  refine (descend_safe _ _ s).bind Gives.any fun mid s₁ _ _ => ?_
  cases mid with
  | none => exact .pure _ _
  | some mid =>
    refine (descend_safe _ _ s₁).bind Gives.any fun low s₂ _ _ => ?_
    cases low <;> exact .pure _ _

theorem walkaddr_safe (pt : Pagetable) (va : Nat) (s : Memory) : Safe (walkaddr pt va) s := by
  unfold walkaddr
  refine Safe.ite (fun _ => .pure _ _) fun inside => ?_
  refine (walk_safe pt false (Nat.lt_of_not_le inside) s).bind Gives.any fun r s₁ _ _ => ?_
  dsimp only
  split <;> exact .pure _ _

/-- A page is mapped that is not mapped yet. -/
theorem mappages_safe (pt : Pagetable) (perm : Perm) (aligned : va % PGSIZE = 0) (inside : va < MAXVA)
    (empty : pt.leaf (va / PGSIZE) = none) (s : Memory) : Safe (mappages pt va PGSIZE pa perm) s := by
  unfold mappages
  refine Safe.ite (fun wrong => absurd aligned wrong) fun _ => Safe.ite
    (fun wrong => absurd wrong (by decide)) fun _ =>
    Safe.ite (fun wrong => absurd wrong (by decide)) fun _ => ?_
  have one : PGSIZE / PGSIZE = 1 := rfl
  rw [one]
  refine (walk_safe pt true inside s).bind (walk_gives (F := fun _ => True) pt va fun _ _ => trivial)
    fun r s₁ ⟨walked, _⟩ _ => ?_
  refine Safe.ite (fun _ => .pure _ _) fun _ => Safe.ite (fun wrong => ?_) fun _ => .pure _ _
  rw [walked.leaf, empty] at wrong
  cases wrong

/-- Pages are unmapped that are mapped. -/
theorem unmapLoop_safe (doFree : Bool) (sound : pt.Sound) (inside : a / PGSIZE + n ≤ MAXVA / PGSIZE)
    (mapped : ∀ q, a / PGSIZE ≤ q → q < a / PGSIZE + n → ∃ pte, pt.leaf q = some pte ∧ pte.perm.r = true ∧
      (doFree = true → Valid s.kernelEnd pte.pa)) : Safe (unmapLoop doFree n pt a) s := by
  induction n generalizing s pt a with
  | zero => exact .pure _ _
  | succ n ih =>
    have next : (a + PGSIZE) / PGSIZE = a / PGSIZE + 1 := Nat.add_div_right a (by decide)
    have below : a < MAXVA := by
      unfold MAXVA PGSIZE at *
      omega
    obtain ⟨pte, here, readable, valid⟩ := mapped (a / PGSIZE) le_rfl (by omega)
    obtain ⟨-, -, index, index', -⟩ := page_indices below
    have low := sound.leaf (here ▸ Option.some_ne_none pte)
    have mid := sound.low low
    rw [index'] at low mid
    rw [index] at mid
    have later (s₁ : Memory) (same : s₁.kernelEnd = s.kernelEnd) :
        Safe (unmapLoop doFree n { pt with leaf := update pt.leaf (a / PGSIZE) none } (a + PGSIZE)) s₁ := by
      refine ih ((setLeaf_step (F := fun _ => True) (s := s) (.refl fun _ _ => trivial) fun _ some =>
        absurd rfl some).sound sound)
        (by omega) fun q lower upper => ?_
      dsimp only
      rw [update_of_ne (by omega), same]
      exact mapped q (by omega) (by omega)
    have found : decide (pt.mid (a / 2 ^ 30) ≠ none ∧ pt.low (a / 2 ^ 21) ≠ none) = true :=
      decide_eq_true ⟨mid, low⟩
    unfold unmapLoop
    refine Safe.bind_run (walk_found pt below) ?_
    dsimp only
    rw [found, if_neg (by decide), here]
    dsimp only
    rw [if_neg (by rintro wrong; rw [wrong] at readable; cases readable)]
    cases doFree with
    | false => exact later s rfl
    | true => exact (kfree_safe (valid rfl)).bind Gives.any fun _ s₁ _ same => later s₁ same

end Safe

section Owned

variable {F : Nat → Prop} {s s' : Memory} {pt pt' : Pagetable}
  {a n q sz sz' start newsz trampoline trapframe : Nat}
  {perm : Perm} {pte : Pte}

theorem TRAPFRAME_pages : TRAPFRAME / PGSIZE + 1 = TRAMPOLINE / PGSIZE ∧
    TRAMPOLINE / PGSIZE < MAXVA / PGSIZE := by
  unfold TRAPFRAME TRAMPOLINE MAXVA PGSIZE
  omega

theorem PGROUNDUP_small (small : sz ≤ TRAPFRAME) : PGROUNDUP sz ≤ TRAPFRAME ∧
    PGROUNDUP sz / PGSIZE ≤ TRAPFRAME / PGSIZE := by
  unfold PGROUNDUP TRAPFRAME TRAMPOLINE MAXVA PGSIZE at *
  omega

theorem PGROUNDUP_mono (order : sz ≤ sz') (below : sz' ≤ MAXVA) :
    PGROUNDUP sz / PGSIZE ≤ PGROUNDUP sz' / PGSIZE := by
  unfold PGROUNDUP MAXVA PGSIZE at *
  omega

theorem TRAPFRAME_below : TRAPFRAME ≤ MAXVA := Nat.le_trans (Nat.sub_le ..) (Nat.sub_le ..)

theorem PGROUNDUP_room (below : sz ≤ MAXVA) (room : PGROUNDUP sz / PGSIZE ≤ TRAPFRAME / PGSIZE) :
    sz ≤ TRAPFRAME := by
  unfold PGROUNDUP TRAPFRAME TRAMPOLINE MAXVA PGSIZE at *
  omega

theorem PGROUNDUP_idem (small : sz ≤ TRAPFRAME) : PGROUNDUP (PGROUNDUP sz) = PGROUNDUP sz := by
  unfold PGROUNDUP TRAPFRAME TRAMPOLINE MAXVA PGSIZE at *
  omega

theorem Shaped.mapped (shaped : Shaped pt sz trampoline trapframe) (below : q < PGROUNDUP sz / PGSIZE) :
    pt.leaf q ≠ none := by
  have small := (PGROUNDUP_small shaped.small).2
  have pages := TRAPFRAME_pages
  exact (shaped.user (by omega) (by omega)).mpr below

/-- Above the size only the trampoline and the trapframe are mapped. -/
theorem Shaped.above (shaped : Shaped pt sz trampoline trapframe) (some : pt.leaf q ≠ none)
    (above : PGROUNDUP sz / PGSIZE ≤ q) :
    q = TRAMPOLINE / PGSIZE ∨ q = TRAPFRAME / PGSIZE := by
  by_contra other
  rw [not_or] at other
  have below := (shaped.user other.1 other.2).mp some
  omega

/-- A page table with the same leaves. -/
theorem Shaped.congr (shaped : Shaped pt sz trampoline trapframe) (sound : pt'.Sound)
    (leaf : pt'.leaf = pt.leaf) :
    Shaped pt' sz trampoline trapframe := by
  refine ⟨sound, ?_, ?_, ?_, ?_, shaped.small⟩ <;> rw [leaf]
  · exact shaped.top
  · exact shaped.frame
  · exact shaped.user
  · exact shaped.readable

theorem Shaped.resize (shaped : Shaped pt sz trampoline trapframe) (small : sz' ≤ TRAPFRAME)
    (same : PGROUNDUP sz' / PGSIZE = PGROUNDUP sz / PGSIZE) : Shaped pt sz' trampoline trapframe :=
  ⟨shaped.sound, shaped.top, shaped.frame, fun top frame => (shaped.user top frame).trans (by rw [same]),
    shaped.readable, small⟩

/-- A page that is not one of `F` is at most mapped as the trampoline or the trapframe. -/
theorem Owned.kernel (own : Owned F s pt sz trampoline trapframe) (here : pt.leaf q = some pte)
    (out : ¬F pte.pa) :
    q = TRAMPOLINE / PGSIZE ∨ q = TRAPFRAME / PGSIZE := by
  refine own.above (here ▸ Option.some_ne_none pte) (Nat.le_of_not_lt fun below => out (own.frames ?_ here))
  have small := (PGROUNDUP_small own.small).2
  omega

/-- Pages of `F` have moved between the list and the page table. -/
theorem Owned.step (own : Owned F s pt sz trampoline trapframe) (step : Step F s s' pt pt')
    (balance : ∀ x, ¬F x → total s' pt' x = total s pt x) (once : ∀ x, F x → total s' pt' x ≤ 1)
    (kernelEnd : s'.kernelEnd = s.kernelEnd) (shaped : Shaped pt' sz' trampoline trapframe)
    (frames : ∀ q pte, q < TRAPFRAME / PGSIZE → pt'.leaf q = some pte → F pte.pa) :
    Owned F s' pt' sz' trampoline trapframe := by
  refine ⟨shaped, step.free, fun below here => frames _ _ below here, fun {pa} some => ?_, fun {x} => once x,
    fun {pa} here => kernelEnd ▸ own.valid here, kernelEnd ▸ own.kernelEnd⟩
  by_contra out
  have same := balance pa out
  have unlisted : pa ∉ s.freelist := fun listed => out (own.free pa listed)
  have none : ¬0 < pt.tables pa := fun some => out (own.tables some)
  have frames : tally pt.frame pa (2 ^ 27) ≤ tally pt'.frame pa (2 ^ 27) := by
    refine Tally.le fun q _ here => ?_
    unfold Pagetable.frame at here ⊢
    obtain ⟨pte, there, rfl⟩ := Option.map_eq_some_iff.mp here
    rcases own.kernel there out with rfl | rfl
    · rw [shaped.top, ← own.top, there]
      rfl
    · rw [shaped.frame, ← own.frame, there]
      rfl
  unfold total Pagetable.owned at same
  rw [List.count_eq_zero.mpr unlisted] at same
  omega

/-- The frames below the size are different pages of the physical memory, so there are not more of them than
that has. -/
theorem Owned.few (own : Owned F s pt sz trampoline trapframe) : PGROUNDUP sz / PGSIZE ≤ 2 ^ 15 := by
  have small := (PGROUNDUP_small own.small).2
  have pages := TRAPFRAME_pages
  have there (q : Nat) (below : q < PGROUNDUP sz / PGSIZE) : ∃ pa, pt.frame q = some pa ∧ F pa := by
    obtain ⟨pte, here⟩ := Option.ne_none_iff_exists'.mp (own.mapped below)
    exact ⟨pte.pa, by rw [Pagetable.frame, here, Option.map_some], own.frames (by omega) here⟩
  choose! f frame owned using there
  have size : MAXVA / PGSIZE < 2 ^ 27 := by decide
  have injective : Set.InjOn (fun q => f q / PGSIZE) (Finset.range (PGROUNDUP sz / PGSIZE)) := by
    intro p here q there same
    have below : p < PGROUNDUP sz / PGSIZE := Finset.mem_range.mp here
    have below' : q < PGROUNDUP sz / PGSIZE := Finset.mem_range.mp there
    have aligned := (own.valid (owned p below)).1
    have aligned' := (own.valid (owned q below')).1
    have equal : f p = f q := by
      dsimp only at same
      unfold PGSIZE at *
      omega
    have once := own.once (owned p below)
    unfold total Pagetable.owned at once
    exact Tally.unique (n := 2 ^ 27) (by omega) (by omega) (by omega) (frame p below) (equal ▸ frame q below')
  have into : Set.MapsTo (fun q => f q / PGSIZE) (Finset.range (PGROUNDUP sz / PGSIZE))
      (Finset.Ico (KERNBASE / PGSIZE) (PHYSTOP / PGSIZE)) := by
    intro q here
    obtain ⟨aligned, lower, upper⟩ := own.valid (owned q (Finset.mem_range.mp here))
    have base := own.kernelEnd
    refine Finset.mem_coe.mpr (Finset.mem_Ico.mpr ⟨Nat.div_le_div_right (by omega), ?_⟩)
    unfold PHYSTOP KERNBASE PGSIZE at *
    dsimp only
    omega
  have card := Finset.card_le_card_of_injOn _ into injective
  rw [Finset.card_range, Nat.card_Ico] at card
  exact card

/-- Pages have been added from the old size to the new one. -/
theorem Shaped.grow (shaped : Shaped pt sz trampoline trapframe) (sound : pt'.Sound) (order : sz ≤ sz')
    (below : sz' ≤ MAXVA)
    (kept : ∀ q, q < PGROUNDUP sz / PGSIZE ∨ PGROUNDUP sz' / PGSIZE ≤ q → pt'.leaf q = pt.leaf q)
    (added : ∀ q, PGROUNDUP sz / PGSIZE ≤ q → q < PGROUNDUP sz' / PGSIZE →
      pt.leaf q = none ∧ ∃ pa, pt'.leaf q = some ⟨pa, perm⟩)
      (readable : perm.r = true) : Shaped pt' sz' trampoline trapframe := by
  have pages := TRAPFRAME_pages
  have old := (PGROUNDUP_small shaped.small).2
  have room : PGROUNDUP sz' / PGSIZE ≤ TRAPFRAME / PGSIZE := by
    by_contra more
    have empty := (added (TRAPFRAME / PGSIZE) old (by omega)).1
    rw [shaped.frame] at empty
    cases empty
  have order' := PGROUNDUP_mono order below
  refine ⟨sound, ?_, ?_, fun {q} top frame => ?_, fun {q pte} here => ?_, ?_⟩
  · rw [kept _ (.inr (by omega)), shaped.top]
  · rw [kept _ (.inr room), shaped.frame]
  · by_cases new : PGROUNDUP sz / PGSIZE ≤ q ∧ q < PGROUNDUP sz' / PGSIZE
    · obtain ⟨-, pa, here⟩ := added q new.1 new.2
      exact ⟨fun _ => new.2, fun _ => here ▸ Option.some_ne_none _⟩
    · rw [kept q (by omega)]
      exact (shaped.user top frame).trans (by omega)
  · by_cases new : PGROUNDUP sz / PGSIZE ≤ q ∧ q < PGROUNDUP sz' / PGSIZE
    · obtain ⟨-, pa, there⟩ := added q new.1 new.2
      obtain rfl := Option.some.inj (there.symm.trans here)
      exact readable
    · rw [kept q (by omega)] at here
      exact shaped.readable here
  · exact PGROUNDUP_room below room

/-- The pages above a smaller size have been removed. -/
theorem Shaped.shrink (shaped : Shaped pt sz trampoline trapframe) (sound : pt'.Sound) (order : sz' ≤ sz)
    (leaf : pt'.leaf = cleared pt.leaf (PGROUNDUP sz' / PGSIZE) (PGROUNDUP sz / PGSIZE -
      PGROUNDUP sz' / PGSIZE)) :
    Shaped pt' sz' trampoline trapframe := by
  have pages := TRAPFRAME_pages
  have old := (PGROUNDUP_small shaped.small).2
  have order' := PGROUNDUP_mono order (shaped.small.trans TRAPFRAME_below)
  refine ⟨sound, ?_, ?_, fun {q} top frame => ?_, fun {q pte} here => ?_, order.trans shaped.small⟩
  · rw [leaf, cleared, if_neg (by omega), shaped.top]
  · rw [leaf, cleared, if_neg (by omega), shaped.frame]
  · rw [leaf, cleared]
    by_cases gone : PGROUNDUP sz' / PGSIZE ≤ q ∧ q < PGROUNDUP sz' / PGSIZE +
      (PGROUNDUP sz / PGSIZE - PGROUNDUP sz' / PGSIZE)
    · rw [if_pos gone]
      exact ⟨fun wrong => absurd rfl wrong, fun wrong => by omega⟩
    · rw [if_neg gone]
      exact (shaped.user top frame).trans (by omega)
  · rw [leaf, cleared] at here
    split at here
    · cases here
    · exact shaped.readable here

/-- Pages of `F` have been used for a page table that has another size now. -/
structure Resized (F : Nat → Prop) (s s' : Memory) (pt pt' : Pagetable) (sz' top frame : Nat) : Prop
    extends Uses F s s' where
  kernelEnd : s'.kernelEnd = s.kernelEnd
  owned : Owned F s' pt' sz' top frame
  total (x) : total s' pt' x = total s pt x

theorem Owned.resized (own : Owned F s pt sz trampoline trapframe) (step : Step F s s' pt pt')
    (balance : ∀ x, total s' pt' x = total s pt x) (kernelEnd : s'.kernelEnd = s.kernelEnd)
    (shaped : Shaped pt' sz' trampoline trapframe) (frames : ∀ q pte, q < TRAPFRAME / PGSIZE →
      pt'.leaf q = some pte → F pte.pa) :
    Resized F s s' pt pt' sz' trampoline trapframe := { step.toUses with
  kernelEnd
  owned := own.step step (fun x _ => balance x) (fun x here => balance x ▸ own.once here) kernelEnd shaped frames
  total := balance }

theorem uvmdealloc_safe (own : Owned F s pt sz trampoline trapframe) (newsz : Nat) :
    Safe (uvmdealloc pt sz newsz) s := by
  have pages := TRAPFRAME_pages
  have old := (PGROUNDUP_small own.small).2
  unfold uvmdealloc
  refine Safe.ite (fun _ => .pure _ _) fun _ => Safe.ite (fun less => ?_) fun _ => .pure _ _
  have count : PGROUNDUP newsz / PGSIZE + (PGROUNDUP sz - PGROUNDUP newsz) / PGSIZE =
    PGROUNDUP sz / PGSIZE := by
    have aligned := PGROUNDUP_aligned newsz
    have aligned' := PGROUNDUP_aligned sz
    unfold PGSIZE at *
    omega
  have unmap : Safe (uvmunmap pt (PGROUNDUP newsz) ((PGROUNDUP sz - PGROUNDUP newsz) / PGSIZE) true) s := by
    refine Safe.ite (fun wrong => absurd (PGROUNDUP_aligned newsz) wrong) fun _ => ?_
    refine unmapLoop_safe true own.sound (by omega) fun q lower upper => ?_
    obtain ⟨pte, here⟩ := Option.ne_none_iff_exists'.mp (own.mapped (by omega : q < PGROUNDUP sz / PGSIZE))
    exact ⟨pte, here, own.readable here, fun _ => own.valid (own.frames (by omega) here)⟩
  exact unmap.bind Gives.any fun _ _ _ _ => .pure _ _

theorem uvmdealloc_ends (own : Owned F s pt sz trampoline trapframe) (newsz : Nat) :
    Ends (uvmdealloc pt sz newsz) s (fun _ => False) fun r s' =>
      r.1 = min sz newsz ∧ Resized F s s' pt r.2 r.1 trampoline trapframe := by
  have old := (PGROUNDUP_small own.small).2
  refine ((uvmdealloc_safe own newsz).ends.and (uvmdealloc_gives pt sz newsz own.free fun q pte lower upper =>
    own.frames (by omega))).mono fun r s' ⟨same, step, balance, way⟩ => ?_
  obtain ⟨more, size, leaf⟩ | ⟨less, size, leaf⟩ := way
  · rw [size, min_eq_left more]
    exact ⟨rfl, own.resized step balance same (own.toShaped.congr (step.sound own.sound) leaf)
      fun q pte below here =>
      own.frames below (leaf ▸ here)⟩
  · rw [size, min_eq_right less.le]
    refine ⟨rfl, own.resized step balance same (own.toShaped.shrink (step.sound own.sound) less.le leaf)
      fun q pte below here => ?_⟩
    rw [leaf, cleared] at here
    split at here
    · cases here
    · exact own.frames below here

/-- A free page is taken. -/
theorem Owned.taken (own : Owned F s pt sz trampoline trapframe) {mem : Nat} (uses : Uses F s s')
    (list : s.freelist = mem :: s'.freelist)
    (kernelEnd : s'.kernelEnd = s.kernelEnd) : Owned F s' pt sz trampoline trapframe ∧
      ∀ x, total s' pt x + (if mem = x then 1 else 0) = total s pt x := by
  have count (x : Nat) : total s' pt x + (if mem = x then 1 else 0) = total s pt x := by
    unfold total
    rw [list, count_cons]
    omega
  have listed : F mem := own.free mem (list ▸ List.mem_cons_self ..)
  refine ⟨own.step (uses.same pt) (fun x out => ?_) (fun x here => ?_) kernelEnd own.toShaped fun _ _ =>
    own.frames, count⟩
  · have other : mem ≠ x := by
      rintro rfl
      exact out listed
    have same := count x
    rwa [if_neg other, Nat.add_zero] at same
  · have once := own.once here
    have same := count x
    omega

/-- A page of `F` that is in use nowhere else is mapped above the size. -/
theorem Owned.extended (own : Owned F s pt a trampoline trapframe) (aligned : a % PGSIZE = 0)
    {mem : Nat} (page : F mem)
    (spare : total s pt mem = 0) (readable : perm.r = true) (kernelEnd : s'.kernelEnd = s.kernelEnd)
    (step : Step F s s' pt pt')
    (leaf : pt'.leaf = update pt.leaf (a / PGSIZE) (some ⟨mem, perm⟩))
    (balance : ∀ x, total s' pt' x = total s pt x + if mem = x then 1 else 0) :
    Owned F s' pt' (a + PGSIZE) trampoline trapframe := by
  have few := own.few
  have below : a ≤ MAXVA := own.small.trans TRAPFRAME_below
  have whole := PGROUNDUP_self aligned below
  rw [whole] at few
  have below' : a + PGSIZE ≤ MAXVA := by
    unfold MAXVA PGSIZE at *
    omega
  have next := PGROUNDUP_self ((Nat.add_mod_right a PGSIZE).trans aligned) below'
  have pages : (a + PGSIZE) / PGSIZE = a / PGSIZE + 1 := Nat.add_div_right a (by decide)
  have last : 2 ^ 15 < TRAPFRAME / PGSIZE := by
    unfold TRAPFRAME TRAMPOLINE MAXVA PGSIZE
    omega
  have ends := TRAPFRAME_pages
  have empty : pt.leaf (a / PGSIZE) = none := by
    by_contra some
    rcases own.above some (by rw [whole]) with top | frame <;> omega
  refine own.step step (fun x out => ?_) (fun x here => ?_) kernelEnd ?_ fun q pte early here => ?_
  · have other : mem ≠ x := by
      rintro rfl
      exact out page
    rw [balance, if_neg other, Nat.add_zero]
  · have once := own.once here
    rw [balance]
    by_cases same : mem = x
    · rw [if_pos same, ← same, spare]
    · rwa [if_neg same, Nat.add_zero]
  · refine own.toShaped.grow (step.sound own.sound) (Nat.le_add_right a PGSIZE) below' (fun q out => ?_)
      (fun q lower upper => ?_) readable
    · rw [whole, next] at out
      rw [leaf, update_of_ne (by omega)]
    · rw [whole] at lower
      rw [next, pages] at upper
      obtain rfl : q = a / PGSIZE := by omega
      exact ⟨empty, mem, by rw [leaf, update_self]⟩
  · rw [leaf] at here
    by_cases new : q = a / PGSIZE
    · rw [new, update_self] at here
      obtain rfl := Option.some.inj here
      exact page
    · rw [update_of_ne new] at here
      exact own.frames early here

theorem allocLoop_safe (n : Nat) (own : Owned F s pt a trampoline trapframe) (aligned : a % PGSIZE = 0)
    (order : start ≤ a)
    (readable : perm.r = true) : Safe (allocLoop start newsz perm n pt a) s := by
  induction n generalizing s pt a with
  | zero => exact .pure _ _
  | succ n ih =>
    have few := own.few
    have whole := PGROUNDUP_self aligned (own.small.trans TRAPFRAME_below)
    rw [whole] at few
    have inside : a < MAXVA := by
      unfold MAXVA PGSIZE at *
      omega
    have empty : pt.leaf (a / PGSIZE) = none := by
      by_contra some
      have last : 2 ^ 15 < TRAPFRAME / PGSIZE := by
        unfold TRAPFRAME TRAMPOLINE MAXVA PGSIZE
        omega
      have ends := TRAPFRAME_pages
      rcases own.above some (by rw [whole]) with top | frame <;> omega
    unfold allocLoop
    refine (kalloc_safe s).bind (kalloc_gives own.free) fun r s₁ alloc same => ?_
    obtain ⟨uses, -, ⟨rfl, rfl, -⟩ | ⟨mem, rfl, list⟩⟩ := alloc
    · exact (uvmdealloc_safe own start).bind Gives.any fun _ _ _ _ => .pure _ _
    have page : F mem := own.free mem (list ▸ List.mem_cons_self ..)
    obtain ⟨own₁, count⟩ := own.taken uses list same
    refine (mappages_safe pt perm aligned inside empty s₁).bind (mappages_gives pt a mem perm uses.free)
      fun r s₂ map same' => ?_
    obtain ⟨step, -, -, ⟨zero, -, leaf, balance⟩ | ⟨failed, leaf, balance, -⟩⟩ := map
    · refine Safe.ite (fun wrong => absurd zero wrong) fun _ => ?_
      have spare : total s₁ pt mem = 0 := by
        have once := own.once page
        have less := count mem
        rw [if_pos rfl] at less
        omega
      exact ih (own₁.extended aligned page spare readable same' step leaf balance)
        ((Nat.add_mod_right a PGSIZE).trans aligned)
        (by omega)
    · refine Safe.ite (fun _ => ?_) fun wrong => absurd failed (by omega)
      have own₂ := (own₁.resized step balance same' (own₁.toShaped.congr (step.sound own₁.sound) leaf)
        fun q pte early here =>
        own₁.frames early (leaf ▸ here)).owned
      refine (kfree_safe (own₂.valid page)).bind (kfree_gives step.free page) fun _ s₃ freed same₃ => ?_
      refine (uvmdealloc_safe (?_ : Owned F s₃ r.2 a trampoline trapframe) start).bind Gives.any
        fun _ _ _ _ => .pure _ _
      have back (x : Nat) : total s₃ r.2 x = total s pt x := by
        have before := balance x
        have less := count x
        unfold total at before less ⊢
        rw [freed.2, count_cons]
        omega
      refine own₂.step (freed.1.same r.2) (fun x out => ?_) (fun x here => back x ▸ own.once here)
        same₃ own₂.toShaped fun _ _ => own₂.frames
      have less := count x
      have other : mem ≠ x := by
        rintro rfl
        exact out page
      rw [if_neg other, Nat.add_zero] at less
      rw [back, balance, less]

/-- `uvmalloc` gives the new size and the pages for it, or 0 and no page. -/
theorem uvmalloc_ends (own : Owned F s pt sz trampoline trapframe) (newsz : Nat) (w x : Bool) :
    Ends (uvmalloc pt sz newsz w x) s (fun _ => False) fun r s' =>
      Resized F s s' pt r.2 (if r.1 = 0 then sz else r.1) trampoline trapframe ∧ (r.1 ≠ 0 → newsz ≤ r.1) ∧
        (pt.Users → r.2.Users) := by
  have whole := PGROUNDUP_small own.small
  have rounded : Owned F s pt (PGROUNDUP sz) trampoline trapframe := { own with
    toShaped := own.toShaped.resize whole.1 (by rw [PGROUNDUP_idem own.small]) }
  have safe : Safe (uvmalloc pt sz newsz w x) s := by
    unfold uvmalloc
    exact Safe.ite (fun _ => .pure _ _) fun _ => allocLoop_safe _ rounded (PGROUNDUP_aligned sz) le_rfl rfl
  refine (safe.ends.and (uvmalloc_gives pt sz newsz w x (own.small.trans TRAPFRAME_below) own.free)).mono
    fun r s' ⟨same, step, balance, way⟩ => ?_
  have unchanged (leaf : r.2.leaf = pt.leaf) : Resized F s s' pt r.2 sz trampoline trapframe ∧
    (pt.Users → r.2.Users) :=
    ⟨own.resized step balance same (own.toShaped.congr (step.sound own.sound) leaf) fun q pte early here =>
      own.frames early (leaf ▸ here), fun users q pte early here => users q pte early (leaf ▸ here)⟩
  obtain ⟨less, size, leaf⟩ | ⟨-, size, leaf⟩ | ⟨order, size, below, takes, kept, added⟩ := way
  · rw [size, if_neg (by omega)]
    exact ⟨(unchanged leaf).1, fun _ => less.le, (unchanged leaf).2⟩
  · rw [if_pos size]
    exact ⟨(unchanged leaf).1, fun wrong => absurd size wrong, (unchanged leaf).2⟩
  · have result : (if r.1 = 0 then sz else r.1) = newsz := by
      rw [size]
      split <;> omega
    rw [result]
    have shaped := own.toShaped.grow (step.sound own.sound) order below kept
      (fun q lower upper => (added q lower upper).imp_right fun ⟨pa, _, here⟩ => ⟨pa, here⟩) rfl
    have new {q : Nat} {pte : Pte} (here : r.2.leaf q = some pte) :
        pt.leaf q = some pte ∨ pte.pa ∈ s.freelist ∧ pte.perm.u = true := by
      by_cases inside : PGROUNDUP sz / PGSIZE ≤ q ∧ q < PGROUNDUP newsz / PGSIZE
      · obtain ⟨-, pa, listed, there⟩ := added q inside.1 inside.2
        obtain rfl := Option.some.inj (there.symm.trans here)
        exact .inr ⟨listed, rfl⟩
      · rw [kept q (by omega)] at here
        exact .inl here
    refine ⟨own.resized step balance same shaped fun q pte early here => ?_, fun _ => size.ge,
      fun users q pte early here => ?_⟩
    · exact (new here).elim (own.frames early) fun added => own.free _ added.1
    · exact (new here).elim (users q pte early) And.right

/-- A page of memory is written. -/
theorem Owned.write (own : Owned F s pt sz trampoline trapframe) (pa a n : Nat) (src : Bytes) :
    Owned F (s.write pa a n src) pt sz trampoline trapframe :=
  ⟨own.toShaped, own.free, own.frames, own.tables, own.once, own.valid, own.kernelEnd⟩

end Owned

end Xv6.Vm
