import Xv6.Lib.Gives
import Xv6.Lib.Tally
import Xv6.Vm.Copyout

/-! Where the pages of memory are: each stays on the free list or in the page table. -/

namespace Xv6.Vm
open Function

namespace Pagetable

/-- How often a page of memory is one of the tables. -/
def tables (pt : Pagetable) (pa : Nat) : Nat :=
  (if pt.root = pa then 1 else 0) + tally pt.mid pa (2 ^ 9) + tally pt.low pa (2 ^ 18)

/-- The page of memory that a page is mapped to. -/
def frame (pt : Pagetable) (p : Nat) : Option Nat := (pt.leaf p).map Pte.pa

def owned (pt : Pagetable) (pa : Nat) : Nat := pt.tables pa + tally pt.frame pa (2 ^ 27)

/-- Every entry is in a table that is there. -/
structure Sound (pt : Pagetable) : Prop where
  mid {i} : pt.mid i ≠ none → i < 2 ^ 9
  low {i} : pt.low i ≠ none → pt.mid (i / 2 ^ 9) ≠ none
  leaf {p} : pt.leaf p ≠ none → pt.low (p / 2 ^ 9) ≠ none

end Pagetable

/-- How often a page is free or in the page table. -/
def total (s : Memory) (pt : Pagetable) (pa : Nat) : Nat := s.freelist.count pa + pt.owned pa

/-- Only pages of `F` are written, and only these are free. -/
structure Uses (F : Nat → Prop) (s s' : Memory) : Prop where
  free : ∀ pa ∈ s'.freelist, F pa
  mem {pa} : ¬F pa → s'.mem pa = s.mem pa
  trampoline : s'.trampoline = s.trampoline

/-- Free pages are taken from the front of the list, and only these are written. -/
structure Takes (s s' : Memory) : Prop where
  suffix : s'.freelist <:+ s.freelist
  others {x} : x ∉ s.freelist → s'.mem x = s.mem x

/-- Besides, tables are only added. -/
structure Step (F : Nat → Prop) (s s' : Memory) (pt pt' : Pagetable) : Prop extends Uses F s s' where
  root : pt'.root = pt.root
  mid {i page} : pt.mid i = some page → pt'.mid i = some page
  low {i page} : pt.low i = some page → pt'.low i = some page
  sound : pt.Sound → pt'.Sound

section Ledger

variable {F : Nat → Prop} {s s' s'' : Memory} {pt pt' pt'' : Pagetable} {pa i p : Nat}

theorem Uses.refl (free : ∀ pa ∈ s.freelist, F pa) : Uses F s s := ⟨free, fun _ => rfl, rfl⟩

theorem Uses.trans (first : Uses F s s') (second : Uses F s' s'') : Uses F s s'' :=
  ⟨second.free, fun out => (second.mem out).trans (first.mem out), second.trampoline.trans first.trampoline⟩

theorem Uses.mono {G : Nat → Prop} (uses : Uses F s s') (more : ∀ pa, F pa → G pa) : Uses G s s' :=
  ⟨fun pa listed => more pa (uses.free pa listed), fun out => uses.mem fun own =>
    out (more _ own), uses.trampoline⟩

theorem Uses.same (uses : Uses F s s') (pt : Pagetable) : Step F s s' pt pt := ⟨uses, rfl, id, id, id⟩

theorem Step.trans (first : Step F s s' pt pt') (second : Step F s' s'' pt' pt'') : Step F s s'' pt pt'' :=
  ⟨first.toUses.trans second.toUses, second.root.trans first.root, second.mid ∘ first.mid,
    second.low ∘ first.low,
    second.sound ∘ first.sound⟩

theorem Takes.refl (s : Memory) : Takes s s := ⟨List.suffix_refl _, fun _ => rfl⟩

theorem Takes.trans (first : Takes s s') (second : Takes s' s'') : Takes s s'' :=
  ⟨second.suffix.trans first.suffix,
    fun out => (second.others fun here => out (first.suffix.subset here)).trans (first.others out)⟩

/-- A page that is taken is written. -/
theorem Takes.write {pa : Nat} (list : s.freelist = pa :: s'.freelist)
    (mem : ∀ x, x ≠ pa → s'.mem x = s.mem x) : Takes s s' := by
  refine ⟨list ▸ List.suffix_cons pa _, fun {x} out => mem x ?_⟩
  rintro rfl
  rw [list] at out
  exact out (List.mem_cons_self ..)

theorem write_uses (free : ∀ pa ∈ s.freelist, F pa) (use : F pa) (a n : Nat) (src : Bytes) :
    Uses F s (s.write pa a n src) :=
  ⟨free, fun out => update_of_ne (by rintro rfl; exact out use) _ _, rfl⟩

theorem tables_setMid (inside : i < 2 ^ 9) (empty : pt.mid i = none) (x : Nat) :
    Pagetable.tables { pt with mid := update pt.mid i (some pa) } x = pt.tables x +
    if pa = x then 1 else 0 := by
  have added := @Tally.update_add pt.mid x i _ (some pa) inside
  rw [empty, if_neg (Option.some_ne_none x).symm] at added
  simp only [Option.some.injEq] at added
  unfold Pagetable.tables
  dsimp only
  omega

theorem tables_setLow (inside : i < 2 ^ 18) (empty : pt.low i = none) (x : Nat) :
    Pagetable.tables { pt with low := update pt.low i (some pa) } x = pt.tables x +
    if pa = x then 1 else 0 := by
  have added := @Tally.update_add pt.low x i _ (some pa) inside
  rw [empty, if_neg (Option.some_ne_none x).symm] at added
  simp only [Option.some.injEq] at added
  unfold Pagetable.tables
  dsimp only
  omega

theorem owned_setLeaf (inside : p < 2 ^ 27) (pte : Option Pte) (x : Nat) :
    Pagetable.owned { pt with leaf := update pt.leaf p pte } x + (if pt.frame p = some x then 1 else 0) =
      pt.owned x + if pte.map Pte.pa = some x then 1 else 0 := by
  have changed := @Tally.update_add pt.frame x p _ (pte.map Pte.pa) inside
  have frames : Pagetable.frame { pt with leaf := update pt.leaf p pte } = update pt.frame p
    (pte.map Pte.pa) := by
    funext q
    unfold Pagetable.frame
    by_cases same : q = p
    · subst same
      simp only [update_self]
    · simp only [update_of_ne same]
  show pt.tables x + tally (Pagetable.frame _) x _ + _ = pt.tables x + _ + _
  rw [frames]
  omega

/-- A page is mapped that was not. -/
theorem owned_map (inside : p < 2 ^ 27) (empty : pt.leaf p = none) (pte : Pte) (x : Nat) :
    Pagetable.owned { pt with leaf := update pt.leaf p (some pte) } x = pt.owned x +
    if pte.pa = x then 1 else 0 := by
  have added := @owned_setLeaf pt p inside (some pte) x
  have frame : pt.frame p = none := by rw [Pagetable.frame, empty, Option.map_none]
  rw [frame, if_neg (Option.some_ne_none x).symm, Option.map_some, Nat.add_zero] at added
  rw [added]
  congr 1
  simp only [Option.some.injEq]

/-- A page is unmapped that was there. -/
theorem owned_unmap (inside : p < 2 ^ 27) {pte : Pte} (here : pt.leaf p = some pte) (x : Nat) :
    Pagetable.owned { pt with leaf := update pt.leaf p none } x +
    (if pte.pa = x then 1 else 0) = pt.owned x := by
  have removed := @owned_setLeaf pt p inside none x
  have frame : pt.frame p = some pte.pa := by rw [Pagetable.frame, here, Option.map_some]
  rw [frame, Option.map_none, if_neg (Option.some_ne_none x).symm, Nat.add_zero] at removed
  rw [← removed]
  congr 1
  simp only [Option.some.injEq]

/-! ### The allocator -/

theorem kalloc_gives (free : ∀ pa ∈ s.freelist, F pa) :
    Gives kalloc s fun r s' => Uses F s s' ∧ s'.mem = s.mem ∧
    (r = none ∧ s' = s ∧ s.freelist = [] ∨ ∃ pa, r = some pa ∧ s.freelist = pa :: s'.freelist) := by
  intro r s' run
  unfold kalloc at run
  cases list : s.freelist with
  | nil =>
    rw [list] at run
    cases run
    exact ⟨.refl free, rfl, .inl ⟨rfl, rfl, rfl⟩⟩
  | cons pa rest =>
    rw [list] at run
    cases run
    rw [list] at free
    exact ⟨⟨fun x member => free x (List.mem_cons_of_mem pa member), fun _ => rfl, rfl⟩, rfl,
      .inr ⟨pa, rfl, rfl⟩⟩

theorem count_cons (pa : Nat) (l : List Nat) (x : Nat) :
    (pa :: l).count x = l.count x + if pa = x then 1 else 0 := by
  rw [List.count_cons]
  simp only [beq_iff_eq]

theorem kfree_gives (free : ∀ pa ∈ s.freelist, F pa) (use : F pa) :
    Gives (kfree pa) s fun _ s' => Uses F s s' ∧
    s'.freelist = pa :: s.freelist := by
  intro _ s' run
  unfold kfree at run
  split at run
  · cases run
  · cases run
    exact ⟨⟨List.forall_mem_cons.mpr ⟨use, free⟩,
      fun out => update_of_ne (by rintro rfl; exact out use) _ _, rfl⟩, rfl⟩

theorem memset_gives (free : ∀ pa ∈ s.freelist, F pa) (use : F pa) :
    Gives (memset pa) s fun _ s' => Uses F s s' ∧
    (∀ x, x ≠ pa → s'.mem x = s.mem x) ∧ s'.freelist = s.freelist :=
  Gives.modify ⟨write_uses free use _ _ _, fun _ other => update_of_ne other _ _, rfl⟩

/-- A table that an entry points to, or else a new one. -/
theorem descend_gives (entry : Option Nat) (free : ∀ pa ∈ s.freelist, F pa) :
    Gives (descend entry true) s fun r s' =>
    Uses F s s' ∧ Takes s s' ∧
      (entry = r ∧ s' = s ∧ r ≠ none ∨ entry = none ∧ r = none ∧ s' = s ∧ s.freelist = [] ∨
        entry = none ∧ ∃ pa, r = some pa ∧ s.freelist = pa :: s'.freelist) := by
  cases entry with
  | some page => exact Gives.pure ⟨.refl free, .refl s, .inl ⟨rfl, rfl, Option.some_ne_none page⟩⟩
  | none =>
    refine (kalloc_gives free).bind fun r s' alloc => ?_
    obtain ⟨uses, mem, ⟨rfl, rfl, list⟩ | ⟨pa, rfl, list⟩⟩ := alloc
    · exact Gives.pure ⟨uses, .refl s', .inr (.inl ⟨rfl, rfl, rfl, list⟩)⟩
    · have use : F pa := free pa (list ▸ List.mem_cons_self ..)
      refine (memset_gives uses.free use).bind fun _ s'' set => Gives.pure ?_
      obtain ⟨uses', others, same⟩ := set
      refine ⟨uses.trans uses', .write (same ▸ list) fun x other => ?_,
        .inr (.inr ⟨rfl, pa, rfl, same ▸ list⟩)⟩
      rw [others x other, mem]

/-! ### Page tables -/

theorem page_indices (inside : i < MAXVA) : i / 2 ^ 30 < 2 ^ 9 ∧ i / 2 ^ 21 < 2 ^ 18 ∧
    i / 2 ^ 21 / 2 ^ 9 = i / 2 ^ 30 ∧
    i / PGSIZE / 2 ^ 9 = i / 2 ^ 21 ∧ i / PGSIZE < 2 ^ 26 := by
  unfold MAXVA PGSIZE at *
  omega

/-- An entry of level 2 for an address. -/
theorem setMid_step (uses : Uses F s s') {page : Nat} (inside : i < 2 ^ 9)
    (entry : pt.mid i = none ∨ pt.mid i = some page) :
    Step F s s' pt { pt with mid := update pt.mid i (some page) } := by
  refine ⟨uses, rfl, fun {j page'} there => ?_, id, fun sound => ⟨fun {j} some => ?_,
    fun {j} some => ?_, sound.leaf⟩⟩
  · dsimp only
    by_cases same : j = i
    · subst same
      rw [update_self]
      rcases entry with none | here
      · rw [none] at there
        cases there
      · rw [← here, there]
    · rw [update_of_ne same, there]
  · by_cases same : j = i
    · omega
    · dsimp only at some
      rw [update_of_ne same] at some
      exact sound.mid some
  · dsimp only
    by_cases same : j / 2 ^ 9 = i
    · rw [same, update_self]
      exact Option.some_ne_none page
    · rw [update_of_ne same]
      exact sound.low some

/-- An entry of level 1, under one of level 2. -/
theorem setLow_step (uses : Uses F s s') {page : Nat} (above : pt.mid (i / 2 ^ 9) ≠ none)
    (entry : pt.low i = none ∨ pt.low i = some page) :
    Step F s s' pt { pt with low := update pt.low i (some page) } := by
  refine ⟨uses, rfl, id, fun {j page'} there => ?_, fun sound => ⟨sound.mid, fun {j} some => ?_,
    fun {p} some => ?_⟩⟩
  · dsimp only
    by_cases same : j = i
    · subst same
      rw [update_self]
      rcases entry with none | here
      · rw [none] at there
        cases there
      · rw [← here, there]
    · rw [update_of_ne same, there]
  · by_cases same : j = i
    · rw [same]
      exact above
    · dsimp only at some
      rw [update_of_ne same] at some
      exact sound.low some
  · dsimp only
    by_cases same : p / 2 ^ 9 = i
    · rw [same, update_self]
      exact Option.some_ne_none page
    · rw [update_of_ne same]
      exact sound.leaf some

/-- Free pages became tables, and nothing else changed. -/
structure Walked (F : Nat → Prop) (s s' : Memory) (pt pt' : Pagetable) : Prop extends Step F s s' pt pt' where
  takes : Takes s s'
  leaf : pt'.leaf = pt.leaf
  total (x) : total s' pt' x = total s pt x

theorem Walked.refl (free : ∀ pa ∈ s.freelist, F pa) (pt : Pagetable) : Walked F s s pt pt :=
  ⟨(Uses.refl free).same pt, .refl s, rfl, fun _ => rfl⟩

theorem Walked.trans (first : Walked F s s' pt pt') (second : Walked F s' s'' pt' pt'') :
    Walked F s s'' pt pt'' :=
  ⟨first.toStep.trans second.toStep, first.takes.trans second.takes, second.leaf.trans first.leaf,
    fun x => (second.total x).trans (first.total x)⟩

/-- The table of level 1 for an address. -/
theorem mid_gives (pt : Pagetable) (inside : i < 2 ^ 9) (free : ∀ pa ∈ s.freelist, F pa) :
    Gives (descend (pt.mid i) true) s fun r s' => r = none ∧ s' = s ∧ s.freelist = [] ∨
      ∃ page, r = some page ∧ Walked F s s' pt { pt with mid := update pt.mid i (some page) } := by
  refine (descend_gives (pt.mid i) free).mono fun r s' ⟨uses, takes, way⟩ => ?_
  obtain ⟨rfl, rfl, there⟩ | ⟨-, rfl, rfl, list⟩ | ⟨empty, page, rfl, list⟩ := way
  · obtain ⟨page, here⟩ := Option.ne_none_iff_exists'.mp there
    have same : update pt.mid i (some page) = pt.mid := by rw [← here, update_eq_self]
    refine .inr ⟨page, here, ?_⟩
    rw [same]
    exact .refl free pt
  · exact .inl ⟨rfl, rfl, list⟩
  · refine .inr ⟨page, rfl, setMid_step uses inside (.inl empty), takes, rfl, fun x => ?_⟩
    · have added := @tables_setMid pt page i inside empty x
      have taken := count_cons page s'.freelist x
      unfold total Pagetable.owned
      rw [added, list, taken]
      show _ + (_ + tally pt.frame x _) = _
      omega

/-- The table of level 0 for an address. -/
theorem low_gives (pt : Pagetable) (inside : i < 2 ^ 18) (above : pt.mid (i / 2 ^ 9) ≠ none)
    (free : ∀ pa ∈ s.freelist, F pa) :
    Gives (descend (pt.low i) true) s fun r s' => r = none ∧ s' = s ∧ s.freelist = [] ∨
      ∃ page, r = some page ∧ Walked F s s' pt { pt with low := update pt.low i (some page) } := by
  refine (descend_gives (pt.low i) free).mono fun r s' ⟨uses, takes, way⟩ => ?_
  obtain ⟨rfl, rfl, there⟩ | ⟨-, rfl, rfl, list⟩ | ⟨empty, page, rfl, list⟩ := way
  · obtain ⟨page, here⟩ := Option.ne_none_iff_exists'.mp there
    have same : update pt.low i (some page) = pt.low := by rw [← here, update_eq_self]
    refine .inr ⟨page, here, ?_⟩
    rw [same]
    exact .refl free pt
  · exact .inl ⟨rfl, rfl, list⟩
  · refine .inr ⟨page, rfl, setLow_step uses above (.inl empty), takes, rfl, fun x => ?_⟩
    · have added := @tables_setLow pt page i inside empty x
      have taken := count_cons page s'.freelist x
      unfold total Pagetable.owned
      rw [added, list, taken]
      show _ + (_ + tally pt.frame x _) = _
      omega

/-- `walk` finds the tables for an address, or adds them as long as there are free pages. -/
theorem walk_gives (pt : Pagetable) (va : Nat) (free : ∀ pa ∈ s.freelist, F pa) :
    Gives (walk pt va true) s fun r s' =>
    Walked F s s' pt r.2 ∧ va < MAXVA ∧ (r.1 = true ∧ r.2.low (va / 2 ^ 21) ≠ none ∨ r.1 = false ∧
      s'.freelist = []) := by
  unfold walk
  refine Gives.ite (fun _ => Gives.throw _) fun inside => ?_
  have below : va < MAXVA := Nat.lt_of_not_le inside
  obtain ⟨upper, lower, above, -⟩ := page_indices below
  refine (mid_gives pt upper free).bind fun mid s₁ first => ?_
  obtain ⟨rfl, rfl, list⟩ | ⟨page, rfl, walked⟩ := first
  · exact Gives.pure ⟨.refl free pt, below, .inr ⟨rfl, list⟩⟩
  · have there : update pt.mid (va / 2 ^ 30) (some page) (va / 2 ^ 21 / 2 ^ 9) ≠ none := by
      rw [above, update_self]
      exact Option.some_ne_none page
    refine (low_gives { pt with mid := update pt.mid (va / 2 ^ 30) (some page) } lower there walked.free).bind
      fun low s₂ second => ?_
    obtain ⟨rfl, rfl, list⟩ | ⟨page', rfl, walked'⟩ := second
    · exact Gives.pure ⟨walked, below, .inr ⟨rfl, list⟩⟩
    · refine Gives.pure ⟨walked.trans walked', below, .inl ⟨rfl, ?_⟩⟩
      dsimp only
      rw [update_self]
      exact Option.some_ne_none page'

/-- `walk` without `alloc`, as far as it matters. -/
theorem look_gives (pt : Pagetable) (va : Nat) : Gives (walk pt va false) s fun r s' =>
    s' = s ∧ r.2 = pt ∧ va < MAXVA := by
  unfold walk
  refine Gives.ite (fun _ => Gives.throw _) fun inside => ?_
  have below : va < MAXVA := Nat.lt_of_not_le inside
  have found := @walk_found s va pt below
  unfold walk at found
  rw [if_neg inside] at found
  exact .of_run found ⟨rfl, rfl, below⟩

/-- An entry of level 0 is written. -/
theorem setLeaf_step (uses : Uses F s s') {pte : Option Pte} (above : pt.Sound → pte ≠ none →
      pt.low (p / 2 ^ 9) ≠ none) :
    Step F s s' pt { pt with leaf := update pt.leaf p pte } := by
  refine ⟨uses, rfl, id, id, fun sound => ⟨sound.mid, sound.low, fun {q} some => ?_⟩⟩
  dsimp only at some
  by_cases same : q = p
  · subst same
    rw [update_self] at some
    exact above sound some
  · rw [update_of_ne same] at some
    exact sound.leaf some

/-- A page is mapped, or there is no free page for its tables. -/
theorem mappages_gives (pt : Pagetable) (a pa : Nat) (perm : Perm) (free : ∀ pa ∈ s.freelist, F pa) :
    Gives (mappages pt a PGSIZE pa perm) s fun r s' => Step F s s' pt r.2 ∧ Takes s s' ∧ a < MAXVA ∧
      (r.1 = 0 ∧ pt.leaf (a / PGSIZE) = none ∧ r.2.leaf = update pt.leaf (a / PGSIZE) (some ⟨pa, perm⟩) ∧
          (∀ x, total s' r.2 x = total s pt x + if pa = x then 1 else 0) ∨
        r.1 = -1 ∧ r.2.leaf = pt.leaf ∧ (∀ x, total s' r.2 x = total s pt x) ∧ s'.freelist = []) := by
  unfold mappages
  refine Gives.ite (fun _ => Gives.throw _) fun _ => Gives.ite (fun _ => Gives.throw _) fun _ =>
    Gives.ite (fun _ => Gives.throw _) fun _ => ?_
  have one : PGSIZE / PGSIZE = 1 := rfl
  rw [one]
  refine (walk_gives pt a free).bind fun r s₁ walk => ?_
  obtain ⟨found, pt₁⟩ := r
  obtain ⟨walked, below, ⟨rfl, table⟩ | ⟨rfl, list⟩⟩ := walk
  · dsimp only at walked table ⊢
    refine Gives.ite (fun wrong => absurd wrong Bool.false_ne_true) fun _ => Gives.ite
      (fun _ => Gives.throw _) fun empty => ?_
    have none : pt₁.leaf (a / PGSIZE) = none := Option.not_isSome_iff_eq_none.mp empty
    obtain ⟨-, -, -, index, small⟩ := page_indices below
    refine Gives.pure ⟨walked.toStep.trans (setLeaf_step (.refl walked.free) fun _ _ => index ▸ table),
      walked.takes, below,
      .inl ⟨rfl, walked.leaf ▸ none, by rw [walked.leaf], fun x => ?_⟩⟩
    have added := @owned_map pt₁ (a / PGSIZE) (by omega) none ⟨pa, perm⟩ x
    have before := walked.total x
    unfold total at before ⊢
    dsimp only at added ⊢
    omega
  · exact Gives.pure ⟨walked.toStep, walked.takes, below, .inr ⟨rfl, walked.leaf, walked.total, list⟩⟩

/-- The leaves without those of a range. -/
def cleared (leaf : Nat → Option Pte) (first n : Nat) : Nat → Option Pte := fun q =>
  if first ≤ q ∧ q < first + n then none else leaf q

theorem cleared_zero (leaf : Nat → Option Pte) (first : Nat) : cleared leaf first 0 = leaf :=
  funext fun q => if_neg (by omega)

theorem cleared_succ (leaf : Nat → Option Pte) (first n : Nat) :
    cleared (update leaf first none) (first + 1) n = cleared leaf first (n + 1) := by
  funext q
  unfold cleared
  by_cases later : first + 1 ≤ q ∧ q < first + 1 + n
  · rw [if_pos later, if_pos (by omega)]
  · rw [if_neg later]
    by_cases same : q = first
    · subst same
      rw [update_self, if_pos (by omega)]
    · rw [update_of_ne same, if_neg (by omega)]

/-- The pages of a range are unmapped and their frames are free. -/
theorem unmapLoop_gives (n : Nat) (pt : Pagetable) (a : Nat) (free : ∀ pa ∈ s.freelist, F pa)
    (use : ∀ q pte, a / PGSIZE ≤ q → q < a / PGSIZE + n → pt.leaf q = some pte → F pte.pa) :
    Gives (unmapLoop true n pt a) s fun pt' s' => Step F s s' pt pt' ∧
    pt'.leaf = cleared pt.leaf (a / PGSIZE) n ∧
      ∀ x, total s' pt' x = total s pt x := by
  induction n generalizing s pt a with
  | zero =>
    refine Gives.pure ⟨(Uses.refl free).same pt, ?_, fun _ => rfl⟩
    rw [cleared_zero]
  | succ n ih =>
    unfold unmapLoop
    refine (look_gives pt a).bind fun r s₁ look => ?_
    obtain ⟨found, pt₁⟩ := r
    obtain ⟨rfl, rfl, below⟩ := look
    dsimp only
    refine Gives.ite (fun _ => Gives.throw _) fun _ => ?_
    cases here : pt₁.leaf (a / PGSIZE) with
    | none => exact Gives.throw _
    | some pte =>
      have next : (a + PGSIZE) / PGSIZE = a / PGSIZE + 1 := Nat.add_div_right a (by decide)
      have owner := use (a / PGSIZE) pte le_rfl (by omega) here
      refine Gives.ite (fun _ => Gives.throw _) fun _ => (kfree_gives free owner).bind fun _ s₂ freed => ?_
      obtain ⟨uses, list⟩ := freed
      have step : Step F s₁ s₂ pt₁ { pt₁ with leaf := update pt₁.leaf (a / PGSIZE) none } :=
        setLeaf_step uses fun _ some => absurd rfl some
      have left (q : Nat) (later : (a + PGSIZE) / PGSIZE ≤ q) :
        update pt₁.leaf (a / PGSIZE) none q = pt₁.leaf q :=
        update_of_ne (by omega) _ _
      refine (ih { pt₁ with leaf := update pt₁.leaf (a / PGSIZE) none } (a + PGSIZE) uses.free
        fun q pte' later early there =>
        use q pte' (by omega) (by omega) ((left q later).symm.trans there)).mono fun pt' s' rest => ?_
      obtain ⟨step', leaf', total'⟩ := rest
      refine ⟨step.trans step', ?_, fun x => ?_⟩
      · rw [leaf', next, cleared_succ]
      · obtain ⟨-, -, -, -, small⟩ := page_indices below
        have removed := @owned_unmap pt₁ (a / PGSIZE) (by omega) pte here x
        have put := count_cons pte.pa s₁.freelist x
        rw [total']
        unfold total
        rw [list, put]
        omega

/-- One page is unmapped whose frame stays. -/
theorem unmapKeep_gives (pt : Pagetable) (a : Nat) : Gives (uvmunmap pt a 1 false) s fun pt' s' => s' = s ∧
    pt' = { pt with leaf := update pt.leaf (a / PGSIZE) none } ∧ a < MAXVA ∧
    ∃ pte, pt.leaf (a / PGSIZE) = some pte ∧
      ∀ x, total s pt' x + (if pte.pa = x then 1 else 0) = total s pt x := by
  unfold uvmunmap
  refine Gives.ite (fun _ => Gives.throw _) fun _ => ?_
  unfold unmapLoop
  refine (look_gives pt a).bind fun r s₁ look => ?_
  obtain ⟨found, pt₁⟩ := r
  obtain ⟨rfl, rfl, below⟩ := look
  dsimp only
  refine Gives.ite (fun _ => Gives.throw _) fun _ => ?_
  cases here : pt₁.leaf (a / PGSIZE) with
  | none => exact Gives.throw _
  | some pte =>
    refine Gives.ite (fun _ => Gives.throw _) fun _ => Gives.pure ⟨rfl, rfl, below, pte, rfl, fun x => ?_⟩
    obtain ⟨-, -, -, -, small⟩ := page_indices below
    have removed := @owned_unmap pt₁ (a / PGSIZE) (by omega) pte here x
    unfold total
    omega

end Ledger

end Xv6.Vm
