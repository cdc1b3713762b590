import Xv6.Vm.Spaces

/-! Page tables that are made, copied and given back as a whole stop with no panic. -/

namespace Xv6.Vm
open Function

/-- A page table with the user pages below a size and nothing else. -/
structure Plain (F : Nat → Prop) (pt : Pagetable) (sz : Nat) : Prop where
  sound : pt.Sound
  user {q} : pt.leaf q ≠ none ↔ q < PGROUNDUP sz / PGSIZE
  readable {q pte} : pt.leaf q = some pte → pte.perm.r = true
  frames {q pte} : pt.leaf q = some pte → F pte.pa
  tables {pa} : 0 < pt.tables pa → F pa
  small : sz ≤ TRAPFRAME

section Whole

variable {F G : Nat → Prop} {s s' : Memory} {pt pt' old new : Pagetable}
  {a i n pa q sz sz' trampoline trapframe trapframe' : Nat}
  {pte : Pte}

theorem freeLow_safe (i : Nat) (clear : ∀ p, pt.leaf p = none) (valid : ∀ pa, pt.low i = some pa →
      Valid s.kernelEnd pa) :
    Safe (freeLow pt i) s := by
  unfold freeLow
  cases here : pt.low i with
  | none => exact .pure _ _
  | some page =>
    refine Safe.ite (fun some => ?_) fun _ => kfree_safe (valid page here)
    obtain ⟨k, -, there⟩ := List.any_eq_true.mp some
    rw [clear] at there
    cases there

theorem freeMid_safe (i : Nat) (clear : ∀ p, pt.leaf p = none) (valid : ∀ pa, pt.mid i = some pa →
      Valid s.kernelEnd pa)
    (valid' : ∀ j pa, pt.low j = some pa → Valid s.kernelEnd pa) : Safe (freeMid pt i) s := by
  unfold freeMid
  cases here : pt.mid i with
  | none => exact .pure _ _
  | some page =>
    have loop : Safe ((List.range 512).forM fun j => freeLow pt (512 * i + j)) s :=
      .forM_range fun j _ s₁ same => freeLow_safe _ clear fun pa there => same ▸ valid' _ pa there
    exact loop.bind Gives.any fun _ s₁ _ same => kfree_safe (same ▸ valid page here)

/-- `freewalk` when no page is mapped. -/
theorem freewalk_safe (clear : ∀ p, pt.leaf p = none) (sound : pt.Sound)
    (valid : ∀ pa, 0 < pt.tables pa → Valid s.kernelEnd pa) :
    Safe (freewalk pt) s := by
  have loop : Safe ((List.range 512).forM (freeMid pt)) s :=
    .forM_range fun i _ s₁ same => freeMid_safe i clear (fun pa here => same ▸
      valid pa (sound.mid_tables here))
      fun j pa here => same ▸ valid pa (sound.low_tables here)
  refine loop.bind Gives.any fun _ s₁ _ same => kfree_safe (same ▸ valid pt.root ?_)
  unfold Pagetable.tables
  rw [if_pos rfl]
  omega

theorem uvmfree_safe (plain : Plain F pt sz) (free : ∀ pa ∈ s.freelist, F pa)
    (valid : ∀ pa, F pa → Valid s.kernelEnd pa) :
    Safe (uvmfree pt sz) s := by
  have pages := (PGROUNDUP_small plain.small).2
  have ends := TRAPFRAME_pages
  unfold uvmfree
  refine Safe.ite (fun _ => ?_) fun empty => ?_
  · have unmap : Safe (uvmunmap pt 0 (PGROUNDUP sz / PGSIZE) true) s := by
      refine Safe.ite (fun wrong => absurd wrong (by decide)) fun _ => ?_
      refine unmapLoop_safe true plain.sound (by rw [Nat.zero_div]; omega) fun q _ upper => ?_
      rw [Nat.zero_div, Nat.zero_add] at upper
      obtain ⟨pte, here⟩ := Option.ne_none_iff_exists'.mp (plain.user.mpr upper)
      exact ⟨pte, here, plain.readable here, fun _ => valid _ (plain.frames here)⟩
    have gives : Gives (uvmunmap pt 0 (PGROUNDUP sz / PGSIZE) true) s fun pt' s' => Step F s s' pt pt' ∧
        pt'.leaf = cleared pt.leaf (0 / PGSIZE) (PGROUNDUP sz / PGSIZE) ∧
        ∀ x, total s' pt' x = total s pt x := by
      refine Gives.ite (fun _ => Gives.throw _) fun _ => unmapLoop_gives _ pt 0 free
        fun q pte _ _ here => plain.frames here
    refine unmap.bind gives fun pt' s₁ ⟨step, leaf, balance⟩ same => ?_
    have clear (p : Nat) : pt'.leaf p = none := by
      rw [leaf, cleared, Nat.zero_div, Nat.zero_add]
      by_cases below : p < PGROUNDUP sz / PGSIZE
      · rw [if_pos ⟨Nat.zero_le p, below⟩]
      · rw [if_neg fun inside => below inside.2]
        exact not_not.mp fun some => below (plain.user.mp some)
    refine freewalk_safe clear (step.sound plain.sound) fun pa here => same ▸ valid pa ?_
    by_contra out
    have count := balance pa
    have unlisted : s.freelist.count pa = 0 := List.count_eq_zero.mpr fun listed => out (free pa listed)
    have none : ¬0 < pt.tables pa := fun some => out (plain.tables some)
    have frames : tally pt.frame pa (2 ^ 27) = 0 := Tally.zero fun q _ framed => by
      obtain ⟨pte, mapped, rfl⟩ := Option.map_eq_some_iff.mp framed
      exact out (plain.frames mapped)
    unfold total Pagetable.owned at count
    omega
  · obtain rfl : sz = 0 := by omega
    refine freewalk_safe (fun p => not_not.mp fun some => ?_) plain.sound fun pa here =>
      valid pa (plain.tables here)
    exact absurd (plain.user.mp some) (Nat.not_lt_zero p)

/-- The pages besides those of `F` that a page table maps. -/
theorem Owned.tally_le (own : Owned F s pt sz trampoline trapframe) (out : ¬F pa) :
    pt.owned pa ≤ (if trampoline = pa then 1 else 0) + if trapframe = pa then 1 else 0 := by
  have ends := TRAPFRAME_pages
  have last : MAXVA / PGSIZE < 2 ^ 27 := by
    unfold MAXVA PGSIZE
    omega
  have none : ¬0 < pt.tables pa := fun some => out (own.tables some)
  have first := @Tally.update_add pt.frame pa (TRAMPOLINE / PGSIZE) (2 ^ 27) Option.none (by omega)
  have second := @Tally.update_add (update pt.frame (TRAMPOLINE / PGSIZE) Option.none) pa
    (TRAPFRAME / PGSIZE) (2 ^ 27) Option.none
    (by omega)
  have rest : tally (update (update pt.frame (TRAMPOLINE / PGSIZE) Option.none) (TRAPFRAME / PGSIZE)
    Option.none) pa (2 ^ 27) = 0 := by
    refine Tally.zero fun q _ here => ?_
    by_cases frame : q = TRAPFRAME / PGSIZE
    · rw [frame, update_self] at here
      cases here
    by_cases top : q = TRAMPOLINE / PGSIZE
    · rw [update_of_ne frame, top, update_self] at here
      cases here
    rw [update_of_ne frame, update_of_ne top] at here
    obtain ⟨pte, there, rfl⟩ := Option.map_eq_some_iff.mp here
    exact (own.kernel there out).elim top frame
  have top : pt.frame (TRAMPOLINE / PGSIZE) = some trampoline := by
    rw [Pagetable.frame, own.top]
    rfl
  have frame : pt.frame (TRAPFRAME / PGSIZE) = some trapframe := by
    rw [Pagetable.frame, own.frame]
    rfl
  rw [top] at first
  rw [update_of_ne (by omega), frame] at second
  simp only [Option.some.injEq, reduceCtorEq, if_false] at first second
  unfold Pagetable.owned
  omega

theorem unmapKeep_safe (sound : pt.Sound) (aligned : a % PGSIZE = 0)
    (inside : a / PGSIZE + 1 ≤ MAXVA / PGSIZE)
    (here : pt.leaf (a / PGSIZE) = some pte) (readable : pte.perm.r = true) (s : Memory) :
    Safe (uvmunmap pt a 1 false) s := by
  refine Safe.ite (fun wrong => absurd aligned wrong) fun _ => unmapLoop_safe false sound inside
    fun q lower upper => ?_
  obtain rfl : q = a / PGSIZE := by omega
  exact ⟨pte, here, readable, nofun⟩

/-- A page table is given back, with all pages below the size, while pages of `G` are free. -/
theorem procFreepagetable_frees (own : Owned F s' pt sz trampoline trapframe) (free : ∀ pa ∈ s.freelist, G pa)
    (more : ∀ pa, F pa → G pa) (valid : ∀ pa, G pa → Valid s.kernelEnd pa) :
    Ends (procFreepagetable pt sz) s (fun _ => False) fun _ s' => s'.kernelEnd = s.kernelEnd ∧ Uses G s s' ∧
      ∀ x, s'.freelist.count x + (if trampoline = x then 1 else 0) + (if trapframe = x then 1 else 0) =
      total s pt x := by
  have ends := TRAPFRAME_pages
  have safe : Safe (procFreepagetable pt sz) s := by
    unfold procFreepagetable
    refine (unmapKeep_safe own.sound (by decide) (by omega) own.top rfl s).bind
      (unmapKeep_gives pt TRAMPOLINE) fun pt₁ s₁ first same => ?_
    obtain ⟨rfl, rfl, -⟩ := first
    have step : Step G s₁ s₁ pt { pt with leaf := update pt.leaf (TRAMPOLINE / PGSIZE) none } :=
      setLeaf_step (.refl free) fun _ some => absurd rfl some
    have frame : update pt.leaf (TRAMPOLINE / PGSIZE) none (TRAPFRAME / PGSIZE) =
      some ⟨trapframe, ⟨true, true, false, false⟩⟩ := by
      rw [update_of_ne (by omega), own.frame]
    refine (unmapKeep_safe (step.sound own.sound) (by decide) (by omega) frame rfl s₁).bind
      (unmapKeep_gives _ TRAPFRAME)
      fun pt₂ s₂ second same' => ?_
    obtain ⟨rfl, rfl, -⟩ := second
    have step' : Step G s₂ s₂ { pt with leaf := update pt.leaf (TRAMPOLINE / PGSIZE) none }
        { pt with leaf := update (update pt.leaf (TRAMPOLINE / PGSIZE) none) (TRAPFRAME / PGSIZE) none } :=
      setLeaf_step (.refl free) fun _ some => absurd rfl some
    have left {q : Nat} {pte : Pte} (here : update (update pt.leaf (TRAMPOLINE / PGSIZE) none)
      (TRAPFRAME / PGSIZE) none q = some pte) :
        pt.leaf q = some pte ∧ q ≠ TRAMPOLINE / PGSIZE ∧ q ≠ TRAPFRAME / PGSIZE := by
      by_cases frame : q = TRAPFRAME / PGSIZE
      · rw [frame, update_self] at here
        cases here
      by_cases top : q = TRAMPOLINE / PGSIZE
      · rw [update_of_ne frame, top, update_self] at here
        cases here
      rw [update_of_ne frame, update_of_ne top] at here
      exact ⟨here, top, frame⟩
    refine uvmfree_safe (F := G) ⟨step'.sound (step.sound own.sound),
      fun {q} => ⟨fun some => ?_, fun below => ?_⟩, fun here => ?_,
      fun here => ?_, fun {pa} here => more pa (own.tables here), own.small⟩ free valid
    · obtain ⟨pte, here⟩ := Option.ne_none_iff_exists'.mp some
      obtain ⟨there, top, frame⟩ := left here
      exact (own.user top frame).mp (there ▸ Option.some_ne_none pte)
    · have small := (PGROUNDUP_small own.small).2
      dsimp only
      rw [update_of_ne (by omega), update_of_ne (by omega)]
      exact own.mapped below
    · exact own.readable (left here).1
    · obtain ⟨there, top, frame⟩ := left here
      have below := (own.user top frame).mp (there ▸ Option.some_ne_none _)
      have small := (PGROUNDUP_small own.small).2
      exact more _ (own.frames (by omega) there)
  refine (safe.ends.and (procFreepagetable_gives pt sz free own.sound own.top own.frame
    fun pa many => ?_)).mono
    fun _ s' ⟨same, uses, count⟩ => ⟨same, uses, count⟩
  by_contra out
  have few := own.tally_le fun page => out (more pa page)
  dsimp only at many
  omega

theorem procFreepagetable_ends (own : Owned F s pt sz trampoline trapframe) :
    Ends (procFreepagetable pt sz) s (fun _ => False) fun _ s' => s'.kernelEnd = s.kernelEnd ∧ Uses F s s' ∧
      ∀ x, s'.freelist.count x + (if trampoline = x then 1 else 0) +
      (if trapframe = x then 1 else 0) = total s pt x :=
  procFreepagetable_frees own own.free (fun _ => id) fun _ => own.valid

/-- The page table of a process without user memory. -/
theorem shaped_empty (sound : pt.Sound) (leaf : pt.leaf = update (update (fun _ => none) (TRAMPOLINE / PGSIZE)
      (some ⟨trampoline, ⟨true, false, true, false⟩⟩)) (TRAPFRAME / PGSIZE)
      (some ⟨trapframe, ⟨true, true, false, false⟩⟩)) :
    Shaped pt 0 trampoline trapframe ∧ pt.Users := by
  have ends := TRAPFRAME_pages
  have other {q : Nat} (top : q ≠ TRAMPOLINE / PGSIZE) (frame : q ≠ TRAPFRAME / PGSIZE) :
    pt.leaf q = none := by
    rw [leaf, update_of_ne frame, update_of_ne top]
  have top : pt.leaf (TRAMPOLINE / PGSIZE) = some ⟨trampoline, ⟨true, false, true, false⟩⟩ := by
    rw [leaf, update_of_ne (by omega), update_self]
  have frame : pt.leaf (TRAPFRAME / PGSIZE) = some ⟨trapframe, ⟨true, true, false, false⟩⟩ :=
    by rw [leaf, update_self]
  refine ⟨⟨sound, top, frame, fun top frame => ⟨fun some => absurd (other top frame) some,
    fun wrong => absurd wrong (Nat.not_lt_zero _)⟩,
    fun {q pte} here => ?_, Nat.zero_le _⟩, fun q pte early here => ?_⟩
  · by_cases first : q = TRAMPOLINE / PGSIZE
    · obtain rfl := Option.some.inj (top.symm.trans (first ▸ here))
      rfl
    by_cases second : q = TRAPFRAME / PGSIZE
    · obtain rfl := Option.some.inj (frame.symm.trans (second ▸ here))
      rfl
    rw [other first second] at here
    cases here
  · rw [other (by omega) (by omega)] at here
    cases here

/-- `proc_pagetable` makes the page table of a process without user memory, or gives back what
it has taken. -/
theorem procPagetable_ends (p : Proc) (free : ∀ pa ∈ s.freelist, F pa)
    (valid : ∀ pa, F pa → Valid s.kernelEnd pa) :
    Ends (procPagetable p) s (fun _ => False) fun r s' => s'.kernelEnd = s.kernelEnd ∧ Uses F s s' ∧
      (r = none ∧ (∀ x, s'.freelist.count x = s.freelist.count x) ∨ ∃ pt, r = some pt ∧
        Shaped pt 0 s.trampoline p.trapframe ∧
        pt.Users ∧ ∀ x, total s' pt x = s.freelist.count x + (if s.trampoline = x then 1 else 0) +
        if p.trapframe = x then 1 else 0) := by
  have ends := TRAPFRAME_pages
  have start := free
  have create : Safe uvmcreate s := by
    unfold uvmcreate
    refine (kalloc_safe s).bind Gives.any fun r s₁ _ _ => ?_
    cases r with
    | none => exact .pure _ _
    | some root => exact (Safe.write s₁ _).bind Gives.any fun _ _ _ _ => .pure _ _
  have safe : Safe (procPagetable p) s := by
    unfold procPagetable
    refine create.bind (uvmcreate_gives free) fun r s₁ ⟨uses, way⟩ same => ?_
    obtain ⟨rfl, -⟩ | ⟨root, rfl, balance⟩ := way
    · exact .pure _ _
    refine Safe.bind_run (rfl : trampoline s₁ = .ok (s₁.trampoline, s₁)) ?_
    refine (mappages_safe (emptyTable root) _ (by decide) (by decide) rfl s₁).bind
      (mappages_gives (emptyTable root) TRAMPOLINE s₁.trampoline ⟨true, false, true, false⟩ uses.free)
      fun r s₂ mapped same₂ => ?_
    -- a table without pages is given back, whatever tables it has
    have freed {pt : Pagetable} {s₃ : Memory} (free : ∀ pa ∈ s₃.freelist, F pa) (sound : pt.Sound)
        (leaf : pt.leaf = fun _ => none)
        (balance : ∀ x, total s₃ pt x = s.freelist.count x) (kernelEnd : s₃.kernelEnd = s.kernelEnd) :
        Safe (uvmfree pt 0) s₃ := by
      refine uvmfree_safe (F := F) ⟨sound, fun {q} => ?_, fun {q pte} here => ?_, fun {q pte} here => ?_,
        fun {pa} here => ?_, Nat.zero_le _⟩
        free fun pa here => kernelEnd ▸ valid pa here
      · rw [leaf]
        exact ⟨fun wrong => absurd rfl wrong, fun wrong => absurd wrong (Nat.not_lt_zero q)⟩
      · rw [leaf] at here
        cases here
      · rw [leaf] at here
        cases here
      · exact owned_uses start balance pa (by unfold Pagetable.owned; omega)
    obtain ⟨step, -, -, ⟨zero, -, leaf, balance₂⟩ | ⟨failed, leaf, balance₂, -⟩⟩ := mapped
    swap
    · refine Safe.ite (fun _ => ?_) fun wrong => absurd failed (by omega)
      exact (freed step.free (step.sound (emptyTable_sound root)) leaf
        (fun x => (balance₂ x).trans (balance x)) (same₂.trans same)).bind
        Gives.any fun _ _ _ _ => .pure _ _
    refine Safe.ite (fun wrong => absurd zero (by omega)) fun _ => ?_
    have empty : r.2.leaf (TRAPFRAME / PGSIZE) = none := by
      rw [leaf, update_of_ne (by omega)]
      rfl
    refine (mappages_safe r.2 _ (by decide) (by decide) empty s₂).bind
      (mappages_gives r.2 TRAPFRAME p.trapframe ⟨true, true, false, false⟩ step.free)
      fun r' s₃ mapped' same₃ => ?_
    obtain ⟨step', -, -, ⟨zero', -⟩ | ⟨failed', leaf', balance₃, -⟩⟩ := mapped'
    · exact Safe.ite (fun wrong => absurd zero' (by omega)) fun _ => .pure _ _
    refine Safe.ite (fun _ => ?_) fun wrong => absurd failed' (by omega)
    have sound := step'.sound (step.sound (emptyTable_sound root))
    have here : r'.2.leaf (TRAMPOLINE / PGSIZE) = some ⟨s₁.trampoline, ⟨true, false, true, false⟩⟩ :=
      by rw [leaf', leaf, update_self]
    refine (unmapKeep_safe sound (by decide) (by omega) here rfl s₃).bind (unmapKeep_gives r'.2 TRAMPOLINE)
      fun pt s₄ unmapped same₄ => ?_
    obtain ⟨rfl, rfl, -, pte, there, balance₄⟩ := unmapped
    obtain rfl := Option.some.inj (here.symm.trans there)
    have unmap : Step F s₄ s₄ r'.2 { r'.2 with leaf := update r'.2.leaf (TRAMPOLINE / PGSIZE) none } :=
      setLeaf_step (.refl step'.free) fun _ some => absurd rfl some
    refine (freed step'.free (unmap.sound sound) ?_ (fun x => ?_) (same₃.trans (same₂.trans same))).bind
      Gives.any fun _ _ _ _ => .pure _ _
    · dsimp only
      rw [leaf', leaf, update_idem]
      exact update_eq_self (TRAMPOLINE / PGSIZE) fun _ : Nat => (none : Option Pte)
    · have first := balance x
      have second := balance₂ x
      have third := balance₃ x
      have last := balance₄ x
      dsimp only at last ⊢
      omega
  refine (safe.ends.and (procPagetable_gives p free)).mono fun r s' ⟨same, uses, way⟩ =>
    ⟨same, uses, way.imp_right ?_⟩
  rintro ⟨pt, rfl, sound, balance, leaf⟩
  obtain ⟨shaped, users⟩ := shaped_empty sound leaf
  exact ⟨pt, rfl, shaped, users, balance⟩

/-- The pages of a page table are copied to one that has no user memory yet. -/
theorem copyPages_safe (n : Nat) (shaped : Shaped old sz trampoline trapframe')
    (own : Owned F s new i trampoline trapframe)
    (aligned : i % PGSIZE = 0) (count : i / PGSIZE + n ≤ PGROUNDUP sz / PGSIZE) :
    Safe (copyPages old n new i) s := by
  induction n generalizing s new i with
  | zero => exact .pure _ _
  | succ n ih =>
    have ends := TRAPFRAME_pages
    have last := (PGROUNDUP_small shaped.small).2
    have below : i < MAXVA := by
      unfold MAXVA PGSIZE at *
      omega
    have whole := PGROUNDUP_self aligned below.le
    obtain ⟨pte, here⟩ := Option.ne_none_iff_exists'.mp
      (shaped.mapped (by omega : i / PGSIZE < PGROUNDUP sz / PGSIZE))
    obtain ⟨-, -, index, index', -⟩ := page_indices below
    have low := shaped.sound.leaf (here ▸ Option.some_ne_none pte)
    have mid := shaped.sound.low low
    rw [index'] at low mid
    rw [index] at mid
    have empty : new.leaf (i / PGSIZE) = none := by
      by_contra some
      rcases own.above some (by rw [whole]) with top | frame <;> omega
    have found : decide (old.mid (i / 2 ^ 30) ≠ none ∧ old.low (i / 2 ^ 21) ≠ none) = true :=
      decide_eq_true ⟨mid, low⟩
    -- what is undone when there is no page
    have undo {s₁ : Memory} {t : Pagetable} (own : Owned F s₁ t i trampoline trapframe) :
      Safe (uncopy t i) s₁ := by
      unfold uncopy uvmunmap
      rw [if_neg (by decide)]
      refine (unmapLoop_safe true own.sound (by rw [Nat.zero_div]; omega) fun q _ upper => ?_).bind
        Gives.any fun _ _ _ _ => .pure _ _
      rw [Nat.zero_div, Nat.zero_add] at upper
      obtain ⟨pte, there⟩ := Option.ne_none_iff_exists'.mp (own.mapped (q := q) (by rwa [whole]))
      exact ⟨pte, there, own.readable there, fun _ => own.valid (own.frames (by omega) there)⟩
    unfold copyPages
    refine Safe.bind_run (walk_found old below) ?_
    dsimp only
    rw [found, if_neg (by decide), here]
    dsimp only
    refine (kalloc_safe s).bind (kalloc_gives own.free) fun r s₁ got same => ?_
    obtain ⟨uses, -, ⟨rfl, rfl, -⟩ | ⟨mem, rfl, list⟩⟩ := got
    · exact undo own
    have page : F mem := own.free mem (list ▸ List.mem_cons_self ..)
    obtain ⟨own₁, count₁⟩ := own.taken uses list same
    refine (Safe.write s₁ _).bind (Gives.modify (Q := fun _ s₂ => s₂ = s₁.write mem 0 PGSIZE
      (s₁.mem pte.pa)) rfl) fun _ s₂ wrote same₂ => ?_
    obtain rfl := wrote
    have own₂ := own₁.write mem 0 PGSIZE (s₁.mem pte.pa)
    refine (mappages_safe new _ aligned below empty _).bind (mappages_gives new i mem pte.perm own₂.free)
      fun r s₃ mapped same₃ => ?_
    obtain ⟨step, -, -, ⟨zero, -, leaf, balance⟩ | ⟨failed, leaf, balance, -⟩⟩ := mapped
    · refine Safe.ite (fun wrong => absurd zero wrong) fun _ => ?_
      have spare : total (s₁.write mem 0 PGSIZE (s₁.mem pte.pa)) new mem = 0 := by
        have once := own.once page
        have less := count₁ mem
        rw [if_pos rfl] at less
        show total s₁ new mem = 0
        omega
      have next : (i + PGSIZE) / PGSIZE = i / PGSIZE + 1 := Nat.add_div_right i (by decide)
      exact ih (own₂.extended aligned page spare (shaped.readable here) same₃ step leaf balance)
        ((Nat.add_mod_right i PGSIZE).trans aligned) (by omega)
    · refine Safe.ite (fun _ => ?_) fun wrong => absurd failed (by omega)
      have own₃ := (own₂.resized step balance same₃ (own₂.toShaped.congr (step.sound own₂.sound) leaf)
        fun q pte early here =>
        own₂.frames early (leaf ▸ here)).owned
      refine (kfree_safe (own₃.valid page)).bind (kfree_gives step.free page) fun _ s₄ freed same₄ =>
        undo (t := r.2) ?_
      have back (x : Nat) : total s₄ r.2 x = total s new x := by
        have before := balance x
        have less := count₁ x
        change total s₃ r.2 x = total s₁ new x at before
        unfold total at before less ⊢
        rw [freed.2, count_cons]
        omega
      refine own₃.step (freed.1.same r.2) (fun x out => ?_) (fun x here => back x ▸ own.once here)
        same₄ own₃.toShaped fun _ _ => own₃.frames
      have less := count₁ x
      have other : mem ≠ x := by
        rintro rfl
        exact out page
      rw [if_neg other, Nat.add_zero] at less
      rw [back, balance, ← less]
      rfl

end Whole

end Xv6.Vm
