import Xv6.Sv39.Machine
import Xv6.Kalloc.Runs

namespace Xv6.Sv39
open Function Kalloc Chain
open Vm hiding kfree kalloc

section Entries

variable {pa flags pte : Nat}

theorem PX_eq (level va : Nat) : PX level va = va / PGSIZE / 512 ^ level % 512 := by
  have mask : PXMASK = 2 ^ 9 - 1 := rfl
  have size : 2 ^ PXSHIFT level = PGSIZE * 512 ^ level := by
    unfold PXSHIFT PGSIZE
    rw [pow_add, pow_mul]
    norm_num
  unfold PX
  rw [mask, Nat.and_two_pow_sub_one_eq_mod, Nat.shiftRight_eq_div_pow, size, Nat.div_div_eq_div_mul]

theorem pack_eq (whole : pa < 2 ^ 64) (low : flags < 2 ^ 10) :
    PA2PTE pa ||| flags = 2 ^ 10 * (pa / PGSIZE) + flags := by
  have shifted : PA2PTE pa = 2 ^ 10 * (pa / PGSIZE) := by
    unfold PA2PTE PGSIZE
    rw [Nat.shiftLeft_eq, Nat.shiftRight_eq_div_pow]
    omega
  rw [shifted, ← Nat.two_pow_add_eq_or_of_lt low]

/-- An address and flags that are packed into an entry are there again. -/
theorem PTE2PA_pack (aligned : pa % PGSIZE = 0) (whole : pa < 2 ^ 64) (low : flags < 2 ^ 10) :
    PTE2PA (PA2PTE pa ||| flags) = pa := by
  rw [pack_eq whole low]
  unfold PTE2PA PGSIZE at *
  rw [Nat.shiftLeft_eq, Nat.shiftRight_eq_div_pow]
  omega

theorem PTE_FLAGS_pack (whole : pa < 2 ^ 64) (low : flags < 2 ^ 10) :
    PTE_FLAGS (PA2PTE pa ||| flags) = flags := by
  have mask : 0x3FF = 2 ^ 10 - 1 := rfl
  rw [pack_eq whole low]
  unfold PTE_FLAGS
  rw [mask, Nat.and_two_pow_sub_one_eq_mod]
  omega

/-- The bits of an entry are those of its flags. -/
theorem and_flags {mask : Nat} (low : 0x3FF &&& mask = mask) : pte &&& mask = PTE_FLAGS pte &&& mask := by
  unfold PTE_FLAGS
  rw [Nat.and_assoc, low]

theorem Points.pack (aligned : pa % PGSIZE = 0) (whole : pa < 2 ^ 64) : Points (PA2PTE pa ||| PTE_V) pa := by
  have low : PTE_V < 2 ^ 10 := by decide
  refine ⟨PTE2PA_pack aligned whole low, ?_, ?_⟩
  all_goals
    rw [and_flags (by decide), PTE_FLAGS_pack whole low]
    decide

theorem Maps.present (maps : Maps pte pa flags) : pte &&& PTE_V ≠ 0 := by
  rw [and_flags (by decide), maps.bits]
  exact maps.valid

theorem page_whole {L : Layout} (member : pa ∈ pages L) : pa % PGSIZE = 0 ∧ pa < 2 ^ 64 := by
  obtain ⟨aligned, -, inside⟩ := mem_pages.mp member
  refine ⟨aligned, ?_⟩
  unfold PHYSTOP KERNBASE PGSIZE at *
  omega

end Entries

/-- Words of different pages are different. -/
theorem page_apart {p p' i i' : Nat} (aligned : p % PGSIZE = 0) (aligned' : p' % PGSIZE = 0)
    (inside : i < 512) (inside' : i' < 512)
    (same : p + 8 * i = p' + 8 * i') : p = p' ∧ i = i' := by
  unfold PGSIZE at *
  omega

namespace Table

variable {L : Layout} {s : Ram} {root : Nat} {tab : Nat → Nat → Option Nat} {free : List Nat}
  {M : Nat → Option (Nat × Nat)}
  {level n t : Nat}

/-- Distinct entries have distinct addresses. -/
theorem apart (table : Table L s root tab free M) {level' n' t' : Nat} (here : tab level (n / 512) = some t)
    (there : tab level' (n' / 512) = some t') (same : t + 8 * (n % 512) = t' + 8 * (n' % 512)) :
    level = level' ∧ n = n' := by
  have inside (k : Nat) : k % 512 < 512 := Nat.mod_lt k (by decide)
  obtain ⟨rfl, index⟩ := page_apart (page_whole (table.member here).1).1
    (page_whole (table.member there).1).1 (inside n)
    (inside n') same
  obtain ⟨sameLevel, quotient⟩ := table.distinct here there
  exact ⟨sameLevel, by omega⟩

/-- The link of a free page is not an entry. -/
theorem free_apart (table : Table L s root tab free M) {pa : Nat} (here : tab level (n / 512) = some t)
    (listed : pa ∈ free) :
    pa ≠ t + 8 * (n % 512) := fun same => by
  obtain ⟨rfl, -⟩ := @page_apart _ _ 0 _ (page_whole (table.free pa listed)).1
    (page_whole (table.member here).1).1 (by decide)
    (Nat.mod_lt n (by decide)) same
  exact (table.member here).2 listed

/-- A write to an entry of level 0. -/
theorem store (table : Table L s root tab free M) (here : tab 0 (n / 512) = some t) {pte : Nat}
    {M' : Nat → Option (Nat × Nat)}
    (others : ∀ v, v ≠ n → M' v = M v) (mapped : ∀ pa flags, M' n = some (pa, flags) → Maps pte pa flags)
    (unmapped : M' n = none → pte &&& PTE_V = 0) :
    Table L { s with word := update s.word (t + 8 * (n % 512)) pte } root tab free M' := by
  have inner {level m t'} (there : tab (level + 1) (m / 512) = some t') :
      update s.word (t + 8 * (n % 512)) pte (t' + 8 * (m % 512)) = s.word (t' + 8 * (m % 512)) :=
    update_of_ne (fun same => absurd (table.apart there here same).1 (Nat.succ_ne_zero level)) _ _
  have leaf {m t'} (there : tab 0 (m / 512) = some t') (other : m ≠ n) :
      update s.word (t + 8 * (n % 512)) pte (t' + 8 * (m % 512)) = s.word (t' + 8 * (m % 512)) :=
    update_of_ne (fun same => other (table.apart there here same).2) _ _
  have self {t'} (there : tab 0 (n / 512) = some t') :
    update s.word (t + 8 * (n % 512)) pte (t' + 8 * (n % 512)) = pte := by
    obtain rfl := Option.some.inj (here.symm.trans there)
    exact update_self ..
  refine ⟨table.root, table.top, table.parent, ?_, ?_, ?_, ?_, ?_, table.distinct, table.member,
    ?_, table.nodup, table.free⟩
  · intro level m t' c there child
    dsimp only
    rw [inner there]
    exact table.link there child
  · intro level m t' there none
    dsimp only
    rw [inner there]
    exact table.missing there none
  · intro m t' pa flags there maps
    dsimp only
    by_cases same : m = n
    · subst same
      rw [self there]
      exact mapped pa flags maps
    · rw [leaf there same]
      exact table.mapped there ((others m same).symm.trans maps)
  · intro m t' there none
    dsimp only
    by_cases same : m = n
    · subst same
      rw [self there]
      exact unmapped none
    · rw [leaf there same]
      exact table.unmapped there ((others m same).symm.trans none)
  · intro m none
    have other : m ≠ n := by
      rintro rfl
      rw [here] at none
      cases none
    rw [others m other]
    exact table.absent none
  · exact table.through.congr fun pa listed => update_of_ne (table.free_apart here listed) _ _

/-- Memory after a free page is taken, cleared, and linked from an entry. -/
def linked (s : Ram) (pte page : Nat) : Ram :=
  ⟨update (fun a => if page ≤ a ∧ a < page + PGSIZE then 0 else s.word a) pte
    (PA2PTE page ||| PTE_V), s.word page⟩

/-- The tables with one more. -/
def adding (tab : Nat → Nat → Option Nat) (level n page : Nat) : Nat → Nat → Option Nat := fun level' n' =>
  if level' = level ∧ n' = n then some page else tab level' n'

section Adding

variable {page level' n' t' : Nat} {rest : List Nat}

theorem adding_self (tab : Nat → Nat → Option Nat) (level n page : Nat) :
    adding tab level n page level n = some page :=
  if_pos ⟨rfl, rfl⟩

theorem adding_old (other : ¬(level' = level ∧ n' = n)) : adding tab level n page level' n' = tab level' n' :=
  if_neg other

theorem adding_cases (there : adding tab level n page level' n' = some t') :
    level' = level ∧ n' = n ∧ t' = page ∨ ¬(level' = level ∧ n' = n) ∧ tab level' n' = some t' := by
  by_cases new : level' = level ∧ n' = n
  · obtain ⟨rfl, rfl⟩ := new
    rw [adding_self] at there
    exact .inl ⟨rfl, rfl, (Option.some.inj there).symm⟩
  · rw [adding_old new] at there
    exact .inr ⟨new, there⟩

theorem below_top (table : Table L s root tab free M) (here : tab (level + 1) n = some t) : level < 2 := by
  rcases table.top here with lower | ⟨equal, -⟩
  · omega
  · omega

/-- Under an entry that points to no table there is none. -/
theorem none_below (table : Table L s root tab free M) (low : level' + 1 < 3)
    (empty : tab (level' + 1) (n' / 512) = none) :
    tab level' n' = none := by
  by_contra! wrong
  obtain ⟨c, there⟩ := Option.ne_none_iff_exists'.mp wrong
  obtain ⟨t', parent⟩ := table.parent there (by omega)
  rw [empty] at parent
  cases parent

theorem different (table : Table L s root tab (page :: rest) M) (there : tab level' n' = some t') :
    t' ≠ page := by
  rintro rfl
  exact (table.member there).2 (List.mem_cons_self ..)

/-- All entries of the new table are 0. -/
theorem linked_cleared (table : Table L s root tab (page :: rest) M)
    (here : tab (level + 1) (n / 512) = some t) {i : Nat}
    (inside : i < 512) : (linked s (t + 8 * (n % 512)) page).word (page + 8 * i) = 0 := by
  have aligned := (page_whole (table.free page (List.mem_cons_self ..))).1
  have other : page + 8 * i ≠ t + 8 * (n % 512) := fun same =>
    table.different here (page_apart aligned (page_whole (table.member here).1).1 inside
      (Nat.mod_lt n (by decide)) same).1.symm
  unfold linked
  dsimp only
  rw [update_of_ne other, if_pos ⟨by omega, by unfold PGSIZE; omega⟩]

/-- Outside the new page only the entry that points to it changes. -/
theorem linked_kept (table : Table L s root tab (page :: rest) M) {pte a p : Nat} (aligned : p % PGSIZE = 0)
    (other : p ≠ page)
    (inside : p ≤ a ∧ a < p + PGSIZE) (apart : a ≠ pte) : (linked s pte page).word a = s.word a := by
  have page_aligned := (page_whole (table.free page (List.mem_cons_self ..))).1
  unfold linked
  dsimp only
  rw [update_of_ne apart, if_neg]
  unfold PGSIZE at *
  omega

theorem linked_self (s : Ram) (pte page : Nat) : (linked s pte page).word pte = PA2PTE page ||| PTE_V := by
  unfold linked
  dsimp only
  rw [update_self]

theorem linked_entry (table : Table L s root tab (page :: rest) M) (here : tab (level + 1) (n / 512) = some t)
    (there : tab level' (n' / 512) = some t') (apart : ¬(level' = level + 1 ∧ n' = n)) :
    (linked s (t + 8 * (n % 512)) page).word (t' + 8 * (n' % 512)) = s.word (t' + 8 * (n' % 512)) := by
  refine table.linked_kept (page_whole (table.member there).1).1 (table.different there)
    ⟨by omega, by unfold PGSIZE; omega⟩ ?_
  intro same
  obtain ⟨sameLevel, sameEntry⟩ := table.apart there here same
  exact apart ⟨sameLevel, sameEntry⟩

/-- A new table under an entry that points to none. -/
theorem add (table : Table L s root tab (page :: rest) M) (here : tab (level + 1) (n / 512) = some t)
    (empty : tab level n = none) :
    Table L (linked s (t + 8 * (n % 512)) page) root (adding tab level n page) rest M := by
  obtain ⟨fresh, nodup⟩ := List.nodup_cons.mp table.nodup
  obtain ⟨member, members⟩ := List.forall_mem_cons.mp table.free
  obtain ⟨-, -, through⟩ := table.through
  have low := table.below_top here
  refine ⟨?_, ?_, ?_, ?_, ?_, ?_, ?_, ?_, ?_, ?_, ?_, nodup, members⟩
  · rw [adding_old (by omega)]
    exact table.root
  · intro level' q t' there
    obtain ⟨rfl, rfl, rfl⟩ | ⟨-, old⟩ := adding_cases there
    · exact .inl low
    · exact table.top old
  · intro level' m t' there lower
    obtain ⟨rfl, rfl, rfl⟩ | ⟨-, old⟩ := adding_cases there
    · exact ⟨t, (adding_old (by omega)).trans here⟩
    · obtain ⟨t', parent⟩ := table.parent old lower
      by_cases new : level' + 1 = level ∧ m / 512 = n
      · exact ⟨page, by rw [new.1, new.2, adding_self]⟩
      · exact ⟨t', by rw [adding_old new, parent]⟩
  · intro level' m t' c there child
    obtain ⟨rfl, rfl, rfl⟩ | ⟨-, old⟩ := adding_cases there
    · rw [adding_old (by omega), table.none_below (by omega) empty] at child
      cases child
    · obtain ⟨rfl, rfl, rfl⟩ | ⟨other, oldChild⟩ := adding_cases child
      · obtain rfl := Option.some.inj (here.symm.trans old)
        rw [linked_self]
        exact .pack (page_whole member).1 (page_whole member).2
      · rw [table.linked_entry here old (by omega)]
        exact table.link old oldChild
  · intro level' m t' there noChild
    obtain ⟨rfl, rfl, rfl⟩ | ⟨-, old⟩ := adding_cases there
    · rw [table.linked_cleared here (Nat.mod_lt m (by decide))]
      exact Nat.zero_and _
    · have other : ¬(level' = level ∧ m = n) := fun same => by
        rw [same.1, same.2, adding_self] at noChild
        cases noChild
      rw [adding_old other] at noChild
      rw [table.linked_entry here old (by omega)]
      exact table.missing old noChild
  · intro m t' pa flags there maps
    obtain ⟨zero, new, rfl⟩ | ⟨-, old⟩ := adding_cases there
    · obtain rfl := zero
      rw [table.absent (new ▸ empty)] at maps
      cases maps
    · rw [table.linked_entry here old (by omega)]
      exact table.mapped old maps
  · intro m t' there noLeaf
    obtain ⟨zero, new, rfl⟩ | ⟨-, old⟩ := adding_cases there
    · rw [table.linked_cleared here (Nat.mod_lt m (by decide))]
      exact Nat.zero_and _
    · rw [table.linked_entry here old (by omega)]
      exact table.unmapped old noLeaf
  · intro m none
    have other : ¬(0 = level ∧ m / 512 = n) := fun same => by
      rw [same.1, same.2, adding_self] at none
      cases none
    rw [adding_old other] at none
    exact table.absent none
  · intro level₁ q₁ level₂ q₂ t' first second
    obtain ⟨rfl, rfl, rfl⟩ | ⟨-, old⟩ := adding_cases first
    · obtain ⟨rfl, rfl, -⟩ | ⟨-, old⟩ := adding_cases second
      · exact ⟨rfl, rfl⟩
      · exact absurd rfl (table.different old)
    · obtain ⟨rfl, rfl, rfl⟩ | ⟨-, old'⟩ := adding_cases second
      · exact absurd rfl (table.different old)
      · exact table.distinct old old'
  · intro level' q t' there
    obtain ⟨rfl, rfl, rfl⟩ | ⟨-, old⟩ := adding_cases there
    · exact ⟨member, fresh⟩
    · exact ⟨(table.member old).1, fun listed => (table.member old).2 (List.mem_cons_of_mem _ listed)⟩
  · refine through.congr fun b listed => ?_
    refine table.linked_kept (page_whole (members b listed)).1 ?_ ⟨le_rfl, by unfold PGSIZE; omega⟩ ?_
    · rintro rfl
      exact fresh listed
    · exact table.free_apart here (List.mem_cons_of_mem _ listed)

end Adding

end Table

/-- More tables, and nothing written outside them. -/
structure Grown (s s' : Ram) (tab tab' : Nat → Nat → Option Nat) : Prop where
  tables : ∀ level q t, tab level q = some t → tab' level q = some t
  memory : ∀ a, (∀ level q t, tab' level q = some t → a < t ∨ t + PGSIZE ≤ a) → s'.word a = s.word a

section Walk

variable {L : Layout} {s s' s'' : Ram} {root : Nat}
  {tab tab' tab'' : Nat → Nat → Option Nat} {free : List Nat}
  {M : Nat → Option (Nat × Nat)} {level n t va : Nat}

theorem Grown.refl (s : Ram) (tab : Nat → Nat → Option Nat) : Grown s s tab tab :=
  ⟨fun _ _ _ there => there, fun _ _ => rfl⟩

theorem Grown.trans (first : Grown s s' tab tab') (second : Grown s' s'' tab' tab'') :
    Grown s s'' tab tab'' := by
  refine ⟨fun level q t there => second.tables level q t (first.tables level q t there), fun a outside => ?_⟩
  rw [second.memory a outside]
  exact first.memory a fun level q t there => outside level q t (second.tables level q t there)

/-- What is written to an entry is inside a table. -/
theorem Grown.entry (here : tab level (n / 512) = some t) (pte : Nat) :
    Grown s { s with word := update s.word (t + 8 * (n % 512)) pte } tab tab := by
  refine ⟨fun _ _ _ there => there, fun a outside => update_of_ne ?_ _ _⟩
  have apart := outside level (n / 512) t here
  unfold PGSIZE at apart
  omega

theorem Grown.add {page : Nat} (here : tab (level + 1) (n / 512) = some t) (empty : tab level n = none) :
    Grown s (Table.linked s (t + 8 * (n % 512)) page) tab (Table.adding tab level n page) := by
  constructor
  · intro level' q t' there
    rw [Table.adding_old, there]
    rintro ⟨rfl, rfl⟩
    rw [empty] at there
    cases there
  · intro a outside
    have apart := outside (level + 1) (n / 512) t ((Table.adding_old (by omega)).trans here)
    have apart' := outside level n page (Table.adding_self ..)
    unfold Table.linked
    dsimp only
    rw [update_of_ne (by unfold PGSIZE at apart; omega), if_neg (by omega)]

theorem index_succ (v level : Nat) : v / 512 ^ (level + 1) = v / 512 ^ level / 512 := by
  rw [Nat.div_div_eq_div_mul, pow_succ]

theorem Table.none_leaf (table : Table L s root tab free M) {v : Nat} (low : level < 3)
    (empty : tab level (v / 512 ^ level / 512) = none) :
    tab 0 (v / 512) = none := by
  induction level with
  | zero =>
    rw [pow_zero, Nat.div_one] at empty
    exact empty
  | succ level ih =>
    refine ih (by omega) ?_
    rw [← index_succ]
    exact table.none_below low empty

/-- What `walk` finds without adding tables. -/
theorem walkLoop_find (table : Table L s root tab free M)
    (node : tab level (va / PGSIZE / 512 ^ level / 512) = some t) :
    ∃ a, walkLoop va false level t s = .ok (a, s) ∧ (a = 0 ∧ tab 0 (va / PGSIZE / 512) = none ∨
      ∃ t', tab 0 (va / PGSIZE / 512) = some t' ∧ a = t' + 8 * (va / PGSIZE % 512)) := by
  induction level generalizing t with
  | zero =>
    rw [pow_zero, Nat.div_one] at node
    refine ⟨_, rfl, .inr ⟨t, node, ?_⟩⟩
    rw [PX_eq, pow_zero, Nat.div_one]
  | succ level ih =>
    have low := table.below_top node
    unfold walkLoop
    rw [PX_eq]
    cases child : tab level (va / PGSIZE / 512 ^ (level + 1)) with
    | none =>
      refine ⟨0, ?_, .inl ⟨rfl, table.none_leaf (by omega) (index_succ .. ▸ child)⟩⟩
      show (ite _ _ _ : RamM Nat) s = _
      rw [if_neg (not_not.mpr (table.missing node child))]
      rfl
    | some c =>
      have points := table.link node child
      obtain ⟨a, run, found⟩ := ih (index_succ .. ▸ child)
      refine ⟨a, ?_, found⟩
      show (ite _ _ _ : RamM Nat) s = _
      rw [if_pos points.valid, points.address]
      exact run

/-- What `walk` finds when it adds the tables that are missing, as long as there are free pages. -/
theorem walkLoop_alloc (table : Table L s root tab free M)
    (node : tab level (va / PGSIZE / 512 ^ level / 512) = some t) :
    ∃ a s' tab' free', walkLoop va true level t s = .ok (a, s') ∧ Table L s' root tab' free' M ∧
    Grown s s' tab tab' ∧
      (a = 0 ∧ free' = [] ∨ ∃ t', tab' 0 (va / PGSIZE / 512) = some t' ∧
        a = t' + 8 * (va / PGSIZE % 512)) := by
  induction level generalizing t s tab free with
  | zero =>
    rw [pow_zero, Nat.div_one] at node
    refine ⟨_, s, tab, free, rfl, table, .refl s tab, .inr ⟨t, node, ?_⟩⟩
    rw [PX_eq, pow_zero, Nat.div_one]
  | succ level ih =>
    unfold walkLoop
    rw [PX_eq]
    cases child : tab level (va / PGSIZE / 512 ^ (level + 1)) with
    | some c =>
      have points := table.link node child
      obtain ⟨a, s', tab', free', run, result⟩ := ih table (index_succ .. ▸ child)
      refine ⟨a, s', tab', free', ?_, result⟩
      show (ite _ _ _ : RamM Nat) s = _
      rw [if_pos points.valid, points.address]
      exact run
    | none =>
      have missing := not_not.mpr (table.missing node child)
      cases free with
      | nil =>
        have out : s.freelist = 0 := table.through
        refine ⟨0, s, tab, [], ?_, table, .refl s tab, .inl ⟨rfl, rfl⟩⟩
        show (ite _ _ _ : RamM Nat) s = _
        rw [if_neg missing]
        show (kalloc s >>= _) = _
        rw [kalloc, if_pos out]
        rfl
      | cons page rest =>
        obtain ⟨head, nonzero, -⟩ := table.through
        have added := table.add node child
        have node' : Table.adding tab level (va / PGSIZE / 512 ^ (level + 1)) page level
          (va / PGSIZE / 512 ^ level / 512) =
            some page := by
          rw [← index_succ]
          exact Table.adding_self ..
        obtain ⟨a, s', tab', free', run, table', grown, found⟩ := ih added node'
        refine ⟨a, s', tab', free', ?_, table', .trans (.add node child) grown, found⟩
        show (ite _ _ _ : RamM Nat) s = _
        rw [if_neg missing]
        show (kalloc s >>= _) = _
        rw [kalloc, head, if_neg nonzero]
        show (ite _ _ _ : RamM Nat) _ = _
        rw [if_neg nonzero]
        exact run

/-- The address of an entry is not 0. -/
theorem Table.entry_pos (table : Table L s root tab free M) (here : tab level n = some t) (i : Nat) :
    t + 8 * i ≠ 0 := by
  have some := page_pos (table.member here).1
  omega

theorem Table.node_top (table : Table L s root tab free M) (below : va < MAXVA) :
    tab 2 (va / PGSIZE / 512 ^ 2 / 512) = some root := by
  have zero : va / PGSIZE / 512 ^ 2 / 512 = 0 := by
    unfold MAXVA at below
    unfold PGSIZE
    omega
  rw [zero]
  exact table.root

theorem walk_find (table : Table L s root tab free M) (below : va < MAXVA) :
    ∃ a, walk root va false s = .ok (a, s) ∧ (a = 0 ∧ M (va / PGSIZE) = none ∨
      a ≠ 0 ∧ ∃ t, tab 0 (va / PGSIZE / 512) = some t ∧ a = t + 8 * (va / PGSIZE % 512)) := by
  obtain ⟨a, run, found⟩ := walkLoop_find table (table.node_top below)
  refine ⟨a, ?_, ?_⟩
  · unfold walk
    rw [if_neg (by omega)]
    exact run
  · obtain ⟨zero, none⟩ | ⟨t, here, rfl⟩ := found
    · exact .inl ⟨zero, table.absent none⟩
    · exact .inr ⟨table.entry_pos here _, t, here, rfl⟩

theorem walk_alloc (table : Table L s root tab free M) (below : va < MAXVA) :
    ∃ a s' tab' free', walk root va true s = .ok (a, s') ∧ Table L s' root tab' free' M ∧
    Grown s s' tab tab' ∧
      (a = 0 ∧ free' = [] ∨ a ≠ 0 ∧ ∃ t, tab' 0 (va / PGSIZE / 512) = some t ∧
        a = t + 8 * (va / PGSIZE % 512)) := by
  obtain ⟨a, s', tab', free', run, table', grown, found⟩ := walkLoop_alloc table (table.node_top below)
  refine ⟨a, s', tab', free', ?_, table', grown, ?_⟩
  · unfold walk
    rw [if_neg (by omega)]
    exact run
  · obtain out | ⟨t, here, rfl⟩ := found
    · exact .inl out
    · exact .inr ⟨table'.entry_pos here _, t, here, rfl⟩

end Walk

end Xv6.Sv39
