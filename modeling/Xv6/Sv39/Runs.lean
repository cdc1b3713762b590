import Xv6.Sv39.Walk

namespace Xv6.Sv39
open Function Kalloc Chain
open Vm hiding kfree kalloc

section Ranges

variable {M : Nat → Option (Nat × Nat)} {n k pa flags v : Nat}

theorem mapRange_zero (M : Nat → Option (Nat × Nat)) (n pa flags : Nat) : mapRange M n 0 pa flags = M :=
  funext fun v => if_neg (by omega)

theorem mapRange_succ (M : Nat → Option (Nat × Nat)) (n k pa flags : Nat) :
    mapRange (update M n (some (pa, flags))) (n + 1) k (pa + PGSIZE) flags =
    mapRange M n (k + 1) pa flags := by
  funext v
  unfold mapRange
  by_cases later : n + 1 ≤ v ∧ v < n + 1 + k
  · have split : v - n = v - (n + 1) + 1 := by omega
    rw [if_pos later, if_pos (by omega), split, Nat.mul_add, Nat.mul_one]
    congr 2
    omega
  · rw [if_neg later]
    by_cases same : v = n
    · subst same
      rw [update_self, if_pos (by omega), Nat.sub_self, Nat.mul_zero, Nat.add_zero]
    · rw [update_of_ne same, if_neg (by omega)]

theorem unmapRange_zero (M : Nat → Option (Nat × Nat)) (n : Nat) : unmapRange M n 0 = M :=
  funext fun v => if_neg (by omega)

theorem unmapRange_succ (M : Nat → Option (Nat × Nat)) (n k : Nat) :
    unmapRange (update M n none) (n + 1) k = unmapRange M n (k + 1) := by
  funext v
  unfold unmapRange
  by_cases later : n + 1 ≤ v ∧ v < n + 1 + k
  · rw [if_pos later, if_pos (by omega)]
  · rw [if_neg later]
    by_cases same : v = n
    · subst same
      rw [update_self, if_pos (by omega)]
    · rw [update_of_ne same, if_neg (by omega)]

theorem frames_succ (leaf : M n = some (pa, flags)) (k : Nat) :
    frames M n (k + 1) = pa :: frames (update M n none) (n + 1) k := by
  unfold frames
  rw [List.range'_succ, List.filterMap_cons, leaf]
  show pa :: _ = pa :: _
  congr 1
  refine List.filterMap_congr fun v member => ?_
  have later := (List.mem_range'_1.mp member).1
  rw [update_of_ne (by omega)]

end Ranges

section Calls

variable {L : Layout} {s : Ram} {root : Nat} {tab : Nat → Nat → Option Nat} {free : List Nat}
  {M : Nat → Option (Nat × Nat)}

theorem walkaddr_spec (table : Table L s root tab free M) (va : Nat) :
    walkaddr root va s = .ok (if va < MAXVA then
      (match M (va / PGSIZE) with
      | some (pa, flags) => if flags &&& PTE_U ≠ 0 then pa else 0
      | none => 0) else 0, s) := by
  unfold walkaddr
  by_cases below : va < MAXVA
  · rw [if_pos below, if_neg (by omega)]
    obtain ⟨a, run, found⟩ := walk_find table below
    show (walk root va false s >>= _) = _
    rw [run]
    show (ite _ _ _ : RamM Nat) s = _
    obtain ⟨zero, none⟩ | ⟨nonzero, t, here, rfl⟩ := found
    · rw [if_pos zero, none]
      rfl
    · rw [if_neg nonzero]
      show (ite _ _ (ite _ _ _) : RamM Nat) s = _
      cases leaf : M (va / PGSIZE) with
      | none =>
        rw [if_pos (table.unmapped here leaf)]
        rfl
      | some entry =>
        obtain ⟨pa, flags⟩ := entry
        have maps := table.mapped here leaf
        have user : s.word (t + 8 * (va / PGSIZE % 512)) &&& PTE_U = flags &&& PTE_U := by
          rw [and_flags (by decide), maps.bits]
        rw [if_neg maps.present, user, maps.address]
        dsimp only
        by_cases clear : flags &&& PTE_U = 0
        · rw [if_pos clear, if_neg (not_not.mpr clear)]
          rfl
        · rw [if_neg clear, if_pos clear]
          rfl
  · rw [if_neg below, if_pos (by omega)]
    rfl

/-- The entry that `mappages` writes. -/
theorem Maps.pack {pa perm : Nat} (aligned : pa % PGSIZE = 0) (whole : pa < 2 ^ 64) (low : perm < 2 ^ 10)
    (usable : perm &&& (PTE_R ||| PTE_W ||| PTE_X) ≠ 0) :
    Maps (PA2PTE pa ||| perm ||| PTE_V) pa (perm ||| PTE_V) := by
  have low' : perm ||| PTE_V < 2 ^ 10 := Nat.or_lt_two_pow low (by decide)
  rw [Nat.or_assoc]
  refine ⟨PTE2PA_pack aligned whole low', PTE_FLAGS_pack whole low', ?_, ?_⟩
  · rw [Nat.and_or_distrib_right]
    exact fun zero => absurd (Nat.or_eq_zero_iff.mp zero).2 (by decide)
  · rw [Nat.and_or_distrib_right]
    exact fun zero => usable (Nat.or_eq_zero_iff.mp zero).1

/-- A round of `mappages`: the page is mapped, or there is no free page. -/
theorem mapLoop_round {va pa perm : Nat} (table : Table L s root tab free M) (below : va < MAXVA)
    (aligned : pa % PGSIZE = 0)
    (whole : pa < 2 ^ 64) (low : perm < 2 ^ 10) (usable : perm &&& (PTE_R ||| PTE_W ||| PTE_X) ≠ 0)
    (unmapped : M (va / PGSIZE) = none) :
    ∃ s' tab' free', Grown s s' tab tab' ∧
      ((∀ last n, mapLoop root last perm (n + 1) va pa s = .ok (-1, s')) ∧
        Table L s' root tab' free' M ∧ free' = [] ∨
      (∀ last n, mapLoop root last perm (n + 1) va pa s = (if va = last then pure 0 else
        mapLoop root last perm n ((va + PGSIZE) % 2 ^ 64) ((pa + PGSIZE) % 2 ^ 64)) s') ∧
        Table L s' root tab' free' (update M (va / PGSIZE) (some (pa, perm ||| PTE_V)))) := by
  obtain ⟨a, s', tab', free', run, table', grown, found⟩ := walk_alloc table below
  obtain ⟨zero, out⟩ | ⟨nonzero, t, here, rfl⟩ := found
  · refine ⟨s', tab', free', grown, .inl ⟨fun last n => ?_, table', out⟩⟩
    show (walk root va true s >>= _) = _
    rw [run]
    show (ite _ _ _ : RamM Int) s' = _
    rw [if_pos zero]
    rfl
  · have maps := Maps.pack aligned whole low usable
    have stored : Table L { s' with
        word := update s'.word (t + 8 * (va / PGSIZE % 512)) (PA2PTE pa ||| perm ||| PTE_V) } root tab'
        free' (update M (va / PGSIZE) (some (pa, perm ||| PTE_V))) := by
      refine table'.store here (fun v other => update_of_ne other _ _) (fun pa' flags' entry =>
        ?_) (fun none => ?_)
      · rw [update_self] at entry
        obtain ⟨rfl, rfl⟩ := Prod.mk.inj (Option.some.inj entry)
        exact maps
      · rw [update_self] at none
        cases none
    refine ⟨_, tab', free', grown.trans (.entry here _), .inr ⟨fun last n => ?_, stored⟩⟩
    show (walk root va true s >>= _) = _
    rw [run]
    show (ite _ _ _ : RamM Int) s' = _
    rw [if_neg nonzero]
    show (ite _ _ _ : RamM Int) s' = _
    rw [if_neg (not_not.mpr (table'.unmapped here unmapped))]
    rfl

/-- The rounds of `mappages`: all pages are mapped, or there is no free page and only some of them are. -/
theorem mapLoop_spec {va pa perm k rounds : Nat} (table : Table L s root tab free M)
    (va_aligned : va % PGSIZE = 0)
    (below : va + PGSIZE * (k + 1) ≤ MAXVA) (aligned : pa % PGSIZE = 0)
    (whole : pa + PGSIZE * (k + 1) < 2 ^ 64)
    (low : perm < 2 ^ 10) (usable : perm &&& (PTE_R ||| PTE_W ||| PTE_X) ≠ 0)
    (unmapped : ∀ i < k + 1, M (va / PGSIZE + i) = none) (enough : k < rounds) :
    ∃ r s' tab' free' j, mapLoop root (va + PGSIZE * k) perm rounds va pa s = .ok (r, s') ∧
      Table L s' root tab' free' (mapRange M (va / PGSIZE) j pa (perm ||| PTE_V)) ∧ Grown s s' tab tab' ∧
      (r = 0 ∧ j = k + 1 ∨ r = -1 ∧ j ≤ k ∧ free' = []) := by
  have page : PGSIZE = 4096 := rfl
  have top : MAXVA = 274877906944 := rfl
  obtain ⟨n, rfl⟩ : ∃ m, rounds = m + 1 := ⟨rounds - 1, by omega⟩
  induction k generalizing va pa n s tab free M with
  | zero =>
    obtain ⟨s', tab', free', grown, ⟨run, table', out⟩ | ⟨run, table'⟩⟩ :=
      mapLoop_round table (by omega) aligned (by omega) low usable (unmapped 0 (by omega))
    · exact ⟨-1, s', tab', free', 0, run _ n,
        by rw [mapRange_zero]; exact table', grown, .inr ⟨rfl, le_rfl, out⟩⟩
    · refine ⟨0, s', tab', free', 1, ?_, ?_, grown, .inl ⟨rfl, rfl⟩⟩
      · rw [run, if_pos (by omega)]
        rfl
      · rw [← mapRange_succ, mapRange_zero]
        exact table'
  | succ k ih =>
    have size : PGSIZE * (k + 1 + 1) = PGSIZE * (k + 1) + 4096 := by rw [Nat.mul_succ, page]
    have size' : PGSIZE * (k + 1) = PGSIZE * k + 4096 := by rw [Nat.mul_succ, page]
    obtain ⟨s', tab', free', grown, ⟨run, table', out⟩ | ⟨run, table'⟩⟩ :=
      mapLoop_round table (by omega) aligned (by omega) low usable (unmapped 0 (by omega))
    · exact ⟨-1, s', tab', free', 0, run _ n,
        by rw [mapRange_zero]; exact table', grown, .inr ⟨rfl, by omega, out⟩⟩
    · obtain ⟨m, rfl⟩ : ∃ m, n = m + 1 := ⟨n - 1, by omega⟩
      have next : (va + PGSIZE) / PGSIZE = va / PGSIZE + 1 := Nat.add_div_right va (by decide)
      have unmapped' : ∀ i < k + 1, update M (va / PGSIZE) (some (pa, perm ||| PTE_V))
        ((va + PGSIZE) / PGSIZE + i) = none := by
        intro i inside
        rw [next, update_of_ne (by omega), Nat.add_assoc, Nat.add_comm 1 i]
        exact unmapped (i + 1) (by omega)
      obtain ⟨r, s'', tab'', free'', j, run', table'', grown', result⟩ :=
        ih table' ((Nat.add_mod_right ..).trans va_aligned)
        (by omega) ((Nat.add_mod_right ..).trans aligned) (by omega) unmapped' m (by omega)
      rw [next, mapRange_succ] at table''
      refine ⟨r, s'', tab'', free'', j + 1, ?_, table'', grown.trans grown', ?_⟩
      · have last : va + PGSIZE * (k + 1) = va + PGSIZE + PGSIZE * k := by omega
        rw [run, if_neg (by omega), Nat.mod_eq_of_lt (by omega), Nat.mod_eq_of_lt (by omega), last]
        exact run'
      · rcases result with ⟨zero, all⟩ | ⟨failed, some, out⟩
        · exact .inl ⟨zero, by omega⟩
        · exact .inr ⟨failed, by omega, out⟩

/-- A call of `mappages`. -/
theorem mappages_spec {va size pa perm : Nat} (table : Table L s root tab free M)
    (va_aligned : va % PGSIZE = 0)
    (size_aligned : size % PGSIZE = 0) (some : 0 < size) (below : va + size ≤ MAXVA)
    (aligned : pa % PGSIZE = 0)
    (whole : pa < 2 ^ 56) (low : perm < 2 ^ 10) (usable : perm &&& (PTE_R ||| PTE_W ||| PTE_X) ≠ 0)
    (unmapped : ∀ i < size / PGSIZE, M (va / PGSIZE + i) = none) :
    ∃ r s' tab' free' j, mappages root va size pa perm s = .ok (r, s') ∧
      Table L s' root tab' free' (mapRange M (va / PGSIZE) j pa (perm ||| PTE_V)) ∧ Grown s s' tab tab' ∧
      (r = 0 ∧ j = size / PGSIZE ∨ r = -1 ∧ j < size / PGSIZE ∧ free' = []) := by
  have page : PGSIZE = 4096 := rfl
  have top : MAXVA = 274877906944 := rfl
  have total : size = PGSIZE * (size / PGSIZE) :=
    (Nat.mul_div_cancel' (Nat.dvd_of_mod_eq_zero size_aligned)).symm
  obtain ⟨k, pages⟩ : ∃ k, size / PGSIZE = k + 1 := ⟨size / PGSIZE - 1, by rw [page] at *; omega⟩
  rw [pages] at total
  have size' : PGSIZE * (k + 1) = PGSIZE * k + 4096 := by rw [Nat.mul_succ, page]
  have last : sub64 (va + size) PGSIZE = va + PGSIZE * k := by
    unfold sub64
    omega
  rw [pages] at unmapped ⊢
  obtain ⟨r, s', tab', free', j, run, table', grown, result⟩ :=
    mapLoop_spec table va_aligned (total ▸ below) aligned (by omega) low
    usable unmapped (Nat.lt_succ_self k)
  refine ⟨r, s', tab', free', j, ?_, table', grown, ?_⟩
  · unfold mappages
    rw [if_neg (not_not.mpr va_aligned), if_neg (not_not.mpr size_aligned), if_neg (by omega), last, pages]
    exact run
  · rcases result with all | ⟨failed, some, out⟩
    · exact .inl all
    · exact .inr ⟨failed, by omega, out⟩

/-- A page is put on the list. -/
theorem Table.release {pa : Nat} (table : Table L s root tab free M) (member : pa ∈ pages L) (fresh : pa ∉ free)
    (apart : ∀ level q, tab level q ≠ some pa) :
    Table L ⟨update s.word pa s.freelist, pa⟩ root tab (pa :: free) M := by
  have aligned := (page_whole member).1
  have entry {level n t} (here : tab level (n / 512) = some t) :
      update s.word pa s.freelist (t + 8 * (n % 512)) = s.word (t + 8 * (n % 512)) := by
    refine update_of_ne (fun same => ?_) _ _
    have whole := (page_whole (table.member here).1).1
    obtain ⟨rfl, -⟩ := @page_apart _ _ _ 0 whole aligned (Nat.mod_lt n (by decide)) (by decide) same
    exact apart _ _ here
  refine ⟨table.root, table.top, table.parent, ?_, ?_, ?_, ?_, table.absent, table.distinct, ?_,
    table.through.push (page_pos member) fresh, List.nodup_cons.mpr ⟨fresh, table.nodup⟩,
    List.forall_mem_cons.mpr ⟨member, table.free⟩⟩
  · intro level n t c here child
    dsimp only
    rw [entry here]
    exact table.link here child
  · intro level n t here none
    dsimp only
    rw [entry here]
    exact table.missing here none
  · intro n t pa' flags here maps
    dsimp only
    rw [entry here]
    exact table.mapped here maps
  · intro n t here none
    dsimp only
    rw [entry here]
    exact table.unmapped here none
  · intro level q t here
    refine ⟨(table.member here).1, fun listed => ?_⟩
    rcases List.mem_cons.mp listed with rfl | old
    · exact apart _ _ here
    · exact (table.member here).2 old

/-- A round of `uvmunmap`. -/
theorem unmapLoop_round {va pa flags : Nat} {doFree : Bool} (table : Table L s root tab free M)
    (below : va < MAXVA)
    (leaf : M (va / PGSIZE) = some (pa, flags))
    (frame : doFree → pa ∈ pages L ∧ pa ∉ free ∧ ∀ level q, tab level q ≠ some pa) :
    ∃ s', Table L s' root tab ((if doFree then [pa] else []) ++ free) (update M (va / PGSIZE) none) ∧
      (∀ a, (∀ level q t, tab level q = some t → a < t ∨ t + PGSIZE ≤ a) → (doFree → a ≠ pa) →
        s'.word a = s.word a) ∧
      ∀ last n, va < last → unmapLoop L root last doFree (n + 1) va s =
        unmapLoop L root last doFree n ((va + PGSIZE) % 2 ^ 64) s' := by
  obtain ⟨a, run, ⟨-, none⟩ | ⟨nonzero, t, here, rfl⟩⟩ := walk_find table below
  · rw [leaf] at none
    cases none
  have maps := table.mapped here leaf
  have useful : PTE_FLAGS (s.word (t + 8 * (va / PGSIZE % 512))) ≠ PTE_V := by
    rw [maps.bits]
    intro only
    have usable := maps.usable
    rw [only] at usable
    exact usable (by decide)
  have cleared (M : Nat → Option (Nat × Nat)) {s : Ram} {free : List Nat}
    (table : Table L s root tab free M) :
      Table L { s with word := update s.word (t + 8 * (va / PGSIZE % 512)) 0 } root tab free
      (update M (va / PGSIZE) none) := by
    refine table.store here (fun v other => update_of_ne other _ _) (fun pa' flags' entry => ?_)
      (fun _ => Nat.zero_and _)
    rw [update_self] at entry
    cases entry
  have start (last n : Nat) (inside : va < last) : unmapLoop L root last doFree (n + 1) va s =
      (do
        if doFree then kfree L pa
        store (t + 8 * (va / PGSIZE % 512)) 0
        unmapLoop L root last doFree n ((va + PGSIZE) % 2 ^ 64) : RamM Unit) s := by
    rw [unmapLoop, if_pos inside]
    show (walk root va false s >>= _) = _
    rw [run]
    show (ite _ _ _ : RamM Unit) s = _
    rw [if_neg nonzero]
    show (ite _ _ (ite _ _ _) : RamM Unit) s = _
    rw [if_neg maps.present, if_neg useful, maps.address]
  cases doFree with
  | false =>
    refine ⟨_, cleared M table, fun a outside _ => ?_, fun last n inside => (start last n inside).trans rfl⟩
    exact (Grown.entry here 0).memory a outside
  | true =>
    obtain ⟨member, fresh, apart⟩ := frame rfl
    have released := table.release member fresh apart
    refine ⟨_, cleared M released, fun a outside other => ?_, fun last n inside =>
      (start last n inside).trans ?_⟩
    · rw [(Grown.entry here 0).memory a outside]
      exact update_of_ne (other rfl) _ _
    · show (kfree L pa s >>= _) = _
      rw [kfree_page member]
      rfl

/-- The rounds of `uvmunmap`. -/
theorem unmapLoop_spec {va k rounds : Nat} {doFree : Bool} (table : Table L s root tab free M)
    (va_aligned : va % PGSIZE = 0)
    (below : va + PGSIZE * k ≤ MAXVA) (mapped : ∀ i < k, M (va / PGSIZE + i) ≠ none)
    (apart : doFree → (frames M (va / PGSIZE) k).Nodup ∧
      ∀ pa ∈ frames M (va / PGSIZE) k, pa ∈ pages L ∧ pa ∉ free ∧ ∀ level q, tab level q ≠ some pa)
    (enough : k ≤ rounds) :
    ∃ s', unmapLoop L root (va + PGSIZE * k) doFree rounds va s = .ok ((), s') ∧
      Table L s' root tab (freed M (va / PGSIZE) k doFree ++ free) (unmapRange M (va / PGSIZE) k) ∧
      ∀ a, (∀ level q t, tab level q = some t → a < t ∨ t + PGSIZE ≤ a) → a ∉ freed M (va / PGSIZE) k doFree →
        s'.word a = s.word a := by
  have page : PGSIZE = 4096 := rfl
  have top : MAXVA = 274877906944 := rfl
  induction k generalizing va rounds s free M with
  | zero =>
    have last : va + PGSIZE * 0 = va := rfl
    have run : unmapLoop L root (va + PGSIZE * 0) doFree rounds va s = .ok ((), s) := by
      rw [last]
      cases rounds with
      | zero => rw [unmapLoop, if_neg (Nat.lt_irrefl va)]; rfl
      | succ rounds => rw [unmapLoop, if_neg (Nat.lt_irrefl va)]; rfl
    have none : freed M (va / PGSIZE) 0 doFree = [] := by cases doFree <;> rfl
    refine ⟨s, run, ?_, fun _ _ _ => rfl⟩
    rw [none, unmapRange_zero]
    exact table
  | succ k ih =>
    have size : PGSIZE * (k + 1) = PGSIZE * k + 4096 := by rw [Nat.mul_succ, page]
    have next : (va + PGSIZE) / PGSIZE = va / PGSIZE + 1 := Nat.add_div_right va (by decide)
    obtain ⟨rounds, rfl⟩ : ∃ m, rounds = m + 1 := ⟨rounds - 1, by omega⟩
    obtain ⟨⟨pa, flags⟩, leaf⟩ := Option.ne_none_iff_exists'.mp (mapped 0 (by omega))
    rw [Nat.add_zero] at leaf
    rw [frames_succ leaf] at apart
    obtain ⟨s', table', memory, run⟩ := unmapLoop_round table (by omega) leaf fun free =>
      (apart free).2 pa (List.mem_cons_self ..)
    have mapped' : ∀ i < k, update M (va / PGSIZE) none ((va + PGSIZE) / PGSIZE + i) ≠ none := by
      intro i inside
      rw [next, update_of_ne (by omega), Nat.add_assoc, Nat.add_comm 1 i]
      exact mapped (i + 1) (by omega)
    have split : freed M (va / PGSIZE) (k + 1) doFree =
        freed (update M (va / PGSIZE) none) (va / PGSIZE + 1) k doFree ++ if doFree then [pa] else [] := by
      unfold freed
      rw [frames_succ leaf]
      cases doFree with
      | false => rfl
      | true => exact List.reverse_cons
    obtain ⟨s'', run', table'', memory'⟩ :=
      @ih s' _ _ (va + PGSIZE) rounds table' ((Nat.add_mod_right ..).trans va_aligned)
      (by omega) mapped' (by
        intro free
        obtain ⟨nodup, each⟩ := apart free
        obtain ⟨fresh, nodup'⟩ := List.nodup_cons.mp nodup
        rw [next]
        refine ⟨nodup', fun pa' member => ?_⟩
        obtain ⟨inside, unlisted, other⟩ := each pa' (List.mem_cons_of_mem pa member)
        refine ⟨inside, fun listed => ?_, other⟩
        rw [if_pos free] at listed
        rcases List.mem_cons.mp listed with rfl | old
        · exact fresh member
        · exact unlisted old) (by omega)
    rw [next, unmapRange_succ] at table''
    rw [next] at memory'
    rw [split]
    refine ⟨s'', ?_, ?_, fun a outside others => ?_⟩
    · have last : va + PGSIZE * (k + 1) = va + PGSIZE + PGSIZE * k := by omega
      rw [run _ _ (by omega), Nat.mod_eq_of_lt (by omega), last]
      exact run'
    · rw [List.append_assoc]
      exact table''
    · rw [List.mem_append, not_or] at others
      rw [memory' a outside others.1]
      refine memory a outside fun free same => others.2 ?_
      rw [if_pos free, same]
      exact List.mem_singleton_self pa

/-- A call of `uvmunmap`. -/
theorem uvmunmap_spec {va npages : Nat} {doFree : Bool} (table : Table L s root tab free M)
    (va_aligned : va % PGSIZE = 0)
    (below : va + npages * PGSIZE ≤ MAXVA) (mapped : ∀ i < npages, M (va / PGSIZE + i) ≠ none)
    (apart : doFree → (frames M (va / PGSIZE) npages).Nodup ∧
      ∀ pa ∈ frames M (va / PGSIZE) npages, pa ∈ pages L ∧ pa ∉ free ∧ ∀ level q, tab level q ≠ some pa) :
    ∃ s', uvmunmap L root va npages doFree s = .ok ((), s') ∧
      Table L s' root tab (freed M (va / PGSIZE) npages doFree ++ free) (unmapRange M (va / PGSIZE) npages) ∧
      ∀ a, (∀ level q t, tab level q = some t → a < t ∨ t + PGSIZE ≤ a) →
      a ∉ freed M (va / PGSIZE) npages doFree →
        s'.word a = s.word a := by
  have top : MAXVA = 274877906944 := rfl
  unfold uvmunmap
  rw [if_neg (not_not.mpr va_aligned), Nat.mod_eq_of_lt (by omega)]
  rw [Nat.mul_comm] at below ⊢
  exact unmapLoop_spec table va_aligned below mapped apart le_rfl

/-- A table in memory is the map `M`. `mappages` adds the pages of a range that it maps, with their frames and
flags, and nothing else; it fails only without free pages, and may have added some of them. `uvmunmap` removes
the pages of a range that is mapped, and puts their frames on the list once each if it frees them, as long as
these are pages of memory that neither hold a table nor are free. `walkaddr` gives the frame of a page that a
user may use. Memory outside the tables and the freed frames stays, and what is left is a table again. -/
theorem page_table (table : Table L s root tab free M) :
    (∀ va size pa perm, va % PGSIZE = 0 → size % PGSIZE = 0 → 0 < size → va + size ≤ MAXVA →
      pa % PGSIZE = 0 → pa < 2 ^ 56 →
      perm < 2 ^ 10 → perm &&& (PTE_R ||| PTE_W ||| PTE_X) ≠ 0 →
      (∀ i < size / PGSIZE, M (va / PGSIZE + i) = none) →
      ∃ r s' tab' free' j, mappages root va size pa perm s = .ok (r, s') ∧
        Table L s' root tab' free' (mapRange M (va / PGSIZE) j pa (perm ||| PTE_V)) ∧ Grown s s' tab tab' ∧
        (r = 0 ∧ j = size / PGSIZE ∨ r = -1 ∧ j < size / PGSIZE ∧ free' = [])) ∧
    (∀ va npages (doFree : Bool), va % PGSIZE = 0 → va + npages * PGSIZE ≤ MAXVA →
      (∀ i < npages, M (va / PGSIZE + i) ≠ none) →
      (doFree → (frames M (va / PGSIZE) npages).Nodup ∧
        ∀ pa ∈ frames M (va / PGSIZE) npages, pa ∈ pages L ∧ pa ∉ free ∧ ∀ level q, tab level q ≠ some pa) →
      ∃ s', uvmunmap L root va npages doFree s = .ok ((), s') ∧
        Table L s' root tab (freed M (va / PGSIZE) npages doFree ++ free)
        (unmapRange M (va / PGSIZE) npages) ∧
        ∀ a, (∀ level q t, tab level q = some t → a < t ∨ t + PGSIZE ≤ a) →
        a ∉ freed M (va / PGSIZE) npages doFree →
          s'.word a = s.word a) ∧
    ∀ va, walkaddr root va s = .ok (if va < MAXVA then
      (match M (va / PGSIZE) with
      | some (pa, flags) => if flags &&& PTE_U ≠ 0 then pa else 0
      | none => 0) else 0, s) :=
  ⟨fun _ _ _ _ va_aligned size_aligned some below aligned whole low usable unmapped =>
      mappages_spec table va_aligned size_aligned some below aligned whole low usable unmapped,
    fun _ _ _ va_aligned below mapped apart => uvmunmap_spec table va_aligned below mapped apart,
    walkaddr_spec table⟩

end Calls

/-- A table without pages, and two free pages. -/
theorem table_two : Table ⟨KERNBASE, le_rfl, by decide⟩
    ⟨fun a => if a = KERNBASE + 0x1000 then KERNBASE + 0x2000 else 0, KERNBASE + 0x1000⟩ (KERNBASE + 0x3000)
    (fun level q => if level = 2 ∧ q = 0 then some (KERNBASE + 0x3000) else none)
    [KERNBASE + 0x1000, KERNBASE + 0x2000]
    fun _ => none := by
  have only {level q t : Nat}
      (there : (if level = 2 ∧ q = 0 then some (KERNBASE + 0x3000) else none) = some t) :
      (level = 2 ∧ q = 0) ∧ KERNBASE + 0x3000 = t :=
    (Option.ite_none_right_eq_some.mp there).imp_right Option.some.inj
  have page : PGSIZE = 4096 := rfl
  have base : KERNBASE = 0x80000000 := rfl
  refine ⟨rfl, fun there => .inr (only there).1, ?_, ?_, ?_, ?_, ?_, fun _ => rfl, ?_, ?_, ?_, by decide, ?_⟩
  · intro level n t there low
    obtain ⟨⟨top, -⟩, -⟩ := only there
    omega
  · intro level n t c there child
    obtain ⟨⟨top, -⟩, -⟩ := only there
    obtain ⟨⟨top', -⟩, -⟩ := only child
    omega
  · intro level n t there _
    obtain ⟨-, rfl⟩ := only there
    dsimp only
    rw [if_neg (by omega)]
    rfl
  · intro n t pa flags there
    obtain ⟨⟨top, -⟩, -⟩ := only there
    omega
  · intro n t there
    obtain ⟨⟨top, -⟩, -⟩ := only there
    omega
  · intro level q level' q' t there there'
    obtain ⟨⟨rfl, rfl⟩, -⟩ := only there
    obtain ⟨⟨rfl, rfl⟩, -⟩ := only there'
    exact ⟨rfl, rfl⟩
  · intro level q t there
    obtain ⟨-, rfl⟩ := only there
    exact ⟨mem_pages.mpr (by decide), by decide⟩
  · exact ⟨rfl, by decide, rfl, by decide, rfl⟩
  · intro pa listed
    refine mem_pages.mpr ?_
    simp only [List.mem_cons, List.not_mem_nil, or_false] at listed
    rcases listed with rfl | rfl
    · decide
    · decide

/-- A page is mapped with the two free pages as its tables, is found, and is removed again. -/
theorem page_table_two : ∃ s s' s'', mappages (KERNBASE + 0x3000) 0x5000 PGSIZE KERNBASE
    (PTE_R ||| PTE_U) s = .ok (0, s') ∧
    walkaddr (KERNBASE + 0x3000) 0x5123 s' = .ok (KERNBASE, s') ∧
    uvmunmap ⟨KERNBASE, le_rfl, by decide⟩ (KERNBASE + 0x3000) 0x5000 1 false s' = .ok ((), s'') ∧
    walkaddr (KERNBASE + 0x3000) 0x5123 s'' = .ok (0, s'') := by
  obtain ⟨r, s', tab', free', j, run, table', -, result⟩ :=
    (page_table table_two).1 0x5000 PGSIZE KERNBASE (PTE_R ||| PTE_U)
    (by decide) (by decide) (by decide) (by decide) (by decide) (by decide) (by decide)
    (by decide) (fun _ _ => rfl)
  have zero : r = 0 := by
    have value : (mappages (KERNBASE + 0x3000) 0x5000 PGSIZE KERNBASE (PTE_R ||| PTE_U)
        ⟨fun a => if a = KERNBASE + 0x1000 then KERNBASE + 0x2000 else 0,
          KERNBASE + 0x1000⟩).toOption.map Prod.fst = some 0 := rfl
    rw [run] at value
    exact Option.some.inj value
  obtain ⟨-, rfl⟩ | ⟨failed, -⟩ := result
  · have here : mapRange (fun _ => none) (0x5000 / PGSIZE) (PGSIZE / PGSIZE) KERNBASE
      (PTE_R ||| PTE_U ||| PTE_V) 5 =
        some (KERNBASE, PTE_R ||| PTE_U ||| PTE_V) := rfl
    obtain ⟨-, unmap, address⟩ := page_table table'
    obtain ⟨s'', run', table'', -⟩ := unmap 0x5000 1 false (by decide) (by decide) (fun i inside => by
      obtain rfl : i = 0 := by omega
      exact Option.ne_none_iff_exists'.mpr ⟨_, here⟩) (fun free => by cases free)
    have address' := walkaddr_spec table'' 0x5123
    exact ⟨_, s', s'', zero ▸ run, address 0x5123, run', address'⟩
  · omega

end Xv6.Sv39
