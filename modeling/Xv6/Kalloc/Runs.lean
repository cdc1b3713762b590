import Xv6.Kalloc.Machine
import Mathlib.Logic.Relation

namespace Xv6.Kalloc
open Function Vm Chain

section Pages

variable {L : Layout} {pa n p : Nat}

theorem PGROUNDUP_spec (L : Layout) : L.kernelEnd ≤ PGROUNDUP L.kernelEnd ∧
    PGROUNDUP L.kernelEnd < L.kernelEnd + PGSIZE ∧
    PGROUNDUP L.kernelEnd % PGSIZE = 0 := by
  have below := L.below
  have top : PHYSTOP = 2281701376 := by decide
  unfold PGROUNDUP PGSIZE
  omega

theorem mem_pages : pa ∈ pages L ↔ pa % PGSIZE = 0 ∧ L.kernelEnd ≤ pa ∧ pa + PGSIZE ≤ PHYSTOP := by
  obtain ⟨lower, upper, aligned⟩ := PGROUNDUP_spec L
  unfold pages
  rw [List.mem_range']
  constructor
  · rintro ⟨i, small, rfl⟩
    unfold PGSIZE at *
    omega
  · rintro ⟨whole, above, inside⟩
    refine ⟨(pa - PGROUNDUP L.kernelEnd) / PGSIZE, ?_, ?_⟩
    all_goals unfold PGSIZE at *; omega

theorem pages_nodup (L : Layout) : (pages L).Nodup := List.nodup_range' PGSIZE (by decide)

/-- Memory ends with a whole page. -/
theorem pages_room (L : Layout) : (pages L).length * PGSIZE ≤ 128 * 1024 * 1024 := by
  obtain ⟨lower, -, -⟩ := PGROUNDUP_spec L
  have above := L.above
  unfold pages
  rw [List.length_range']
  unfold PHYSTOP PGSIZE at *
  omega

theorem page_pos (member : pa ∈ pages L) : pa ≠ 0 := by
  have above := L.above
  obtain ⟨-, inside, -⟩ := mem_pages.mp member
  unfold KERNBASE at above
  omega

end Pages

/-- The list in memory goes through the pages that nobody holds. -/
def Inv (L : Layout) (s : Held) : Prop := ∃ l, Through s.ram.word s.ram.freelist l ∧
    (l ++ s.pages).Perm (pages L)

section Steps

variable {L : Layout} {s s' : Held} {ram : Ram} {pa : Nat} {l : List Nat}

theorem kfree_page (member : pa ∈ pages L) (ram : Ram) :
    kfree L pa ram = .ok ((), ⟨update ram.word pa ram.freelist, pa⟩) := by
  obtain ⟨aligned, lower, upper⟩ := mem_pages.mp member
  have below : pa < PHYSTOP := by unfold PGSIZE at upper; omega
  unfold kfree
  rw [if_neg (by omega)]

theorem Inv.step (inv : Inv L s) (step : Step L s s') : Inv L s' := by
  obtain ⟨l, through, perm⟩ := inv
  have nodup := perm.nodup_iff.mpr (pages_nodup L)
  cases step with
  | @empty ram run =>
    have none : s.ram.freelist = 0 := by
      by_contra some
      rw [kalloc, if_neg some] at run
      exact some (Prod.mk.inj (Except.ok.inj run)).1
    rw [kalloc, if_pos none] at run
    obtain rfl := (Prod.mk.inj (Except.ok.inj run)).2
    exact ⟨l, through, perm⟩
  | @alloc pa ram run some =>
    have head : s.ram.freelist ≠ 0 := fun none => by
      rw [kalloc, if_pos none] at run
      exact some (Prod.mk.inj (Except.ok.inj run)).1.symm
    rw [kalloc, if_neg head] at run
    obtain ⟨rfl, rfl⟩ := Prod.mk.inj (Except.ok.inj run)
    cases l with
    | nil => exact absurd through head
    | cons b rest =>
      obtain ⟨rfl, -, others⟩ := through
      exact ⟨rest, others, List.perm_middle.trans perm⟩
  | @free pa ram held run =>
    have member : pa ∈ pages L := perm.mem_iff.mp (List.mem_append_right l held)
    rw [kfree_page member] at run
    obtain rfl := (Prod.mk.inj (Except.ok.inj run)).2
    have apart : pa ∉ l := fun free => (List.disjoint_of_nodup_append nodup) free held
    refine ⟨pa :: l, through.push (page_pos member) apart, ?_⟩
    have back : (pa :: (l ++ s.pages.erase pa)).Perm (l ++ s.pages) :=
      List.perm_middle.symm.trans ((List.perm_cons_erase held).symm.append_left l)
    exact back.trans perm
  | @write pa held i value inside =>
    refine ⟨l, through.congr fun b free => update_of_ne ?_ _ _, perm⟩
    have member := mem_pages.mp (perm.mem_iff.mp (List.mem_append_right l held))
    have member' := mem_pages.mp (perm.mem_iff.mp (List.mem_append_left s.pages free))
    have apart : b ≠ pa := fun same => List.disjoint_of_nodup_append nodup free (same ▸ held)
    unfold PGSIZE at *
    omega

/-- `kalloc` gives a page that nobody holds, and none only if there is none. -/
theorem kalloc_spec (inv : Inv L s) : ∃ r ram, kalloc s.ram = .ok (r, ram) ∧
    (r = 0 ↔ ∀ pa ∈ pages L, pa ∈ s.pages) ∧
    (r ≠ 0 → r ∈ pages L ∧ r ∉ s.pages) := by
  obtain ⟨l, through, perm⟩ := inv
  have nodup := perm.nodup_iff.mpr (pages_nodup L)
  unfold kalloc
  by_cases none : s.ram.freelist = 0
  · obtain rfl := through.nil_iff.mp none
    rw [if_pos none]
    exact ⟨0, s.ram, rfl, iff_of_true rfl fun pa member => perm.mem_iff.mpr member,
      fun some => absurd rfl some⟩
  · rw [if_neg none]
    cases l with
    | nil => exact absurd through none
    | cons b rest =>
      obtain ⟨rfl, some, others⟩ := through
      have member : s.ram.freelist ∈ pages L := perm.mem_iff.mp (List.mem_cons_self ..)
      have apart : s.ram.freelist ∉ s.pages := List.disjoint_of_nodup_append nodup (List.mem_cons_self ..)
      exact ⟨_, _, rfl, iff_of_false some fun all => apart (all _ member), fun _ => ⟨member, apart⟩⟩

theorem int_spec {v : Int} (lower : 0 ≤ v) (upper : v < 2 ^ 31) : int v = some v := if_pos ⟨by omega, upper⟩

theorem nfreeLoop_spec {a n : Nat} {k : Int} (through : Through ram.word a l)
    (rounds : l.length < n) (lower : 0 ≤ k)
    (upper : k + l.length < 2 ^ 31) : nfreeLoop ram n a k = some (k + l.length) := by
  induction l generalizing a n k with
  | nil =>
    obtain ⟨n, rfl⟩ : ∃ m, n = m + 1 := ⟨n - 1, by omega⟩
    have zero : a = 0 := through
    rw [nfreeLoop, if_pos zero, List.length_nil, Int.natCast_zero, Int.add_zero]
  | cons b rest ih =>
    rw [List.length_cons, Int.natCast_succ] at upper
    rw [List.length_cons] at rounds
    obtain ⟨n, rfl⟩ : ∃ m, n = m + 1 := ⟨n - 1, by omega⟩
    obtain ⟨rfl, some, others⟩ := through
    have next := ih others (by omega : rest.length < n) (by omega : 0 ≤ k + 1) (by omega)
    rw [nfreeLoop, if_neg some, int_spec (by omega) (by omega), Option.bind_eq_bind, Option.bind_some,
      next, List.length_cons,
      Int.natCast_succ]
    congr 1
    omega

/-- `nfree` counts the bytes of the pages that nobody holds. -/
theorem nfree_spec (inv : Inv L s) : nfree s.ram ((pages L).length + 1) =
    some (PGSIZE * ((pages L).length - s.pages.length)) := by
  obtain ⟨l, through, perm⟩ := inv
  have size := perm.length_eq
  rw [List.length_append] at size
  have room := pages_room L
  have page : PGSIZE = 4096 := rfl
  rw [page] at room ⊢
  have count := nfreeLoop_spec through (by omega : l.length < (pages L).length + 1) (Int.le_refl 0) (by omega)
  have rest : (pages L).length - s.pages.length = l.length := by omega
  rw [Int.zero_add] at count
  rw [rest]
  unfold nfree
  rw [count, Option.bind_eq_bind, Option.bind_some, page, int_spec (by omega) (by omega), Option.bind_some]
  show some _ = some _
  congr 1
  omega

/-- `freerange` puts the pages from an address on before the list. -/
theorem freerangeLoop_spec (m n p : Nat) (through : Through ram.word ram.freelist l)
    (inside : ∀ pa ∈ List.range' p m PGSIZE, pa ∈ pages L ∧ pa ∉ l)
    (last : PHYSTOP < p + PGSIZE * m + PGSIZE) (rounds : m ≤ n) :
    ∃ ram', freerangeLoop L PHYSTOP n p ram = .ok ((), ram') ∧
      Through ram'.word ram'.freelist ((List.range' p m PGSIZE).reverse ++ l) := by
  induction m generalizing n p ram l with
  | zero =>
    have done : ¬ p + PGSIZE ≤ PHYSTOP := by omega
    refine ⟨ram, ?_, through⟩
    cases n with
    | zero => rfl
    | succ n =>
      rw [freerangeLoop, if_neg done]
      rfl
  | succ m ih =>
    obtain ⟨n, rfl⟩ : ∃ k, n = k + 1 := ⟨n - 1, by omega⟩
    have nodup : (List.range' p (m + 1) PGSIZE).Nodup := List.nodup_range' PGSIZE (by decide)
    rw [List.range'_succ] at inside nodup ⊢
    rw [List.forall_mem_cons] at inside
    obtain ⟨⟨member, apart⟩, others⟩ := inside
    have fits : p + PGSIZE ≤ PHYSTOP := (mem_pages.mp member).2.2
    have pushed : Through (Ram.mk (update ram.word p ram.freelist) p).word
        (Ram.mk (update ram.word p ram.freelist) p).freelist
        (p :: l) := through.push (page_pos member) apart
    have inside' : ∀ pa ∈ List.range' (p + PGSIZE) m PGSIZE, pa ∈ pages L ∧ pa ∉ p :: l := fun pa later => by
      refine ⟨(others pa later).1, fun wrong => ?_⟩
      rcases List.mem_cons.mp wrong with rfl | old
      · exact (List.nodup_cons.mp nodup).1 later
      · exact (others pa later).2 old
    obtain ⟨ram', run, through'⟩ :=
      ih n (p + PGSIZE) pushed inside' (by rw [Nat.mul_succ] at last; omega) (by omega)
    refine ⟨ram', ?_, ?_⟩
    · rw [freerangeLoop, if_pos fits]
      show (kfree L p ram >>= _) = _
      rw [kfree_page member]
      exact run
    · rw [List.reverse_cons, List.append_assoc]
      exact through'

/-- At first nobody holds a page. -/
theorem freerange_spec (L : Layout) (word : Nat → Nat) :
    ∃ ram, freerange L L.kernelEnd PHYSTOP ⟨word, 0⟩ = .ok ((), ram) ∧ Inv L ⟨ram, []⟩ := by
  have none : Through word 0 [] := rfl
  have room : PHYSTOP < PGROUNDUP L.kernelEnd + PGSIZE * ((PHYSTOP - PGROUNDUP L.kernelEnd) /
    PGSIZE) + PGSIZE := by
    unfold PGSIZE
    omega
  have rounds : (PHYSTOP - PGROUNDUP L.kernelEnd) / PGSIZE ≤ PHYSTOP := by
    unfold PGSIZE
    omega
  obtain ⟨ram, run, through⟩ := @freerangeLoop_spec L ⟨word, 0⟩ [] _ PHYSTOP (PGROUNDUP L.kernelEnd) none
    (fun pa member => ⟨member, List.not_mem_nil⟩) room rounds
  refine ⟨ram, run, _, through, ?_⟩
  rw [List.append_nil, List.append_nil]
  exact List.reverse_perm _

end Steps

/-- After `freerange`, whatever is taken, given back and written: the list in the free pages is finite and
goes once through each page that nobody holds; `kfree` takes back every page that is held; `kalloc` gives an
aligned page of the memory that nobody holds, and 0 exactly if there is none; and `nfree` ends with the number
of bytes in the free pages. -/
theorem allocator (L : Layout) (word : Nat → Nat) :
    ∃ ram, freerange L L.kernelEnd PHYSTOP ⟨word, 0⟩ = .ok ((), ram) ∧
    ∀ s, Relation.ReflTransGen (Step L) ⟨ram, []⟩ s →
      (∃ l, Through s.ram.word s.ram.freelist l ∧ (l ++ s.pages).Nodup ∧
        ∀ pa, pa ∈ l ++ s.pages ↔ pa % PGSIZE = 0 ∧ L.kernelEnd ≤ pa ∧ pa + PGSIZE ≤ PHYSTOP) ∧
      (∀ pa ∈ s.pages, ∃ ram', kfree L pa s.ram = .ok ((), ram')) ∧
      (∃ r ram', kalloc s.ram = .ok (r, ram') ∧ (r = 0 ↔ ∀ pa ∈ pages L, pa ∈ s.pages) ∧
        (r ≠ 0 → r % PGSIZE = 0 ∧ L.kernelEnd ≤ r ∧ r + PGSIZE ≤ PHYSTOP ∧ r ∉ s.pages)) ∧
      nfree s.ram ((pages L).length + 1) = some (PGSIZE * ((pages L).length - s.pages.length)) := by
  obtain ⟨ram, run, start⟩ := freerange_spec L word
  refine ⟨ram, run, fun s steps => ?_⟩
  have inv : Inv L s := by
    induction steps with
    | refl => exact start
    | tail _ step ih => exact ih.step step
  obtain ⟨l, through, perm⟩ := inv
  obtain ⟨r, ram', taken, none, some⟩ := kalloc_spec ⟨l, through, perm⟩
  refine ⟨⟨l, through, perm.nodup_iff.mpr (pages_nodup L), fun pa => perm.mem_iff.trans mem_pages⟩,
    fun pa held => ?_,
    ⟨r, ram', taken, none, fun got => ?_⟩, nfree_spec ⟨l, through, perm⟩⟩
  · exact ⟨_, kfree_page (perm.mem_iff.mp (List.mem_append_right l held)) s.ram⟩
  · obtain ⟨member, apart⟩ := some got
    obtain ⟨aligned, lower, upper⟩ := mem_pages.mp member
    exact ⟨aligned, lower, upper, apart⟩

end Xv6.Kalloc
