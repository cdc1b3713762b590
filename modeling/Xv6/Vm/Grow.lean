import Xv6.Vm.Alloc

namespace Xv6.Vm

variable {s s' : Memory} {p p' : Proc} {n r : Int}

/-- A page that is free no more, in the tables of a page table with the same leaves. -/
theorem linked_or_free {pt pt' : Pagetable} {pa : Nat} (balance : total s' pt' pa = total s pt pa)
    (leaf : pt'.leaf = pt.leaf)
    (root : pt'.root = pt.root) (listed : pa ∈ s.freelist) : pa ∈ s'.freelist ∨
      (∃ i, pt'.mid i = some pa ∧ pt.mid i ≠ some pa) ∨ ∃ i, pt'.low i = some pa ∧ pt.low i ≠ some pa := by
  by_contra! none
  obtain ⟨unlisted, mid, low⟩ := none
  have before := List.count_pos_iff.mpr listed
  have after := List.count_eq_zero.mpr unlisted
  have fewerMid : ¬ tally pt.mid pa (2 ^ 9) < tally pt'.mid pa (2 ^ 9) := fun more => by
    obtain ⟨i, -, here, new⟩ := Tally.new_of_lt more
    exact new (mid i here)
  have fewerLow : ¬ tally pt.low pa (2 ^ 18) < tally pt'.low pa (2 ^ 18) := fun more => by
    obtain ⟨i, -, here, new⟩ := Tally.new_of_lt more
    exact new (low i here)
  have frames : pt'.frame = pt.frame := by
    unfold Pagetable.frame
    rw [leaf]
  unfold total Pagetable.owned Pagetable.tables at balance
  rw [root, frames] at balance
  omega

/-- A call of `growproc` that fails leaves the size, the mapped pages and their contents, and the pages that
it took are free again or tables of the page table; one that succeeds adds the pages from the old size to the
new one, and changes no other. Before and after, each page of memory is as often free or in the page table. -/
theorem growproc_undone (positive : 0 < n) (small : n < 2 ^ 31) (bounded : p.sz ≤ MAXVA)
    (apart : ∀ q pte, p.pagetable.leaf q = some pte → pte.pa ∉ s.freelist)
    (run : growproc n p s = .ok ((r, p'), s')) :
    (r = -1 ∧ p'.sz = p.sz ∧ p'.pagetable.leaf = p.pagetable.leaf ∧
        (∀ pa ∈ s.freelist, pa ∈ s'.freelist ∨ (∃ i, p'.pagetable.mid i = some pa ∧
        p.pagetable.mid i = none) ∨
          ∃ i, p'.pagetable.low i = some pa ∧ p.pagetable.low i = none) ∨
      r = 0 ∧ p'.sz = p.sz + n.toNat ∧
        (∀ q, q < PGROUNDUP p.sz / PGSIZE ∨ PGROUNDUP (p.sz + n.toNat) / PGSIZE ≤ q →
          p'.pagetable.leaf q = p.pagetable.leaf q) ∧
        ∀ q, PGROUNDUP p.sz / PGSIZE ≤ q → q < PGROUNDUP (p.sz + n.toNat) / PGSIZE →
        p.pagetable.leaf q = none ∧
          ∃ pa ∈ s.freelist, p'.pagetable.leaf q = some ⟨pa, ⟨true, true, false, true⟩⟩) ∧
    p'.trapframe = p.trapframe ∧ p'.pagetable.root = p.pagetable.root ∧
    (∀ i page, p.pagetable.mid i = some page → p'.pagetable.mid i = some page) ∧
    (∀ i page, p.pagetable.low i = some page → p'.pagetable.low i = some page) ∧
    (∀ q pte, p.pagetable.leaf q = some pte → s'.mem pte.pa = s.mem pte.pa) ∧
    ∀ pa, total s' p'.pagetable pa = total s p.pagetable pa := by
  have free : ∀ pa ∈ s.freelist, pa ∈ s.freelist := fun _ => id
  have size : (p.sz + n.toNat) % 2 ^ 64 = p.sz + n.toNat :=
    Nat.mod_eq_of_lt (by unfold MAXVA at bounded; omega)
  have alloc := uvmalloc_gives p.pagetable p.sz (p.sz + n.toNat) true false bounded free
  have gives : Gives (growproc n p) s fun a s' => Step (· ∈ s.freelist) s s' p.pagetable a.2.pagetable ∧
      (∀ x, total s' a.2.pagetable x = total s p.pagetable x) ∧ a.2.trapframe = p.trapframe ∧
      (a.1 = -1 ∧ a.2.sz = p.sz ∧ a.2.pagetable.leaf = p.pagetable.leaf ∨ a.1 = 0 ∧ a.2.sz = p.sz + n.toNat ∧
        (∀ q, q < PGROUNDUP p.sz / PGSIZE ∨ PGROUNDUP (p.sz + n.toNat) / PGSIZE ≤ q →
          a.2.pagetable.leaf q = p.pagetable.leaf q) ∧
        ∀ q, PGROUNDUP p.sz / PGSIZE ≤ q → q < PGROUNDUP (p.sz + n.toNat) / PGSIZE →
        p.pagetable.leaf q = none ∧
          ∃ pa ∈ s.freelist, a.2.pagetable.leaf q = some ⟨pa, ⟨true, true, false, true⟩⟩) := by
    unfold growproc
    rw [if_pos positive, size]
    refine alloc.bind fun result s₁ grown => ?_
    obtain ⟨step, balance, ⟨less, -⟩ | ⟨-, failed, leaf⟩ | ⟨-, done, -, -, kept, added⟩⟩ := grown
    · omega
    · refine Gives.ite (fun _ => Gives.pure ⟨step, balance, rfl, .inl ⟨rfl, rfl, leaf⟩⟩) fun wrong =>
        absurd failed wrong
    · refine Gives.ite (fun wrong => by omega) fun _ => Gives.pure ⟨step, balance, rfl,
        .inr ⟨rfl, done, kept, added⟩⟩
  obtain ⟨step, balance, trapframe, result⟩ := gives (r, p') s' run
  refine ⟨?_, trapframe, step.root, fun i page => step.mid, fun i page => step.low,
    fun q pte there => step.mem (apart q pte there),
    balance⟩
  rcases result with ⟨failed, same, leaf⟩ | done
  · refine .inl ⟨failed, same, leaf, fun pa listed => ?_⟩
    obtain again | ⟨i, here, new⟩ | ⟨i, here, new⟩ := linked_or_free (balance pa) leaf step.root listed
    · exact .inl again
    · refine .inr (.inl ⟨i, here, ?_⟩)
      by_contra! there
      obtain ⟨page, old⟩ := Option.ne_none_iff_exists'.mp there
      exact new (old.trans ((step.mid old).symm.trans here))
    · refine .inr (.inr ⟨i, here, ?_⟩)
      by_contra! there
      obtain ⟨page, old⟩ := Option.ne_none_iff_exists'.mp there
      exact new (old.trans ((step.low old).symm.trans here))
  · exact .inr done

/-- A process without memory, and two free pages. -/
def blank : Proc := ⟨⟨0x87FFF000, fun _ => none, fun _ => none, fun _ => none⟩, 0, 0x87FFC000⟩

def twoPages : Memory := ⟨0x80022000, 0x80007000, fun _ _ => 0, [0x87FFA000, 0x87FFB000], fun _ _ => false⟩

set_option maxRecDepth 20000 in
theorem grow_twoPages : ∃ p' s', growproc 4096 blank twoPages = .ok ((-1, p'), s') := ⟨_, _, rfl⟩

/-- The second page becomes a table, and then there is none for the other. -/
theorem growproc_undone_two : ∃ p' s', growproc 4096 blank twoPages = .ok ((-1, p'), s') ∧ p'.sz = 0 ∧
    p'.pagetable.leaf = (fun _ => none) ∧ ∀ pa ∈ twoPages.freelist, pa ∈ s'.freelist ∨
      (∃ i, p'.pagetable.mid i = some pa) ∨ ∃ i, p'.pagetable.low i = some pa := by
  obtain ⟨p', s', run⟩ := grow_twoPages
  obtain ⟨⟨-, same, leaf, taken⟩ | ⟨zero, -⟩, -⟩ := growproc_undone (by decide) (by decide) (by decide)
    (fun q pte there => by cases there) run
  · refine ⟨p', s', run, same, leaf, fun pa listed => ?_⟩
    obtain again | ⟨i, here, -⟩ | ⟨i, here, -⟩ := taken pa listed
    · exact .inl again
    · exact .inr (.inl ⟨i, here⟩)
    · exact .inr (.inr ⟨i, here⟩)
  · omega

end Xv6.Vm
