import Xv6.Vm.Whole

namespace Xv6.Vm
open Function

/-- The end of `uvmcopy` when there is no free page. -/
def uncopy (new : Pagetable) (i : Nat) : VmM (Int × Pagetable) := do
  let new ← uvmunmap new 0 (i / PGSIZE) true
  pure (-1, new)

/-- The loop of `uvmcopy`, for a number of pages from `i` on. -/
def copyPages (old : Pagetable) : Nat → Pagetable → Nat → VmM (Int × Pagetable)
  | 0, new, _ => pure (0, new)
  | n + 1, new, i => do
    let (found, old) ← walk old i false
    if !found then throw "uvmcopy: pte should exist"
    else match old.leaf (i / PGSIZE) with
      | none => throw "uvmcopy: page not present"
      | some pte => do
        match ← kalloc with
        | none => uncopy new i
        | some mem => do
          modify fun s => s.write mem 0 PGSIZE (s.mem pte.pa)
          let (r, new) ← mappages new i PGSIZE mem pte.perm
          if r ≠ 0 then do
            kfree mem
            uncopy new i
          else copyPages old n new (i + PGSIZE)

def uvmcopy (old new : Pagetable) (sz : Nat) : VmM (Int × Pagetable) :=
  copyPages old ((sz + PGSIZE - 1) / PGSIZE) new 0

section Uvmcopy

variable {F : Nat → Prop} {s s' : Memory} {old new : Pagetable} {i n : Nat}

theorem uncopy_gives (new : Pagetable) (free : ∀ pa ∈ s.freelist, F pa)
    (made : ∀ q pte, q < i / PGSIZE → new.leaf q = some pte → F pte.pa) : Gives (uncopy new i) s fun r s' =>
      Step F s s' new r.2 ∧ (∀ x, total s' r.2 x = total s new x) ∧ r.1 = -1 ∧
        r.2.leaf = cleared new.leaf 0 (i / PGSIZE) := by
  unfold uncopy uvmunmap
  rw [if_neg (by decide)]
  have zero : 0 / PGSIZE = 0 := rfl
  refine (unmapLoop_gives _ new 0 free fun q pte _ early => made q pte (by omega)).bind
    fun pt' s₁ unmapped => ?_
  obtain ⟨step, leaf, balance⟩ := unmapped
  rw [zero] at leaf
  exact Gives.pure ⟨step, balance, rfl, leaf⟩

/-- A page of the child has the flags and the bytes of the parent's page. -/
def Copied (old new : Pagetable) (s s' : Memory) (q : Nat) : Prop :=
  ∃ pte pa, old.leaf q = some pte ∧ new.leaf q = some ⟨pa, pte.perm⟩ ∧ pa ∈ s.freelist ∧ pa ∉ s'.freelist ∧
    ∀ x < PGSIZE, s'.mem pa x = s.mem pte.pa x

/-- The rounds of `uvmcopy`: all pages are copied, or none are left. -/
theorem copyPages_gives (n : Nat) (new : Pagetable) (i : Nat) (aligned : i % PGSIZE = 0)
    (free : ∀ pa ∈ s.freelist, F pa)
    (nodup : s.freelist.Nodup) (made : ∀ q pte, q < i / PGSIZE → new.leaf q = some pte → F pte.pa)
    (apart : ∀ q pte, old.leaf q = some pte → pte.pa ∉ s.freelist) :
    Gives (copyPages old n new i) s fun r s' => Step F s s' new r.2 ∧ (∀ x, total s' r.2 x = total s new x) ∧
      (r.1 = -1 ∧ r.2.leaf = cleared new.leaf 0 (i / PGSIZE) ∨
        r.1 = 0 ∧ Takes s s' ∧ (∀ q, q < i / PGSIZE ∨ i / PGSIZE + n ≤ q → r.2.leaf q = new.leaf q) ∧
          ∀ q, i / PGSIZE ≤ q → q < i / PGSIZE + n → Copied old r.2 s s' q) := by
  induction n generalizing s new i with
  | zero =>
    exact Gives.pure ⟨(Uses.refl free).same new, fun _ => rfl, .inr ⟨rfl, .refl s, fun _ _ => rfl,
      fun q later early => by omega⟩⟩
  | succ n ih =>
    unfold copyPages
    refine (look_gives old i).bind fun r s₁ look => ?_
    obtain ⟨found, old₁⟩ := r
    obtain ⟨rfl, rfl, below⟩ := look
    dsimp only
    refine Gives.ite (fun _ => Gives.throw _) fun _ => ?_
    cases here : old₁.leaf (i / PGSIZE) with
    | none => exact Gives.throw _
    | some pte =>
      refine (kalloc_gives free).bind fun r s₂ alloc => ?_
      obtain ⟨uses, same, ⟨rfl, rfl, list⟩ | ⟨mem, rfl, list⟩⟩ := alloc
      · refine (uncopy_gives new free made).mono fun r s₃ undone => ?_
        exact ⟨undone.1, undone.2.1, .inl undone.2.2⟩
      have own : F mem := free mem (list ▸ List.mem_cons_self ..)
      have taken (x : Nat) : s₁.freelist.count x = s₂.freelist.count x +
        if mem = x then 1 else 0 := list ▸ count_cons ..
      have written : Gives (modify fun s => s.write mem 0 PGSIZE (s.mem pte.pa) : VmM PUnit) s₂ fun _ s₃ =>
          Uses F s₂ s₃ ∧ s₁.freelist = mem :: s₃.freelist ∧ (∀ x, x ≠ mem → s₃.mem x = s₁.mem x) ∧
            ∀ x < PGSIZE, s₃.mem mem x = s₁.mem pte.pa x := by
        refine Gives.modify ⟨write_uses uses.free own .., list, fun x other => ?_, fun x small => ?_⟩
        · exact (update_of_ne other _ _).trans (congrFun same x)
        · simp only [Memory.write, update_self]
          rw [Bytes.splice_inside (Nat.zero_le x) (by omega), same, Nat.sub_zero]
      refine written.bind fun _ s₃ wrote => ?_
      obtain ⟨uses₃, list₃, others, bytes⟩ := wrote
      obtain ⟨unlisted, nodup₃⟩ := List.nodup_cons.mp (list₃ ▸ nodup)
      refine (mappages_gives new i mem pte.perm uses₃.free).bind fun r s₄ mapped => ?_
      obtain ⟨step, takes, -, ⟨zero, empty, leaf, balance⟩ | ⟨failed, leaf, balance, -⟩⟩ := mapped
      · have next : (i + PGSIZE) / PGSIZE = i / PGSIZE + 1 := Nat.add_div_right i (by decide)
        have first : Takes s₁ s₄ := (Takes.write list₃ others).trans takes
        refine Gives.ite (fun wrong => absurd zero wrong) fun _ => ?_
        refine (ih r.2 (i + PGSIZE) ((Nat.add_mod_right ..).trans aligned) step.free
          (nodup₃.sublist takes.suffix.sublist) ?_
          fun q pte' there listed => apart q pte' there
          (first.suffix.subset listed)).mono fun r' s' rest => ?_
        · intro q pte' early there
          rw [leaf] at there
          by_cases new : q = i / PGSIZE
          · rw [new, update_self] at there
            obtain rfl := Option.some.inj there
            exact own
          · rw [update_of_ne new] at there
            exact made q pte' (by omega) there
        · obtain ⟨step', balance', result⟩ := rest
          refine ⟨(uses.same new).trans ((uses₃.same new).trans (step.trans step')), fun x => ?_, ?_⟩
          · have before := balance x
            have more := count_cons mem s₃.freelist x
            rw [balance', before]
            unfold total
            rw [list₃, more]
            omega
          · rcases result with ⟨failed, leaf'⟩ | ⟨done, takes', kept, copied⟩
            · refine .inl ⟨failed, ?_⟩
              rw [leaf', leaf, next]
              exact cleared_update new.leaf (Nat.zero_le _) empty
            · rw [next] at kept copied
              refine .inr ⟨done, first.trans takes', fun q out => ?_, fun q later early => ?_⟩
              · rw [kept q (by omega), leaf, update_of_ne (by omega)]
              · by_cases new : q = i / PGSIZE
                · have still : mem ∉ s₄.freelist := fun listed => unlisted (takes.suffix.subset listed)
                  subst new
                  refine ⟨pte, mem, here, ?_, list ▸ List.mem_cons_self .., fun listed =>
                    still (takes'.suffix.subset listed),
                    fun x small => ?_⟩
                  · rw [kept _ (by omega), leaf, update_self]
                  · rw [takes'.others still, takes.others unlisted, bytes x small]
                · obtain ⟨pte', pa, there, there', listed, unlisted', bytes'⟩ :=
                    copied q (by omega) (by omega)
                  refine ⟨pte', pa, there, there', first.suffix.subset listed, unlisted', fun x small => ?_⟩
                  rw [bytes' x small, first.others (apart q pte' there)]
      · refine Gives.ite (fun _ => ?_) fun wrong => absurd failed (by omega)
        refine (kfree_gives step.free own).bind fun _ s₅ freed => ?_
        obtain ⟨uses₅, list₅⟩ := freed
        refine (uncopy_gives r.2 uses₅.free (leaf ▸ made)).mono fun r' s' undone => ?_
        obtain ⟨step', balance', answer, leaf'⟩ := undone
        refine ⟨(uses.same new).trans ((uses₃.same new).trans (step.trans ((uses₅.same r.2).trans step'))),
          fun x => ?_,
          .inl ⟨answer, leaf ▸ leaf'⟩⟩
        have before := balance x
        have more := count_cons mem s₃.freelist x
        have back := count_cons mem s₄.freelist x
        rw [balance']
        unfold total at before ⊢
        rw [list₅, back, list₃, more]
        omega

/-- `uvmcopy` copies all pages of the old size, or none. -/
theorem uvmcopy_gives (new : Pagetable) (sz : Nat) (free : ∀ pa ∈ s.freelist, F pa) (nodup : s.freelist.Nodup)
    (apart : ∀ q pte, old.leaf q = some pte → pte.pa ∉ s.freelist) :
    Gives (uvmcopy old new sz) s fun r s' => Step F s s' new r.2 ∧ (∀ x, total s' r.2 x = total s new x) ∧
      (r.1 = -1 ∧ r.2.leaf = new.leaf ∨ r.1 = 0 ∧ Takes s s' ∧
        (∀ q, (sz + PGSIZE - 1) / PGSIZE ≤ q → r.2.leaf q = new.leaf q) ∧
          ∀ q < (sz + PGSIZE - 1) / PGSIZE, Copied old r.2 s s' q) := by
  have zero : 0 / PGSIZE = 0 := rfl
  refine (copyPages_gives _ new 0 rfl free nodup (fun q pte early => by omega) apart).mono
    fun r s' result => ?_
  rw [zero, cleared_zero, Nat.zero_add] at result
  obtain ⟨step, balance, failed | ⟨done, takes, kept, copied⟩⟩ := result
  · exact ⟨step, balance, .inl failed⟩
  · exact ⟨step, balance, .inr ⟨done, takes, fun q out => kept q (.inr out), fun q early =>
      copied q (Nat.zero_le q) early⟩⟩

end Uvmcopy

end Xv6.Vm
