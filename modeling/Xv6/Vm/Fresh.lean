import Xv6.Vm.Blind

namespace Xv6.Vm
open Function TwoRuns

/-- Two states of the kernel that differ only in the contents of free pages, with nothing written yet. -/
structure OnlyFree (s t : Memory) : Prop where
  kernelEnd : s.kernelEnd = t.kernelEnd
  trampoline : s.trampoline = t.trampoline
  freelist : s.freelist = t.freelist
  mem : ∀ pa, pa ∉ s.freelist → s.mem pa = t.mem pa
  written : s.written = (fun _ _ => false) ∧ t.written = fun _ _ => false

/-- An address whose page is mapped by the call: one that was not mapped before, or any after `exec`. -/
def Call.Maps (c : Call) (p : Proc) (va : Nat) : Prop :=
  match c with
  | .growproc _ => p.pagetable.leaf (va / PGSIZE) = none
  | .exec .. => True

/-- Where a byte of a newly mapped page is that the user can read. -/
def Fresh (c : Call) (p p' : Proc) (pa x : Nat) : Prop :=
  ∃ va pte, p'.pagetable.leaf (va / PGSIZE) = some pte ∧ pte.perm.r = true ∧ pte.perm.u = true ∧ c.Maps p va ∧
    pa = pte.pa ∧ x = va % PGSIZE

section Fresh

variable {s t s' t' : Memory} {c : Call} {p p' : Proc} {r : Int} {pa x : Nat}

theorem OnlyFree.twin (differ : OnlyFree s t) : Twin s.mem t.mem s t := by
  refine ⟨differ.kernelEnd, differ.trampoline, differ.freelist, differ.written.1.trans differ.written.2.symm,
    fun pa x now => ?_, fun _ _ _ => ⟨rfl, rfl⟩⟩
  rw [differ.written.1] at now
  cases now

/-- What a call does in two such states: it ends alike, and a byte is either written alike or as it was. -/
theorem OnlyFree.run (differ : OnlyFree s t) (run : c.run p s = .ok ((r, p'), s')) :
    ∃ t', c.run p t = .ok ((r, p'), t') ∧ Twin s.mem t.mem s' t' :=
  (Call.run_blind c p).follow differ.twin run

theorem Twin.same_iff (twin : Twin s.mem t.mem s' t') :
    s'.mem pa x = t'.mem pa x ↔ (s'.written pa x = false → s.mem pa x = t.mem pa x) := by
  cases wrote : s'.written pa x with
  | true => exact ⟨fun _ never => (by cases never), fun _ => twin.same pa x wrote⟩
  | false =>
    obtain ⟨first, second⟩ := twin.old pa x wrote
    rw [first, second]
    exact ⟨fun same _ => same, fun same => same rfl⟩

end Fresh

/-- Fresh user memory is the same in both states, and zero where the call writes nothing, exactly if the bytes
of the free pages it is made of, other than those that the call writes, are zero in both. -/
theorem fresh_zero_iff {s t s' : Memory} {c : Call} {p p' : Proc} {r : Int} (differ : OnlyFree s t)
    (run : c.run p s = .ok ((r, p'), s')) :
    ∃ t', c.run p t = .ok ((r, p'), t') ∧
      ((∀ pa x, Fresh c p p' pa x → s'.mem pa x = t'.mem pa x) ↔
        ∀ pa x, Fresh c p p' pa x → s'.written pa x = false → s.mem pa x = t.mem pa x) ∧
      ((∀ pa x, Fresh c p p' pa x → s'.mem pa x = t'.mem pa x ∧ (s'.written pa x = false → s'.mem pa x = 0)) ↔
        ∀ pa x, Fresh c p p' pa x → s'.written pa x = false → s.mem pa x = 0 ∧ t.mem pa x = 0) := by
  obtain ⟨t', run', twin⟩ := differ.run run
  refine ⟨t', run', ⟨fun same pa x fresh => twin.same_iff.mp (same pa x fresh),
    fun same pa x fresh => twin.same_iff.mpr (same pa x fresh)⟩, fun zero pa x fresh never => ?_,
    fun zero pa x fresh => ⟨twin.same_iff.mpr fun never => ?_, fun never => ?_⟩⟩
  · have first : s.mem pa x = 0 := (twin.old pa x never).1.symm.trans ((zero pa x fresh).2 never)
    exact ⟨first, (twin.same_iff.mp (zero pa x fresh).1 never).symm.trans first⟩
  · exact (zero pa x fresh never).1.trans (zero pa x fresh never).2.symm
  · exact (twin.old pa x never).1.trans (zero pa x fresh never).1

/-- A process without memory whose page table has its upper levels. -/
def bare : Proc := ⟨⟨0x87FFF000, fun _ => some 0x87FFE000, fun _ => some 0x87FFD000,
      fun _ => none⟩, 0, 0x87FFC000⟩

/-- One free page, of the same bytes. -/
def onePage (byte : UInt8) : Memory :=
  ⟨0x80022000, 0x80007000, fun pa _ => if pa = 0x87FFB000 then byte else 0, [0x87FFB000], fun _ _ => false⟩

theorem onePage_differ (a b : UInt8) : OnlyFree (onePage a) (onePage b) :=
  ⟨rfl, rfl, rfl, fun pa used => by
    have other : pa ≠ 0x87FFB000 := fun same => used (by rw [same]; exact List.mem_singleton.mpr rfl)
    simp only [onePage, other, if_false], rfl, rfl⟩

set_option maxRecDepth 20000 in
/-- The page that `growproc` maps. -/
theorem grow_onePage (byte : UInt8) : ∃ p' s', (Call.growproc 4096).run bare (onePage byte) =
    .ok ((0, p'), s') ∧
    Fresh (.growproc 4096) bare p' 0x87FFB000 100 ∧ s'.written 0x87FFB000 100 = false ∧
    s'.mem 0x87FFB000 100 = byte :=
  ⟨_, _, rfl, ⟨100, ⟨0x87FFB000, ⟨true, true, false, true⟩⟩, rfl, rfl, rfl, rfl, rfl, rfl⟩, rfl, rfl⟩

theorem fresh_zero_iff_clean : ∃ p' s' t', (Call.growproc 4096).run bare (onePage 0) = .ok ((0, p'), s') ∧
    (Call.growproc 4096).run bare (onePage 0) = .ok ((0, p'), t') ∧
    ∀ pa x, Fresh (.growproc 4096) bare p' pa x → s'.mem pa x = t'.mem pa x := by
  obtain ⟨p', s', run, -⟩ := grow_onePage 0
  obtain ⟨t', run', same, -⟩ := fresh_zero_iff (onePage_differ 0 0) run
  exact ⟨p', s', t', run, run', same.mpr fun _ _ _ _ => rfl⟩

/-- What a dead process left in a page shows in a growing one. -/
theorem fresh_reveals : ∃ s t p p' s' t', OnlyFree s t ∧ (Call.growproc 4096).run p s = .ok ((0, p'), s') ∧
    (Call.growproc 4096).run p t = .ok ((0, p'), t') ∧
    ∃ pa x, Fresh (.growproc 4096) p p' pa x ∧ s'.written pa x = false ∧ s'.mem pa x ≠ t'.mem pa x := by
  obtain ⟨p', s', run, fresh, never, first⟩ := grow_onePage 1
  obtain ⟨t', run', twin⟩ := (onePage_differ 1 2).run run
  have second : t'.mem 0x87FFB000 100 = 2 := (twin.old _ _ never).2
  refine ⟨onePage 1, onePage 2, bare, p', s', t', onePage_differ 1 2, run, run', _, _, fresh, never, ?_⟩
  rw [first, second]
  decide

end Xv6.Vm
