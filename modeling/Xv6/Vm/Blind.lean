import Xv6.Vm.Machine
import Xv6.Lib.TwoRuns

namespace Xv6.Vm
open Function TwoRuns

/-- Two memories that agree where they have been written, and are as they were elsewhere. -/
structure Twin (left right : Nat → Bytes) (s t : Memory) : Prop where
  kernelEnd : s.kernelEnd = t.kernelEnd
  trampoline : s.trampoline = t.trampoline
  freelist : s.freelist = t.freelist
  written : s.written = t.written
  same : ∀ pa x, s.written pa x = true → s.mem pa x = t.mem pa x
  old : ∀ pa x, s.written pa x = false → s.mem pa x = left pa x ∧ t.mem pa x = right pa x

section Blind

variable {left right : Nat → Bytes} {s t : Memory} {pt : Pagetable} {p : Proc}

theorem Twin.write (twin : Twin left right s t) (pa a n : Nat) (src : Bytes) :
    Twin left right (s.write pa a n src) (t.write pa a n src) := by
  refine ⟨twin.kernelEnd, twin.trampoline, twin.freelist,
    by simp only [Memory.write, twin.written], fun q x now => ?_,
    fun q x never => ?_⟩
  · simp only [Memory.write] at now ⊢
    by_cases here : q = pa
    · subst here
      rw [update_self] at now ⊢
      rw [update_self]
      by_cases inside : a ≤ x ∧ x < a + n
      · rw [Bytes.splice_inside inside.1 inside.2, Bytes.splice_inside inside.1 inside.2]
      · rw [Bytes.splice_outside (by omega), Bytes.splice_outside (by omega)]
        simp only [inside, decide_false, Bool.false_or] at now
        exact twin.same q x now
    · rw [update_of_ne here] at now ⊢
      rw [update_of_ne here]
      exact twin.same q x now
  · simp only [Memory.write] at never ⊢
    by_cases here : q = pa
    · subst here
      rw [update_self] at never ⊢
      rw [update_self]
      rw [Bool.or_eq_false_iff, decide_eq_false_iff_not] at never
      rw [Bytes.splice_outside (by omega), Bytes.splice_outside (by omega)]
      exact twin.old q x never.2
    · rw [update_of_ne here] at never ⊢
      rw [update_of_ne here]
      exact twin.old q x never

theorem write_blind (pa a n : Nat) (src : Bytes) :
    Blind (Twin left right) (modify fun s => s.write pa a n src : VmM PUnit) :=
  Blind.modify fun _ _ twin => twin.write pa a n src

theorem kfree_blind (pa : Nat) : Blind (Twin left right) (kfree pa) := by
  refine ⟨fun s t twin => ?_⟩
  have written := twin.write pa 0 8 (Bytes.ofNat (s.freelist.headD 0))
  unfold kfree
  rw [← twin.kernelEnd, ← twin.freelist]
  split
  · rfl
  · exact ⟨rfl, written.kernelEnd, written.trampoline, rfl, written.written, written.same, written.old⟩

theorem kalloc_blind : Blind (Twin left right) kalloc := by
  refine ⟨fun s t twin => ?_⟩
  unfold kalloc
  rw [← twin.freelist]
  cases free : s.freelist with
  | nil => exact ⟨rfl, twin⟩
  | cons pa rest =>
    exact ⟨rfl, twin.kernelEnd, twin.trampoline, rfl, twin.written, twin.same, twin.old⟩

theorem memset_blind (pa : Nat) : Blind (Twin left right) (memset pa) := write_blind ..

/-! ### Page tables -/

theorem descend_blind (entry : Option Nat) (alloc : Bool) : Blind (Twin left right) (descend entry alloc) := by
  unfold descend
  cases entry with
  | some page => exact Blind.pure _
  | none =>
    cases alloc with
    | false => exact Blind.pure _
    | true =>
      refine kalloc_blind.bind fun r => ?_
      cases r with
      | none => exact Blind.pure _
      | some page => exact (memset_blind page).bind fun _ => Blind.pure _

theorem walk_blind (pt : Pagetable) (va : Nat) (alloc : Bool) :
    Blind (Twin left right) (walk pt va alloc) := by
  unfold walk
  split
  · exact Blind.throw _
  · refine (descend_blind _ alloc).bind fun mid => ?_
    cases mid with
    | none => exact Blind.pure _
    | some mid =>
      refine (descend_blind _ alloc).bind fun low => ?_
      cases low with
      | none => exact Blind.pure _
      | some low => exact Blind.pure _

theorem walkaddr_blind (pt : Pagetable) (va : Nat) : Blind (Twin left right) (walkaddr pt va) := by
  unfold walkaddr
  split
  · exact Blind.pure _
  · refine (walk_blind pt va false).bind fun r => ?_
    split
    split
    · exact Blind.pure _
    · exact Blind.pure _

theorem mapLoop_blind (perm : Perm) (n : Nat) (pt : Pagetable) (a pa : Nat) :
    Blind (Twin left right) (mapLoop perm n pt a pa) := by
  induction n generalizing pt a pa with
  | zero => exact Blind.pure _
  | succ n ih =>
    refine (walk_blind pt a true).bind fun r => ?_
    split
    split
    · exact Blind.pure _
    · split
      · exact Blind.throw _
      · exact ih ..

theorem mappages_blind (pt : Pagetable) (va size pa : Nat) (perm : Perm) :
    Blind (Twin left right) (mappages pt va size pa perm) := by
  unfold mappages
  split
  · exact Blind.throw _
  · split
    · exact Blind.throw _
    · split
      · exact Blind.throw _
      · exact mapLoop_blind ..

theorem unmapLoop_blind (doFree : Bool) (n : Nat) (pt : Pagetable) (a : Nat) :
    Blind (Twin left right) (unmapLoop doFree n pt a) := by
  induction n generalizing pt a with
  | zero => exact Blind.pure _
  | succ n ih =>
    refine (walk_blind pt a false).bind fun r => ?_
    split
    split
    · exact Blind.throw _
    · split
      · exact Blind.throw _
      · split
        · exact Blind.throw _
        · cases doFree with
          | true => exact (kfree_blind _).bind fun _ => ih _ _
          | false => exact ih _ _

theorem uvmunmap_blind (pt : Pagetable) (va npages : Nat) (doFree : Bool) :
    Blind (Twin left right) (uvmunmap pt va npages doFree) := by
  unfold uvmunmap
  split
  · exact Blind.throw _
  · exact unmapLoop_blind ..

theorem uvmcreate_blind : Blind (Twin left right) uvmcreate := by
  refine kalloc_blind.bind fun r => ?_
  cases r with
  | none => exact Blind.pure _
  | some root => exact (memset_blind root).bind fun _ => Blind.pure _

theorem uvmdealloc_blind (pt : Pagetable) (oldsz newsz : Nat) :
    Blind (Twin left right) (uvmdealloc pt oldsz newsz) := by
  unfold uvmdealloc
  split
  · exact Blind.pure _
  · split
    · exact (uvmunmap_blind ..).bind fun _ => Blind.pure _
    · exact Blind.pure _

theorem allocLoop_blind (start newsz : Nat) (perm : Perm) (n : Nat) (pt : Pagetable) (a : Nat) :
    Blind (Twin left right) (allocLoop start newsz perm n pt a) := by
  induction n generalizing pt a with
  | zero => exact Blind.pure _
  | succ n ih =>
    refine kalloc_blind.bind fun r => ?_
    cases r with
    | none => exact (uvmdealloc_blind ..).bind fun _ => Blind.pure _
    | some mem =>
      refine (mappages_blind ..).bind fun r => ?_
      split
      split
      · exact (kfree_blind mem).bind fun _ => (uvmdealloc_blind ..).bind fun _ => Blind.pure _
      · exact ih _ _

theorem uvmalloc_blind (pt : Pagetable) (oldsz newsz : Nat) (w x : Bool) :
    Blind (Twin left right) (uvmalloc pt oldsz newsz w x) := by
  unfold uvmalloc
  split
  · exact Blind.pure _
  · exact allocLoop_blind ..

theorem freeLow_blind (pt : Pagetable) (i : Nat) : Blind (Twin left right) (freeLow pt i) := by
  unfold freeLow
  split
  · exact Blind.pure _
  · split
    · exact Blind.throw _
    · exact kfree_blind _

theorem freeMid_blind (pt : Pagetable) (i : Nat) : Blind (Twin left right) (freeMid pt i) := by
  unfold freeMid
  split
  · exact Blind.pure _
  · exact (Blind.forM (fun j => freeLow_blind pt _) _).bind fun _ => kfree_blind _

theorem freewalk_blind (pt : Pagetable) : Blind (Twin left right) (freewalk pt) :=
  (Blind.forM (freeMid_blind pt) _).bind fun _ => kfree_blind _

theorem uvmfree_blind (pt : Pagetable) (sz : Nat) : Blind (Twin left right) (uvmfree pt sz) := by
  unfold uvmfree
  split
  · refine (uvmunmap_blind ..).bind fun pt => ?_
    exact freewalk_blind pt
  · exact freewalk_blind pt

theorem uvmclear_blind (pt : Pagetable) (va : Nat) : Blind (Twin left right) (uvmclear pt va) := by
  refine (walk_blind pt va false).bind fun r => ?_
  split
  split
  · exact Blind.throw _
  · exact Blind.pure _

theorem copyLoop_blind (pt : Pagetable) (n dstva : Nat) (src : Bytes) (len : Nat) :
    Blind (Twin left right) (copyLoop pt n dstva src len) := by
  induction n generalizing pt dstva src len with
  | zero => exact Blind.pure _
  | succ n ih =>
    unfold copyLoop
    split
    · exact Blind.pure _
    · simp only
      split
      · exact Blind.pure _
      · refine (walk_blind ..).bind fun r => ?_
        split
        · exact Blind.pure _
        · split
          · exact Blind.pure _
          · refine (walkaddr_blind ..).bind fun pa0 => ?_
            split
            · exact Blind.pure _
            · exact (write_blind ..).bind fun _ => ih _ _ _ _

theorem copyout_blind (pt : Pagetable) (dstva : Nat) (src : Bytes) (len : Nat) :
    Blind (Twin left right) (copyout pt dstva src len) := copyLoop_blind ..

/-! ### Processes -/

theorem trampoline_blind : Blind (Twin left right) trampoline :=
  ⟨fun _ _ twin => ⟨twin.trampoline, twin⟩⟩

theorem procFreepagetable_blind (pt : Pagetable) (sz : Nat) :
    Blind (Twin left right) (procFreepagetable pt sz) :=
  (uvmunmap_blind ..).bind fun _ => (uvmunmap_blind ..).bind fun _ => uvmfree_blind ..

theorem growproc_blind (n : Int) (p : Proc) : Blind (Twin left right) (growproc n p) := by
  unfold growproc
  split
  · refine (uvmalloc_blind ..).bind fun r => ?_
    split
    split
    · exact Blind.pure _
    · exact Blind.pure _
  · split
    · exact (uvmdealloc_blind ..).bind fun _ => Blind.pure _
    · exact Blind.pure _

theorem readi_blind (ip : File) (pa off n : Nat) : Blind (Twin left right) (readi ip pa off n) :=
  (write_blind ..).bind fun _ => Blind.pure _

theorem loadLoop_blind (pt : Pagetable) (va : Nat) (ip : File) (offset sz n i : Nat) :
    Blind (Twin left right) (loadLoop pt va ip offset sz n i) := by
  induction n generalizing i with
  | zero => exact Blind.pure _
  | succ n ih =>
    refine (walkaddr_blind ..).bind fun pa => ?_
    split
    · exact Blind.throw _
    · refine (readi_blind ..).bind fun r => ?_
      split
      · exact Blind.pure _
      · exact ih _

theorem loadSegments_blind (ip : File) (n off : Nat) (pt : Pagetable) (sz : Nat) :
    Blind (Twin left right) (loadSegments ip n off pt sz) := by
  induction n generalizing off pt sz with
  | zero => exact Blind.pure _
  | succ n ih =>
    unfold loadSegments
    split
    · exact Blind.pure _
    · simp only
      split
      · exact ih _ _ _
      · split
        · exact Blind.pure _
        · split
          · exact Blind.pure _
          · split
            · exact Blind.pure _
            · refine (uvmalloc_blind ..).bind fun r => ?_
              split
              · exact Blind.pure _
              · refine (loadLoop_blind ..).bind fun r => ?_
                split
                · exact Blind.pure _
                · exact ih _ _ _

theorem pushArgs_blind (pt : Pagetable) (stackbase : Nat) (argv : List (List UInt8)) (sp : Nat)
    (ustack : List Nat) :
    Blind (Twin left right) (pushArgs pt stackbase argv sp ustack) := by
  induction argv generalizing sp ustack with
  | nil =>
    unfold pushArgs
    simp only
    split
    · exact Blind.pure _
    · exact (copyout_blind ..).bind fun _ => Blind.pure _
  | cons arg rest ih =>
    unfold pushArgs
    split
    · exact Blind.pure _
    · simp only
      split
      · exact Blind.pure _
      · refine (copyout_blind ..).bind fun r => ?_
        split
        · exact Blind.pure _
        · exact ih _ _

theorem procPagetable_blind (p : Proc) : Blind (Twin left right) (procPagetable p) := by
  refine uvmcreate_blind.bind fun r => ?_
  cases r with
  | none => exact Blind.pure _
  | some pt =>
    refine trampoline_blind.bind fun trampoline => (mappages_blind ..).bind fun r => ?_
    split
    split
    · exact (uvmfree_blind ..).bind fun _ => Blind.pure _
    · refine (mappages_blind ..).bind fun r => ?_
      split
      split
      · exact (uvmunmap_blind ..).bind fun _ => (uvmfree_blind ..).bind fun _ => Blind.pure _
      · exact Blind.pure _

theorem execBad_blind (p : Proc) (pt : Pagetable) (sz : Nat) : Blind (Twin left right) (execBad p pt sz) :=
  (procFreepagetable_blind ..).bind fun _ => Blind.pure _

theorem exec_blind (ip : Option File) (argv : List (List UInt8)) (p : Proc) :
    Blind (Twin left right) (exec ip argv p) := by
  unfold exec
  split
  · exact Blind.pure _
  · split
    · exact Blind.pure _
    · split
      · exact Blind.pure _
      · refine (procPagetable_blind p).bind fun r => ?_
        cases r with
        | none => exact Blind.pure _
        | some pt =>
          refine (loadSegments_blind ..).bind fun r => ?_
          split
          split
          · exact execBad_blind ..
          · refine (uvmalloc_blind ..).bind fun r => ?_
            split
            split
            · exact execBad_blind ..
            · refine (uvmclear_blind ..).bind fun pt => (pushArgs_blind ..).bind fun r => ?_
              cases r with
              | none => exact execBad_blind ..
              | some sp => exact (procFreepagetable_blind ..).bind fun _ => Blind.pure _

theorem Call.run_blind (c : Call) (p : Proc) : Blind (Twin left right) (c.run p) := by
  cases c with
  | growproc n => exact growproc_blind n p
  | exec ip argv => exact exec_blind ip argv p

end Blind

end Xv6.Vm
