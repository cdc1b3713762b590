import Xv6.Exec.Safety
import Xv6.Pages.Machine

/-! Who holds each page of memory, and what a step may change that works for one entry of the
process table. -/

namespace Xv6.Pages
open Function Fork
open Vm (Pagetable Pte Memory Uses Shaped Owned Resized Valid total PGSIZE TRAMPOLINE TRAPFRAME)

/-- How often a page is in the page table of an entry. -/
def held (slot : Fork.Slot) (x : Nat) : Nat :=
  match slot.pagetable with
  | none => 0
  | some pt => pt.owned x

/-- The address space of a process; no table and no other page of it is the trampoline. -/
structure Space (top : Nat) (slot : Fork.Slot) (pt : Pagetable) : Prop where
  pagetable : slot.pagetable = some pt
  shaped : Shaped pt slot.sz top slot.trapframe
  apart : top ≠ slot.trapframe
  once : pt.owned top ≤ 1

/-- An entry that is in use has an address space, and one that is not has nothing. -/
inductive Fine (top : Nat) (slot : Fork.Slot) : Prop where
  | blank : slot.state = .unused → Blank slot → Fine top slot
  | backed {pt : Pagetable} : slot.state ≠ .unused → (slot.state = .zombie → ∀ fd, slot.ofile fd = none) →
      Space top slot pt →
      Fine top slot

/-- Each page that was free is still free, it holds a pipe, or it is in one page table, once. -/
structure Orderly (boot : Kernel) (pipes : List Nat) (k : Fork.Kernel) : Prop where
  kernelEnd : k.memory.kernelEnd = boot.memory.kernelEnd
  trampoline : k.memory.trampoline = boot.memory.trampoline
  spare : boot.memory.trampoline ∉ k.memory.freelist
  buffers : boot.memory.trampoline ∉ pipes
  fine (p) : Fine boot.memory.trampoline (k.proc p)
  balance {x} : x ≠ boot.memory.trampoline →
    k.memory.freelist.count x + pipes.count x + ∑ p, held (k.proc p) x = boot.memory.freelist.count x
  refs (f) : k.fileRef f = (∑ p, opens (k.proc p).ofile f : Nat)

/-- What a process sees of its memory has not changed, nor its entry, except that it may have
another parent. -/
structure Spared (k k' : Fork.Kernel) (p : ProcId) : Prop where
  slot : k'.proc p = { k.proc p with parent := (k'.proc p).parent }
  mem {x} : 0 < held (k.proc p) x → k'.memory.mem x = k.memory.mem x

/-- So far also, but it may have been killed, and woken up or scheduled. -/
structure Kept (k k' : Fork.Kernel) (p : ProcId) : Prop where
  slot : k'.proc p = { k.proc p with
      parent := (k'.proc p).parent, state := (k'.proc p).state, killed := (k'.proc p).killed }
  mem {x} : 0 < held (k.proc p) x → k'.memory.mem x = k.memory.mem x

/-- The entry `p` has changed, its pages and free pages. -/
structure Turn (top : Nat) (k k' : Fork.Kernel) (p : ProcId) : Prop where
  kernelEnd : k'.memory.kernelEnd = k.memory.kernelEnd
  trampoline : k'.memory.trampoline = k.memory.trampoline
  spare : top ∉ k'.memory.freelist
  others {q} : q ≠ p → k'.proc q = { k.proc q with parent := (k'.proc q).parent }
  fine : Fine top (k'.proc p)
  mem {x} : x ∉ k.memory.freelist → x = top ∨ held (k.proc p) x = 0 → k'.memory.mem x = k.memory.mem x
  balance {x} : x ≠ top → k'.memory.freelist.count x + held (k'.proc p) x =
    k.memory.freelist.count x + held (k.proc p) x
  refs (f) : k'.fileRef f + opens (k.proc p).ofile f = k.fileRef f + opens (k'.proc p).ofile f

/-- All entries but those of `S` are as they were. -/
structure Moved (boot : Kernel) (pipes : List Nat) (S : ProcId → Prop) (k k' : Fork.Kernel) : Prop where
  orderly : Orderly boot pipes k'
  spared {p} : ¬S p → Spared k k' p

/-- The pages that the process at `p` may use: those in its page table, and free ones. -/
def Own (top : Nat) (k : Fork.Kernel) (p : ProcId) (x : Nat) : Prop :=
  x ≠ top ∧ x ≠ (k.proc p).trapframe ∧ 0 < k.memory.freelist.count x + held (k.proc p) x

section Turns

variable {boot : Kernel} {pipes : List Nat} {k k' k'' : Fork.Kernel} {p q : ProcId} {pt pt' : Pagetable}
  {s' : Memory} {x sz : Nat}
  {S T : ProcId → Prop}

theorem held_of {slot : Fork.Slot} (table : slot.pagetable = some pt) (x : Nat) :
    held slot x = pt.owned x := by
  unfold held
  rw [table]

theorem held_none {slot : Fork.Slot} (table : slot.pagetable = none) (x : Nat) : held slot x = 0 := by
  unfold held
  rw [table]

theorem Spared.held (spared : Spared k k' p) (x : Nat) : held (k'.proc p) x = held (k.proc p) x := by
  unfold Pages.held
  rw [spared.slot]

theorem Spared.refl (k : Fork.Kernel) (p : ProcId) : Spared k k p := ⟨rfl, fun _ => rfl⟩

theorem Spared.trans (first : Spared k k' p) (second : Spared k' k'' p) : Spared k k'' p := by
  refine ⟨second.slot.trans (by rw [first.slot]), fun {x} there => (second.mem ?_).trans (first.mem there)⟩
  rwa [first.held]

theorem Spared.kept (spared : Spared k k' p) : Kept k k' p := by
  refine ⟨?_, spared.mem⟩
  rw [spared.slot]

theorem Kept.held (kept : Kept k k' p) (x : Nat) : Pages.held (k'.proc p) x = Pages.held (k.proc p) x := by
  unfold Pages.held
  rw [kept.slot]

theorem Kept.trans (first : Kept k k' p) (second : Kept k' k'' p) : Kept k k'' p := by
  refine ⟨second.slot.trans (by rw [first.slot]), fun {x} there => (second.mem ?_).trans (first.mem there)⟩
  rwa [first.held]

theorem Moved.trans (first : Moved boot pipes S k k') (second : Moved boot pipes T k' k'') :
    Moved boot pipes (fun p => S p ∨ T p) k k'' :=
  ⟨second.orderly, fun out => (first.spared fun here => out (.inl here)).trans
    (second.spared fun here => out (.inr here))⟩

theorem Moved.mono (moved : Moved boot pipes S k k') (more : ∀ p, S p → T p) : Moved boot pipes T k k' :=
  ⟨moved.orderly, fun out => moved.spared fun here => out (more _ here)⟩

/-- Two moves of the same entries. -/
theorem Moved.then (first : Moved boot pipes S k k') (second : Moved boot pipes S k' k'') :
    Moved boot pipes S k k'' :=
  (first.trans second).mono fun _ => Or.rec id id

theorem Orderly.stays (orderly : Orderly boot pipes k) : Moved boot pipes S k k :=
  ⟨orderly, fun _ => .refl k _⟩

theorem Booted.count_le (booted : Booted boot) (x : Nat) : boot.memory.freelist.count x ≤ 1 :=
  List.nodup_iff_count_le_one.mp booted.nodup x

theorem Booted.valid (booted : Booted boot) (listed : 0 < boot.memory.freelist.count x) :
    Valid boot.memory.kernelEnd x :=
  booted.pages x (List.count_pos_iff.mp listed)

/-- Whoever has a page keeps the others from it. -/
theorem Orderly.shares (orderly : Orderly boot pipes k) (other : x ≠ boot.memory.trampoline) (p : ProcId) :
    k.memory.freelist.count x + pipes.count x + held (k.proc p) x ≤ boot.memory.freelist.count x := by
  have all := orderly.balance other
  have less := Shares.le_sum (fun slot => held slot x) k.proc p
  omega

theorem Orderly.apart (orderly : Orderly boot pipes k) (other : x ≠ boot.memory.trampoline) (apart : p ≠ q) :
    k.memory.freelist.count x + pipes.count x + held (k.proc p) x + held (k.proc q) x ≤
    boot.memory.freelist.count x := by
  have all := orderly.balance other
  have less := Shares.two_le_sum (fun slot => held slot x) k.proc apart
  omega

/-- The pages of a process are not free. -/
theorem Orderly.unlisted (orderly : Orderly boot pipes k) (booted : Booted boot)
    (some : 0 < held (k.proc p) x) : x ∉ k.memory.freelist := by
  intro listed
  by_cases top : x = boot.memory.trampoline
  · exact orderly.spare (top ▸ listed)
  · have shares := orderly.shares top p
    have once := booted.count_le x
    have free := List.count_pos_iff.mpr listed
    omega

/-- What is fine about an entry rests on its memory, its files, and whether it is in use or a zombie. -/
theorem Fine.congr {top : Nat} {slot slot' : Fork.Slot} (fine : Fine top slot)
    (unused : slot'.state = .unused ↔ slot.state = .unused)
    (zombie : slot'.state = .zombie → slot.state = .zombie) (size : slot'.sz = slot.sz)
    (pagetable : slot'.pagetable = slot.pagetable) (trapframe : slot'.trapframe = slot.trapframe)
    (ofile : slot'.ofile = slot.ofile) : Fine top slot' := by
  cases fine with
  | blank free blank =>
    exact .blank (unused.mpr free)
      ⟨size.trans blank.sz, pagetable.trans blank.pagetable, trapframe.trans blank.trapframe, ofile ▸ blank.ofile⟩
  | backed used closed space =>
    have shaped := space.shaped
    rw [← size, ← trapframe] at shaped
    have space' : Space top slot' _ :=
      ⟨pagetable.trans space.pagetable, shaped, trapframe ▸ space.apart, space.once⟩
    exact .backed (fun free => used (unused.mp free)) (fun ended => ofile ▸ closed (zombie ended)) space'

theorem Turn.orderly (turn : Turn boot.memory.trampoline k k' p) (orderly : Orderly boot pipes k) :
    Orderly boot pipes k' := by
  have same (c : Fork.Slot → Nat) (blind : ∀ slot parent, c { slot with parent } = c slot) :
      ∑ q, c (k'.proc q) + c (k.proc p) = ∑ q, c (k.proc q) + c (k'.proc p) :=
    Shares.change fun q other => by rw [turn.others other, blind]
  have fine (q : ProcId) : Fine boot.memory.trampoline (k'.proc q) := by
    by_cases here : q = p
    · exact here ▸ turn.fine
    · rw [turn.others here]
      exact (orderly.fine q).congr Iff.rfl id rfl rfl rfl rfl
  refine ⟨turn.kernelEnd.trans orderly.kernelEnd, turn.trampoline.trans orderly.trampoline, turn.spare,
    orderly.buffers, fine, fun {x} other => ?_, fun f => ?_⟩
  · have before := orderly.balance other
    have after := turn.balance other
    have sum := same (fun slot => held slot x) fun _ _ => rfl
    omega
  · have before := orderly.refs f
    have after := turn.refs f
    have sum := same (fun slot => opens slot.ofile f) fun _ _ => rfl
    omega

/-- No other process notices. -/
theorem Turn.spared (turn : Turn boot.memory.trampoline k k' p) (booted : Booted boot)
    (orderly : Orderly boot pipes k) (other : q ≠ p) :
    Spared k k' q := by
  refine ⟨turn.others other, fun {x} there => ?_⟩
  by_cases top : x = boot.memory.trampoline
  · exact turn.mem (top ▸ orderly.spare) (.inl top)
  · have apart := orderly.apart top other
    have once := booted.count_le x
    exact turn.mem (orderly.unlisted booted there) (.inr (by omega))

theorem Turn.moved (turn : Turn boot.memory.trampoline k k' p) (booted : Booted boot)
    (orderly : Orderly boot pipes k) :
    Moved boot pipes (· = p) k k' := ⟨turn.orderly orderly, fun other => turn.spared booted orderly other⟩

/-- A page that is mapped at two places. -/
theorem twice {pte pte' : Pte} {q q' : Nat} (apart : q ≠ q') (below : q < 2 ^ 27) (below' : q' < 2 ^ 27)
    (here : pt.leaf q = some pte) (there : pt.leaf q' = some pte') (same : pte.pa = x)
    (same' : pte'.pa = x) : 2 ≤ pt.owned x := by
  have both := @Tally.two pt.frame x q (2 ^ 27) x x q' apart below below'
    (by rw [Pagetable.frame, here, Option.map_some, same])
    (by rw [Pagetable.frame, there, Option.map_some, same'])
  rw [if_pos rfl] at both
  unfold Pagetable.owned
  omega

theorem pages_last : TRAPFRAME / PGSIZE + 1 = TRAMPOLINE / PGSIZE ∧ TRAMPOLINE / PGSIZE < 2 ^ 27 := by
  unfold TRAPFRAME TRAMPOLINE Vm.MAXVA PGSIZE
  omega

theorem Space.top_held (space : Space boot.memory.trampoline (k.proc p) pt) :
    pt.owned boot.memory.trampoline = 1 := by
  have framed := space.shaped.sound.framed space.shaped.top
  have once := space.once
  unfold Pagetable.owned at once ⊢
  dsimp only at framed
  omega

theorem Space.frame_held {top : Nat} {slot : Fork.Slot} (space : Space top slot pt) :
    0 < pt.owned slot.trapframe := by
  have framed := space.shaped.sound.framed space.shaped.frame
  unfold Pagetable.owned
  dsimp only at framed
  omega

theorem Orderly.trapframe (orderly : Orderly boot pipes k) (booted : Booted boot)
    (space : Space boot.memory.trampoline (k.proc p) pt) :
    (k.proc p).trapframe ∉ k.memory.freelist ∧ pt.owned (k.proc p).trapframe = 1 ∧
    0 < boot.memory.freelist.count (k.proc p).trapframe := by
  have shares := orderly.shares space.apart.symm p
  have once := booted.count_le (k.proc p).trapframe
  have some := space.frame_held
  rw [held_of space.pagetable] at shares
  refine ⟨fun listed => ?_, by omega, by omega⟩
  have free := List.count_pos_iff.mpr listed
  omega

/-- The pages below the size of a process, its tables and the free pages are what its calls may use. -/
theorem Orderly.owned (orderly : Orderly boot pipes k) (booted : Booted boot)
    (space : Space boot.memory.trampoline (k.proc p) pt) :
    Owned (Own boot.memory.trampoline k p) k.memory pt (k.proc p).sz boot.memory.trampoline
    (k.proc p).trapframe := by
  have last := pages_last
  obtain ⟨unlisted, frame, -⟩ := orderly.trapframe booted space
  have top := space.top_held
  have one {x : Nat} (some : 0 < pt.owned x) (first : x ≠ boot.memory.trampoline)
    (second : x ≠ (k.proc p).trapframe) :
      Own boot.memory.trampoline k p x := ⟨first, second, by rw [held_of space.pagetable]; omega⟩
  refine ⟨space.shaped, fun pa listed => ⟨?_, ?_, ?_⟩, fun {q pte} early here => one ?_ ?_ ?_,
    fun {pa} some => one ?_ ?_ ?_,
    fun {x} own => ?_, fun {x} own => ?_, ?_⟩
  · rintro rfl
    exact orderly.spare listed
  · rintro rfl
    exact unlisted listed
  · have free := List.count_pos_iff.mpr listed
    omega
  · have framed := space.shaped.sound.framed here
    unfold Pagetable.owned
    omega
  · intro same
    have two := twice (by omega) (by omega) (by omega) here space.shaped.top same rfl
    omega
  · intro same
    have two := twice (by omega) (by omega) (by omega) here space.shaped.frame same rfl
    omega
  · unfold Pagetable.owned
    omega
  · rintro rfl
    have framed := space.shaped.sound.framed space.shaped.top
    unfold Pagetable.owned at top
    dsimp only at framed
    omega
  · rintro rfl
    have framed := space.shaped.sound.framed space.shaped.frame
    unfold Pagetable.owned at frame
    dsimp only at framed
    omega
  · have shares := orderly.shares own.1 p
    have once := booted.count_le x
    rw [held_of space.pagetable] at shares
    unfold total
    omega
  · have shares := orderly.shares own.1 p
    have some := own.2.2
    rw [orderly.kernelEnd]
    exact booted.valid (by omega)
  · rw [orderly.kernelEnd]
    exact booted.kernelEnd

theorem Orderly.space (orderly : Orderly boot pipes k) (used : (k.proc p).state ≠ .unused) :
    ∃ pt, Space boot.memory.trampoline (k.proc p) pt := by
  cases orderly.fine p with
  | blank unused _ => exact absurd unused used
  | backed _ _ space => exact ⟨_, space⟩

/-- The entry is another one. -/
theorem Turn.put {top : Nat} {slot : Fork.Slot} (kernelEnd : k'.memory.kernelEnd = k.memory.kernelEnd)
    (trampoline : k'.memory.trampoline = k.memory.trampoline) (spare : top ∉ k'.memory.freelist)
    (others : ∀ q, q ≠ p → k'.proc q = k.proc q) (self : k'.proc p = slot) (fine : Fine top slot)
    (mem : ∀ x, x ∉ k.memory.freelist → x = top ∨ held (k.proc p) x = 0 → k'.memory.mem x = k.memory.mem x)
    (balance : ∀ x, x ≠ top →
      k'.memory.freelist.count x + held slot x = k.memory.freelist.count x + held (k.proc p) x)
    (refs : ∀ f, k'.fileRef f + opens (k.proc p).ofile f = k.fileRef f + opens slot.ofile f) :
    Turn top k k' p := by
  subst self
  refine ⟨kernelEnd, trampoline, spare, fun {q} other => ?_, fine, mem _, balance _, refs⟩
  rw [others q other]

/-- The address space of the process has another size, or another program is in it. -/
theorem Space.resized (space : Space boot.memory.trampoline (k.proc p) pt) (slot : Fork.Slot)
    (owned : Owned (Own boot.memory.trampoline k p) s' pt' sz boot.memory.trampoline (k.proc p).trapframe)
    (kernelEnd : s'.kernelEnd = k.memory.kernelEnd) (trampoline : s'.trampoline = k.memory.trampoline)
    (balance : ∀ x, total s' pt' x = total k.memory pt x)
    (mem : ∀ x, ¬Own boot.memory.trampoline k p x → x ≠ (k.proc p).trapframe → s'.mem x = k.memory.mem x)
    (pagetable : slot.pagetable = some pt') (size : slot.sz = sz)
    (trapframe : slot.trapframe = (k.proc p).trapframe)
    (used : slot.state ≠ .unused) (closed : slot.state = .zombie → ∀ fd, slot.ofile fd = none)
    (ofile : slot.ofile = (k.proc p).ofile) :
    Turn boot.memory.trampoline k { k with memory := s', proc := update k.proc p slot } p := by
  have out : ¬Own boot.memory.trampoline k p boot.memory.trampoline := fun own => own.1 rfl
  have top := owned.tally_le out
  rw [if_pos rfl, if_neg space.apart.symm] at top
  have space' : Space boot.memory.trampoline slot pt' :=
    ⟨pagetable, size ▸ trapframe ▸ owned.toShaped, trapframe ▸ space.apart, top⟩
  refine .put kernelEnd trampoline (fun listed => out (owned.free _ listed))
    (fun _ other => update_of_ne other ..) (update_self ..) (.backed used closed space')
    (fun x unlisted way => ?_) (fun x _ => ?_) fun f => by rw [ofile]
  · have none : x = boot.memory.trampoline ∨ pt.owned x = 0 := by rwa [held_of space.pagetable] at way
    refine mem x (fun own => ?_) ?_
    · have some := own.2.2
      rw [held_of space.pagetable, List.count_eq_zero.mpr unlisted] at some
      have first := own.1
      omega
    · rintro rfl
      have some := space.frame_held
      have apart := space.apart
      omega
  · have both := balance x
    unfold total at both
    rwa [held_of pagetable, held_of space.pagetable]

/-- Pages of the process have been written, and its entry but for what says where its memory is. -/
theorem Orderly.written (orderly : Orderly boot pipes k)
    (space : Space boot.memory.trampoline (k.proc p) pt) (s' : Memory) (slot : Fork.Slot)
    (fileRef inodeRef : Nat → Int) (kernelEnd : s'.kernelEnd = k.memory.kernelEnd)
    (trampoline : s'.trampoline = k.memory.trampoline) (list : s'.freelist = k.memory.freelist)
    (mem : ∀ x, x ∉ k.memory.freelist → x = boot.memory.trampoline ∨ pt.owned x = 0 →
      s'.mem x = k.memory.mem x)
    (pagetable : slot.pagetable = (k.proc p).pagetable) (size : slot.sz = (k.proc p).sz)
    (trapframe : slot.trapframe = (k.proc p).trapframe)
    (used : slot.state ≠ .unused) (closed : slot.state = .zombie → ∀ fd, slot.ofile fd = none)
    (refs : ∀ f, fileRef f + opens (k.proc p).ofile f = k.fileRef f + opens slot.ofile f) :
    Turn boot.memory.trampoline k { k with
      memory := s', proc := update k.proc p slot, fileRef, inodeRef } p := by
  have table := pagetable.trans space.pagetable
  have space' : Space boot.memory.trampoline slot pt :=
    ⟨table, size ▸ trapframe ▸ space.shaped, trapframe ▸ space.apart, space.once⟩
  have same (x : Nat) : held slot x = held (k.proc p) x := by rw [held_of table, held_of space.pagetable]
  refine .put kernelEnd trampoline (list ▸ orderly.spare) (fun _ other => update_of_ne other ..)
    (update_self ..) (.backed used closed space') (fun x unlisted way => ?_) (fun x _ => ?_) refs
  · rw [held_of space.pagetable] at way
    exact mem x unlisted way
  · dsimp only
    rw [list, same]

end Turns

end Xv6.Pages
