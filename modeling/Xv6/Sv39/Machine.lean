import Xv6.Kalloc.Machine
import Mathlib.Data.Nat.Bitwise

/-! The page tables of kernel/vm.c in memory. -/

namespace Xv6.Sv39
open Function Kalloc
open Vm hiding kfree kalloc

def PTE_V : Nat := 1 <<< 0
def PTE_R : Nat := 1 <<< 1
def PTE_W : Nat := 1 <<< 2
def PTE_X : Nat := 1 <<< 3
def PTE_U : Nat := 1 <<< 4

def PA2PTE (pa : Nat) : Nat := (pa >>> 12) <<< 10 % 2 ^ 64
def PTE2PA (pte : Nat) : Nat := (pte >>> 10) <<< 12 % 2 ^ 64
def PTE_FLAGS (pte : Nat) : Nat := pte &&& 0x3FF

def PXMASK : Nat := 0x1FF
def PXSHIFT (level : Nat) : Nat := 12 + 9 * level
def PX (level va : Nat) : Nat := (va >>> PXSHIFT level) &&& PXMASK

def load (a : Nat) : RamM Nat := fun s => .ok (s.word a, s)

def store (a value : Nat) : RamM Unit := fun s => .ok ((), { s with word := update s.word a value })

/-- `memset` of whole words to 0. -/
def memset (dst n : Nat) : RamM Unit := fun s =>
  .ok ((), { s with word := fun a => if dst ≤ a ∧ a < dst + n then 0 else s.word a })

/-- The loop of `walk` for the levels from the given one down to 1: the address of the entry of
level 0, or 0. -/
def walkLoop (va : Nat) (alloc : Bool) : Nat → Nat → RamM Nat
  | 0, pagetable => pure (pagetable + 8 * PX 0 va)
  | level + 1, pagetable => do
    let pte := pagetable + 8 * PX (level + 1) va
    let entry ← load pte
    if entry &&& PTE_V ≠ 0 then walkLoop va alloc level (PTE2PA entry)
    else if !alloc then pure 0
    else do
      let pagetable ← kalloc
      if pagetable = 0 then pure 0
      else do
        memset pagetable PGSIZE
        store pte (PA2PTE pagetable ||| PTE_V)
        walkLoop va alloc level pagetable

def walk (pagetable va : Nat) (alloc : Bool) : RamM Nat :=
  if MAXVA ≤ va then throw "walk" else walkLoop va alloc 2 pagetable

def walkaddr (pagetable va : Nat) : RamM Nat :=
  if MAXVA ≤ va then pure 0
  else do
    let pte ← walk pagetable va false
    if pte = 0 then pure 0
    else do
      let entry ← load pte
      if entry &&& PTE_V = 0 then pure 0
      else if entry &&& PTE_U = 0 then pure 0
      else pure (PTE2PA entry)

/-- The loop of `mappages`, an error if it goes on after so many rounds. -/
def mapLoop (pagetable last perm : Nat) : Nat → Nat → Nat → RamM Int
  | 0, _, _ => throw "mappages: rounds"
  | n + 1, a, pa => do
    let pte ← walk pagetable a true
    if pte = 0 then pure (-1)
    else do
      let entry ← load pte
      if entry &&& PTE_V ≠ 0 then throw "mappages: remap"
      else do
        store pte (PA2PTE pa ||| perm ||| PTE_V)
        if a = last then pure 0
        else mapLoop pagetable last perm n ((a + PGSIZE) % 2 ^ 64) ((pa + PGSIZE) % 2 ^ 64)

def mappages (pagetable va size pa perm : Nat) : RamM Int :=
  if va % PGSIZE ≠ 0 then throw "mappages: va not aligned"
  else if size % PGSIZE ≠ 0 then throw "mappages: size not aligned"
  else if size = 0 then throw "mappages: size"
  else mapLoop pagetable (sub64 (va + size) PGSIZE) perm (size / PGSIZE) va pa

/-- The loop of `uvmunmap`, an error if it goes on after so many rounds. -/
def unmapLoop (L : Layout) (pagetable last : Nat) (doFree : Bool) : Nat → Nat → RamM Unit
  | 0, a => if a < last then throw "uvmunmap: rounds" else pure ()
  | n + 1, a =>
    if a < last then do
      let pte ← walk pagetable a false
      if pte = 0 then throw "uvmunmap: walk"
      else do
        let entry ← load pte
        if entry &&& PTE_V = 0 then throw "uvmunmap: not mapped"
        else if PTE_FLAGS entry = PTE_V then throw "uvmunmap: not a leaf"
        else do
          if doFree then kfree L (PTE2PA entry)
          store pte 0
          unmapLoop L pagetable last doFree n ((a + PGSIZE) % 2 ^ 64)
    else pure ()

def uvmunmap (L : Layout) (pagetable va npages : Nat) (doFree : Bool) : RamM Unit :=
  if va % PGSIZE ≠ 0 then throw "uvmunmap: not aligned"
  else unmapLoop L pagetable ((va + npages * PGSIZE) % 2 ^ 64) doFree npages va

/-- An entry that points to a table of the level below. -/
structure Points (pte table : Nat) : Prop where
  address : PTE2PA pte = table
  valid : pte &&& PTE_V ≠ 0
  inner : pte &&& (PTE_R ||| PTE_W ||| PTE_X) = 0

/-- An entry of level 0 that maps a page. -/
structure Maps (pte pa flags : Nat) : Prop where
  address : PTE2PA pte = pa
  bits : PTE_FLAGS pte = flags
  valid : flags &&& PTE_V ≠ 0
  usable : flags &&& (PTE_R ||| PTE_W ||| PTE_X) ≠ 0

/-- A table in memory whose entries of level 0, counted by pages of the address space, are those of the map
`M`. The table of a level with the entries from `512 * q` on is at `tab level q`; no page is used for two of
the tables, or is free. -/
structure Table (L : Layout) (s : Ram) (pagetable : Nat) (tab : Nat → Nat → Option Nat) (free : List Nat)
    (M : Nat → Option (Nat × Nat)) : Prop where
  root : tab 2 0 = some pagetable
  top {level q t} : tab level q = some t → level < 2 ∨ level = 2 ∧ q = 0
  parent {level n t} : tab level n = some t → level < 2 → ∃ t', tab (level + 1) (n / 512) = some t'
  link {level n t c} : tab (level + 1) (n / 512) = some t → tab level n = some c →
    Points (s.word (t + 8 * (n % 512))) c
  missing {level n t} : tab (level + 1) (n / 512) = some t → tab level n = none →
    s.word (t + 8 * (n % 512)) &&& PTE_V = 0
  mapped {n t pa flags} : tab 0 (n / 512) = some t → M n = some (pa, flags) →
    Maps (s.word (t + 8 * (n % 512))) pa flags
  unmapped {n t} : tab 0 (n / 512) = some t → M n = none → s.word (t + 8 * (n % 512)) &&& PTE_V = 0
  absent {n} : tab 0 (n / 512) = none → M n = none
  distinct {level q level' q' t} : tab level q = some t → tab level' q' = some t → level = level' ∧ q = q'
  member {level q t} : tab level q = some t → t ∈ pages L ∧ t ∉ free
  through : Chain.Through s.word s.freelist free
  nodup : free.Nodup
  free : ∀ pa ∈ free, pa ∈ pages L

/-- The map with consecutive pages added, from page `n` on. -/
def mapRange (M : Nat → Option (Nat × Nat)) (n k pa flags : Nat) : Nat → Option (Nat × Nat) := fun v =>
  if n ≤ v ∧ v < n + k then some (pa + PGSIZE * (v - n), flags) else M v

/-- The map without the pages from page `n` on. -/
def unmapRange (M : Nat → Option (Nat × Nat)) (n k : Nat) : Nat → Option (Nat × Nat) := fun v =>
  if n ≤ v ∧ v < n + k then none else M v

/-- The frames of the pages from page `n` on. -/
def frames (M : Nat → Option (Nat × Nat)) (n k : Nat) : List Nat :=
  (List.range' n k).filterMap fun v => (M v).map Prod.fst

/-- The frames that go on the list, the last one first. -/
def freed (M : Nat → Option (Nat × Nat)) (n k : Nat) (doFree : Bool) : List Nat :=
  if doFree then (frames M n k).reverse else []

end Xv6.Sv39
