import Xv6.Lib.Linked
import Xv6.Vm.Machine

/-! kernel/kalloc.c with its list in the free pages themselves. -/

namespace Xv6.Kalloc
open Function Vm

/-- Memory by its aligned words of 64 bits, and `kmem.freelist`. -/
structure Ram where
  word : Nat → Nat
  freelist : Nat

/-- `end`; kernel.ld puts the kernel at KERNBASE, in the memory that it uses. -/
structure Layout where
  kernelEnd : Nat
  above : KERNBASE ≤ kernelEnd
  below : kernelEnd ≤ PHYSTOP

abbrev RamM := StateT Ram (Except String)

def kfree (L : Layout) (pa : Nat) : RamM Unit := fun s =>
  if pa % PGSIZE ≠ 0 ∨ pa < L.kernelEnd ∨ PHYSTOP ≤ pa then .error "kfree"
  else
    -- r->next = kmem.freelist
    .ok ((), ⟨update s.word pa s.freelist, pa⟩)

def kalloc : RamM Nat := fun s =>
  if s.freelist = 0 then .ok (0, s) else .ok (s.freelist, { s with freelist := s.word s.freelist })

/-- The loop of `freerange`, which makes no more rounds than are given. -/
def freerangeLoop (L : Layout) (paEnd : Nat) : Nat → Nat → RamM Unit
  | 0, _ => pure ()
  | n + 1, p =>
    if p + PGSIZE ≤ paEnd then do
      kfree L p
      freerangeLoop L paEnd n (p + PGSIZE)
    else pure ()

def freerange (L : Layout) (paStart paEnd : Nat) : RamM Unit :=
  freerangeLoop L paEnd paEnd (PGROUNDUP paStart)

/-- Values of type `int`; none if it overflows. -/
def int (v : Int) : Option Int := if -2 ^ 31 ≤ v ∧ v < 2 ^ 31 then some v else none

/-- The loop of `nfree`, none if it goes on after so many rounds. -/
def nfreeLoop (s : Ram) : Nat → Nat → Int → Option Int
  | 0, _, _ => none
  | n + 1, r, byteCount => if r = 0 then some byteCount else do nfreeLoop s n (s.word r) (← int (byteCount + 1))

/-- `nfree`, for the number of rounds of its loop. -/
def nfree (s : Ram) (rounds : Nat) : Option Nat := do
  let byteCount ← nfreeLoop s rounds s.freelist 0
  return ((← int (byteCount * PGSIZE)) % 2 ^ 64).toNat

/-- The allocator with the pages that somebody holds. -/
structure Held where
  ram : Ram
  pages : List Nat

/-- A page is taken, or given back by who holds it, or written to. -/
inductive Step (L : Layout) : Held → Held → Prop
  | empty {s ram} (run : kalloc s.ram = .ok (0, ram)) : Step L s { s with ram }
  | alloc {s pa ram} (run : kalloc s.ram = .ok (pa, ram)) (some : pa ≠ 0) : Step L s ⟨ram, pa :: s.pages⟩
  | free {s pa ram} (held : pa ∈ s.pages) (run : kfree L pa s.ram = .ok ((), ram)) :
      Step L s ⟨ram, s.pages.erase pa⟩
  | write {s pa} (held : pa ∈ s.pages) (i value : Nat) (inside : i < PGSIZE / 8) :
      Step L s { s with ram := { s.ram with word := update s.ram.word (pa + 8 * i) value } }

/-- The whole pages between the kernel and the end of memory. -/
def pages (L : Layout) : List Nat :=
  List.range' (PGROUNDUP L.kernelEnd) ((PHYSTOP - PGROUNDUP L.kernelEnd) / PGSIZE) PGSIZE

end Xv6.Kalloc
