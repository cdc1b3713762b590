import Xv6.Lib.Path
import Xv6.Vm.Machine

/-! user/umalloc.c -/

namespace Xv6.Umalloc
open Function
open Vm (KERNBASE PHYSTOP)

/-- `sizeof(Header)` -/
def headerSize : Nat := 16

structure Header where
  ptr : Nat
  size : Nat

/-- A program in memory: the address of `base`, and above it that of the first byte after the program, which
`exec` has rounded to a page. -/
structure Program where
  base : Nat
  top : Nat
  positive : 0 < base
  below : base + headerSize ≤ top
  aligned : top % headerSize = 0

/-- The memory as headers, by their addresses, with `freep`, the size of the process and how often it has
called `sbrk`. -/
structure Heap where
  mem : Nat → Header
  freep : Nat
  brk : Nat
  sbrks : Nat

/-- `p + n` for a pointer to a header. -/
def plus (p n : Nat) : Nat := p + headerSize * n

/-- The units for so many bytes, with the header. -/
def unitsFor (nbytes : Nat) : Nat := ((nbytes + headerSize - 1) / headerSize + 1) % 2 ^ 32

/-- A 64-bit count as the argument of type `int`. -/
def toInt (n : Nat) : Int := if n % 2 ^ 32 < 2 ^ 31 then (n % 2 ^ 32 : Nat) else (n % 2 ^ 32 : Nat) - 2 ^ 32

namespace Heap

/-- `p->s.ptr` -/
def ptr (s : Heap) (p : Nat) : Nat := (s.mem p).ptr

def setPtr (s : Heap) (p ptr : Nat) : Heap := { s with mem := update s.mem p { s.mem p with ptr } }

/-- An assignment to a field of type `uint`. -/
def setSize (s : Heap) (p size : Nat) : Heap :=
  { s with mem := update s.mem p { s.mem p with size := size % 2 ^ 32 } }

@[simp] theorem setPtr_ptr (s : Heap) (p v : Nat) : (s.setPtr p v).ptr = update s.ptr p v := by
  funext x
  unfold ptr setPtr
  by_cases same : x = p
  · subst same
    simp
  · simp [same]

@[simp] theorem setSize_ptr (s : Heap) (p n : Nat) : (s.setSize p n).ptr = s.ptr := by
  funext x
  unfold ptr setSize
  by_cases same : x = p
  · subst same
    simp
  · simp [same]

@[simp] theorem setPtr_size (s : Heap) (p v x : Nat) : ((s.setPtr p v).mem x).size = (s.mem x).size := by
  unfold setPtr
  by_cases same : x = p
  · subst same
    simp
  · simp [same]

theorem setSize_size (s : Heap) (p n x : Nat) :
    ((s.setSize p n).mem x).size = if x = p then n % 2 ^ 32 else (s.mem x).size := by
  unfold setSize
  by_cases same : x = p
  · subst same
    simp
  · simp [same]

/-- More headers than fit between the program and the end of the memory. -/
def rounds (g : Program) (s : Heap) : Nat := (s.brk - g.top) / headerSize + 2

/-- Where the loop of `free` ends. -/
def between (s : Heap) (bp p : Nat) : Bool := p < bp ∧ bp < s.ptr p ∨ s.ptr p ≤ p ∧ (p < bp ∨ bp < s.ptr p)

/-- The loop of `free`, without an answer if it does not end in so many rounds. -/
def findPlace (s : Heap) (bp fuel : Nat) : Option Nat := walk s.ptr (s.between bp) fuel s.freep

/-- The first conditional after the loop. -/
def joinUpper (s : Heap) (bp p : Nat) : Heap :=
  if plus bp (s.mem bp).size = s.ptr p then
    let s := s.setSize bp ((s.mem bp).size + (s.mem (s.ptr p)).size)
    s.setPtr bp (s.ptr (s.ptr p))
  else s.setPtr bp (s.ptr p)

/-- The second conditional. -/
def joinLower (s : Heap) (bp p : Nat) : Heap :=
  if plus p (s.mem p).size = bp then
    let s := s.setSize p ((s.mem p).size + (s.mem bp).size)
    s.setPtr p (s.ptr bp)
  else s.setPtr p bp

def free (g : Program) (s : Heap) (ap : Nat) : Option Heap := do
  let bp := ap - headerSize
  let p ← s.findPlace bp (s.rounds g)
  return { (s.joinUpper bp p).joinLower bp p with freep := p }

/-- `sbrk`, where the kernel may refuse more memory, and does so if there is not so much in the machine. -/
def sbrk (g : Program) (grants : Nat → Bool) (s : Heap) (n : Int) : Option Nat × Heap :=
  if 0 < n then
    if grants s.sbrks ∧ s.brk + n ≤ g.top + (PHYSTOP - KERNBASE) then
      (some s.brk, { s with brk := (s.brk + n).toNat, sbrks := s.sbrks + 1 })
    else (none, { s with sbrks := s.sbrks + 1 })
  else (some s.brk, { s with brk := if 0 ≤ s.brk + n then (s.brk + n).toNat else s.brk, sbrks := s.sbrks + 1 })

/-- Gives 0 if there is no more memory. -/
def morecore (g : Program) (grants : Nat → Bool) (s : Heap) (nu : Nat) : Option (Nat × Heap) :=
  let nu := if nu < 4096 then 4096 else nu
  match s.sbrk g grants (toInt (nu * headerSize)) with
  | (none, s) => some (0, s)
  | (some hp, s) => do
    let s := s.setSize hp nu
    let s ← s.free g (plus hp 1)
    return (s.freep, s)

/-- What `malloc` does with a block at `p` that is large enough. -/
def take (s : Heap) (prevp p nunits : Nat) : Nat × Heap :=
  if (s.mem p).size = nunits then (plus p 1, { s.setPtr prevp (s.ptr p) with freep := prevp })
  else
    let s := s.setSize p ((s.mem p).size - nunits)
    let q := plus p (s.mem p).size
    let s := s.setSize q nunits
    (plus q 1, { s with freep := prevp })

/-- The loop of `malloc`, without an answer if it does not end in so many rounds. -/
def mallocLoop (g : Program) (grants : Nat → Bool) (nunits : Nat) : Nat → Nat → Heap → Option (Nat × Heap)
  | 0, _, _ => none
  | fuel + 1, prevp, s =>
    let p := s.ptr prevp
    if nunits ≤ (s.mem p).size then some (s.take prevp p nunits)
    else if p = s.freep then do
      let (p, s) ← s.morecore g grants nunits
      if p = 0 then return (0, s)
      mallocLoop g grants nunits fuel p s
    else mallocLoop g grants nunits fuel p s

/-- The lines of `malloc` before its loop. -/
def start (g : Program) (s : Heap) : Heap :=
  if s.freep = 0 then { s.setPtr g.base g.base with freep := g.base }.setSize g.base 0 else s

def malloc (g : Program) (grants : Nat → Bool) (s : Heap) (nbytes : Nat) : Option (Nat × Heap) :=
  let s := s.start g
  mallocLoop g grants (unitsFor nbytes) (2 * s.rounds g) s.freep s

end Heap

end Xv6.Umalloc
