import Xv6.Lib.CString
import Mathlib.Logic.Function.Basic

namespace Xv6.Vm
open Function

def PGSIZE : Nat := 4096
def MAXVA : Nat := 2 ^ 38
def KERNBASE : Nat := 0x80000000
def PHYSTOP : Nat := KERNBASE + 128 * 1024 * 1024
def TRAMPOLINE : Nat := MAXVA - PGSIZE
def TRAPFRAME : Nat := TRAMPOLINE - PGSIZE
def MAXARG : Nat := 32
def USERSTACK : Nat := 1
def ELF_MAGIC : Nat := 0x464C457F
def ELF_PROG_LOAD : Nat := 1

/-- Differences of values of type `uint64`. -/
def sub64 (a b : Nat) : Nat := (a + 2 ^ 64 - b % 2 ^ 64) % 2 ^ 64

def PGROUNDUP (sz : Nat) : Nat := (sz + PGSIZE - 1) % 2 ^ 64 / PGSIZE * PGSIZE

def PGROUNDDOWN (a : Nat) : Nat := a / PGSIZE * PGSIZE

/-- The permission bits of a page-table entry. -/
structure Perm where
  r : Bool
  w : Bool
  x : Bool
  u : Bool
deriving DecidableEq

/-- A valid leaf entry. -/
structure Pte where
  pa : Nat
  perm : Perm

/-- A page table: its root, the pages that the entries of level 2 and level 1 point to, and the valid
entries of level 0 by page number. -/
structure Pagetable where
  root : Nat
  mid : Nat → Option Nat
  low : Nat → Option Nat
  leaf : Nat → Option Pte

/-- Physical memory by pages and the list of free ones; `kernelEnd` and `trampoline` are addresses that the
linker chooses. The bytes that have been written, in `written`, are a record that no step reads. -/
structure Memory where
  kernelEnd : Nat
  trampoline : Nat
  mem : Nat → Bytes
  freelist : List Nat
  written : Nat → Nat → Bool

/-- The part of `struct proc` that is about memory. -/
structure Proc where
  pagetable : Pagetable
  sz : Nat
  trapframe : Nat

/-- An inode that `exec` has locked, which has a block for each of its bytes. -/
structure File where
  size : Nat
  bytes : Bytes

/-- Steps that can stop with a panic. -/
abbrev VmM := StateT Memory (Except String)

namespace Memory

/-- Write `n` bytes to a page. -/
def write (s : Memory) (pa a n : Nat) (src : Bytes) : Memory :=
  { s with
    mem := update s.mem pa ((s.mem pa).splice a n src)
    written := update s.written pa fun x => decide (a ≤ x ∧ x < a + n) || s.written pa x }

end Memory

/-! ### kernel/kalloc.c, with `LAB_SYSCALL` -/

def kfree (pa : Nat) : VmM Unit := fun s =>
  if pa % PGSIZE ≠ 0 ∨ pa < s.kernelEnd ∨ PHYSTOP ≤ pa then .error "kfree"
  else
    -- r->next = kmem.freelist
    .ok ((), { s.write pa 0 8 (Bytes.ofNat (s.freelist.headD 0)) with freelist := pa :: s.freelist })

def kalloc : VmM (Option Nat) := fun s =>
  match s.freelist with
  | [] => .ok (none, s)
  | pa :: rest => .ok (some pa, { s with freelist := rest })

def memset (pa : Nat) : VmM Unit := modify fun s => s.write pa 0 PGSIZE fun _ => 0

/-! ### kernel/vm.c, with `LAB_SYSCALL` -/

/-- A round of the loop of `walk`: the page that an entry points to. -/
def descend (entry : Option Nat) (alloc : Bool) : VmM (Option Nat) :=
  match entry with
  | some page => pure (some page)
  | none =>
    if alloc then do
      match ← kalloc with
      | none => pure none
      | some page => do
        memset page
        pure (some page)
    else pure none

/-- Whether there is an entry of level 0 for the address, and the page table with the pages
that were added. -/
def walk (pt : Pagetable) (va : Nat) (alloc : Bool) : VmM (Bool × Pagetable) :=
  if MAXVA ≤ va then throw "walk"
  else do
    match ← descend (pt.mid (va / 2 ^ 30)) alloc with
    | none => pure (false, pt)
    | some mid => do
      let pt := { pt with mid := update pt.mid (va / 2 ^ 30) (some mid) }
      match ← descend (pt.low (va / 2 ^ 21)) alloc with
      | none => pure (false, pt)
      | some low => pure (true, { pt with low := update pt.low (va / 2 ^ 21) (some low) })

/-- The address that a user page is mapped to, or 0. -/
def walkaddr (pt : Pagetable) (va : Nat) : VmM Nat :=
  if MAXVA ≤ va then pure 0
  else do
    let (found, pt) ← walk pt va false
    match pt.leaf (va / PGSIZE) with
    | some pte => pure (if found && pte.perm.u then pte.pa else 0)
    | none => pure 0

/-- The loop of `mappages`. -/
def mapLoop (perm : Perm) : Nat → Pagetable → Nat → Nat → VmM (Int × Pagetable)
  | 0, pt, _, _ => pure (0, pt)
  | n + 1, pt, a, pa => do
    let (found, pt) ← walk pt a true
    if !found then pure (-1, pt)
    else if (pt.leaf (a / PGSIZE)).isSome then throw "mappages: remap"
    else mapLoop perm n { pt with leaf := update pt.leaf (a / PGSIZE) (some ⟨pa, perm⟩) } (a + PGSIZE) (pa + PGSIZE)

def mappages (pt : Pagetable) (va size pa : Nat) (perm : Perm) : VmM (Int × Pagetable) :=
  if va % PGSIZE ≠ 0 then throw "mappages: va not aligned"
  else if size % PGSIZE ≠ 0 then throw "mappages: size not aligned"
  else if size = 0 then throw "mappages: size"
  else mapLoop perm (size / PGSIZE) pt va pa

/-- The loop of `uvmunmap`. -/
def unmapLoop (doFree : Bool) : Nat → Pagetable → Nat → VmM Pagetable
  | 0, pt, _ => pure pt
  | n + 1, pt, a => do
    let (found, pt) ← walk pt a false
    if !found then throw "uvmunmap: walk"
    else match pt.leaf (a / PGSIZE) with
      | none => throw "uvmunmap: not mapped"
      | some pte =>
        if pte.perm = ⟨false, false, false, false⟩ then throw "uvmunmap: not a leaf"
        else do
          if doFree then kfree pte.pa
          unmapLoop doFree n { pt with leaf := update pt.leaf (a / PGSIZE) none } (a + PGSIZE)

def uvmunmap (pt : Pagetable) (va npages : Nat) (doFree : Bool) : VmM Pagetable :=
  if va % PGSIZE ≠ 0 then throw "uvmunmap: not aligned" else unmapLoop doFree npages pt va

def uvmcreate : VmM (Option Pagetable) := do
  match ← kalloc with
  | none => pure none
  | some root => do
    memset root
    pure (some ⟨root, fun _ => none, fun _ => none, fun _ => none⟩)

def uvmdealloc (pt : Pagetable) (oldsz newsz : Nat) : VmM (Nat × Pagetable) :=
  if oldsz ≤ newsz then pure (oldsz, pt)
  else if PGROUNDUP newsz < PGROUNDUP oldsz then do
    let pt ← uvmunmap pt (PGROUNDUP newsz) ((PGROUNDUP oldsz - PGROUNDUP newsz) / PGSIZE) true
    pure (newsz, pt)
  else pure (newsz, pt)

/-- The loop of `uvmalloc`, for a number of pages from `a` on. The new page is not cleared. -/
def allocLoop (start newsz : Nat) (perm : Perm) : Nat → Pagetable → Nat → VmM (Nat × Pagetable)
  | 0, pt, _ => pure (newsz, pt)
  | n + 1, pt, a => do
    match ← kalloc with
    | none => do
      let (_, pt) ← uvmdealloc pt a start
      pure (0, pt)
    | some mem => do
      let (r, pt) ← mappages pt a PGSIZE mem perm
      if r ≠ 0 then do
        kfree mem
        let (_, pt) ← uvmdealloc pt a start
        pure (0, pt)
      else allocLoop start newsz perm n pt (a + PGSIZE)

/-- `uvmalloc` with the permission bits of `xperm` for write and execute. -/
def uvmalloc (pt : Pagetable) (oldsz newsz : Nat) (w x : Bool) : VmM (Nat × Pagetable) :=
  if newsz < oldsz then pure (oldsz, pt)
  else allocLoop (PGROUNDUP oldsz) newsz ⟨true, w, x, true⟩
    ((newsz - PGROUNDUP oldsz + PGSIZE - 1) / PGSIZE) pt
    (PGROUNDUP oldsz)

/-- `freewalk` of a table of level 0. -/
def freeLow (pt : Pagetable) (i : Nat) : VmM Unit :=
  match pt.low i with
  | none => pure ()
  | some page =>
    if (List.range 512).any fun k => (pt.leaf
      (512 * i + k)).isSome then throw "freewalk: leaf" else kfree page

/-- `freewalk` of a table of level 1. -/
def freeMid (pt : Pagetable) (i : Nat) : VmM Unit :=
  match pt.mid i with
  | none => pure ()
  | some page => do
    (List.range 512).forM fun j => freeLow pt (512 * i + j)
    kfree page

def freewalk (pt : Pagetable) : VmM Unit := do
  (List.range 512).forM (freeMid pt)
  kfree pt.root

def uvmfree (pt : Pagetable) (sz : Nat) : VmM Unit :=
  if 0 < sz then do
    let pt ← uvmunmap pt 0 (PGROUNDUP sz / PGSIZE) true
    freewalk pt
  else freewalk pt

def uvmclear (pt : Pagetable) (va : Nat) : VmM Pagetable := do
  let (found, pt) ← walk pt va false
  if !found then throw "uvmclear"
  else
    let pte := (pt.leaf (va / PGSIZE)).map fun pte => { pte with perm := { pte.perm with u := false } }
    pure { pt with leaf := update pt.leaf (va / PGSIZE) pte }

/-- The loop of `copyout`, which makes no more than `len` rounds. -/
def copyLoop (pt : Pagetable) : Nat → Nat → Bytes → Nat → VmM Int
  | 0, _, _, _ => pure 0
  | fuel + 1, dstva, src, len =>
    if len = 0 then pure 0
    else
      let va0 := PGROUNDDOWN dstva
      if MAXVA ≤ va0 then pure (-1)
      else do
        let (found, pt) ← walk pt va0 false
        if !found then pure (-1)
        else if ((pt.leaf (va0 / PGSIZE)).map fun pte => pte.perm.w) ≠ some true then pure (-1)
        else do
          let pa0 ← walkaddr pt va0
          if pa0 = 0 then pure (-1)
          else do
            let n := min (PGSIZE - (dstva - va0)) len
            modify fun s => s.write pa0 (dstva - va0) n src
            copyLoop pt fuel (va0 + PGSIZE) (src.drop n) (len - n)

def copyout (pt : Pagetable) (dstva : Nat) (src : Bytes) (len : Nat) : VmM Int :=
  copyLoop pt len dstva src len

/-! ### kernel/proc.c -/

/-- The address of the code of trampoline.S. -/
def trampoline : VmM Nat := fun s => .ok (s.trampoline, s)

def procPagetable (p : Proc) : VmM (Option Pagetable) := do
  match ← uvmcreate with
  | none => pure none
  | some pt => do
    let (r, pt) ← mappages pt TRAMPOLINE PGSIZE (← trampoline) ⟨true, false, true, false⟩
    if r < 0 then do
      uvmfree pt 0
      pure none
    else do
      let (r, pt) ← mappages pt TRAPFRAME PGSIZE p.trapframe ⟨true, true, false, false⟩
      if r < 0 then do
        let pt ← uvmunmap pt TRAMPOLINE 1 false
        uvmfree pt 0
        pure none
      else pure (some pt)

def procFreepagetable (pt : Pagetable) (sz : Nat) : VmM Unit := do
  let pt ← uvmunmap pt TRAMPOLINE 1 false
  let pt ← uvmunmap pt TRAPFRAME 1 false
  uvmfree pt sz

def growproc (n : Int) (p : Proc) : VmM (Int × Proc) :=
  if 0 < n then do
    let (sz, pt) ← uvmalloc p.pagetable p.sz ((p.sz + n.toNat) % 2 ^ 64) true false
    if sz = 0 then pure (-1, { p with pagetable := pt }) else pure (0, { p with pagetable := pt, sz })
  else if n < 0 then do
    let (sz, pt) ← uvmdealloc p.pagetable p.sz (((p.sz : Int) + n) % 2 ^ 64).toNat
    pure (0, { p with pagetable := pt, sz })
  else pure (0, p)

/-! ### kernel/exec.c -/

/-- How much `readi` reads. -/
def File.count (ip : File) (off n : Nat) : Nat :=
  if ip.size < off ∨ (off + n) % 2 ^ 32 < off then 0
  else if ip.size < (off + n) % 2 ^ 32 then ip.size - off else n

/-- `readi` to the start of a page. -/
def readi (ip : File) (pa off n : Nat) : VmM Nat := do
  modify fun s => s.write pa 0 (ip.count off n) (ip.bytes.drop off)
  pure (ip.count off n)

/-- The loop of `loadseg`, for the number of pages that `sz - i` bytes take. -/
def loadLoop (pt : Pagetable) (va : Nat) (ip : File) (offset sz : Nat) : Nat → Nat → VmM Int
  | 0, _ => pure 0
  | n + 1, i => do
    let pa ← walkaddr pt (va + i)
    if pa = 0 then throw "loadseg: address should exist"
    else do
      let m := min (sz - i) PGSIZE
      let r ← readi ip pa ((offset + i) % 2 ^ 32) m
      if r ≠ m then pure (-1) else loadLoop pt va ip offset sz n (i + PGSIZE)

def loadseg (pt : Pagetable) (va : Nat) (ip : File) (offset sz : Nat) : VmM Int :=
  loadLoop pt va ip offset sz ((sz + PGSIZE - 1) / PGSIZE) 0

def elfhdrSize : Nat := 64
def proghdrSize : Nat := 56

/-- The loop of `exec` over the program headers: the size, or none if the program is bad. -/
def loadSegments (ip : File) : Nat → Nat → Pagetable → Nat → VmM (Bool × Pagetable × Nat)
  | 0, _, pt, sz => pure (true, pt, sz)
  | n + 1, off, pt, sz =>
    if ip.count off proghdrSize ≠ proghdrSize then pure (false, pt, sz)
    else
      let ph := ip.bytes.drop off
      let vaddr := ph.le 16 8
      let filesz := ph.le 32 8
      let memsz := ph.le 40 8
      let next := (off + proghdrSize) % 2 ^ 32
      if ph.le 0 4 ≠ ELF_PROG_LOAD then loadSegments ip n next pt sz
      else if memsz < filesz then pure (false, pt, sz)
      else if (vaddr + memsz) % 2 ^ 64 < vaddr then pure (false, pt, sz)
      else if vaddr % PGSIZE ≠ 0 then pure (false, pt, sz)
      else do
        let flags := ph.le 4 4
        let (sz1, pt) ← uvmalloc pt sz ((vaddr + memsz) % 2 ^ 64) (flags.testBit 1) (flags.testBit 0)
        if sz1 = 0 then pure (false, pt, sz)
        else do
          let r ← loadseg pt vaddr ip (ph.le 8 8 % 2 ^ 32) (filesz % 2 ^ 32)
          if r < 0 then pure (false, pt, sz1) else loadSegments ip n next pt sz1

/-- The bytes of a string with its NUL, and of an array of addresses that ends with 0. -/
def stringBytes (l : List UInt8) : Bytes := fun x => l.getD x 0
def wordBytes (l : List Nat) : Bytes := fun x => Bytes.ofNat (l.getD (x / 8) 0) (x % 8)

/-- The loop of `exec` that pushes the argument strings, and the push of their addresses, the last one first
in `ustack`: the stack pointer, or none if they do not fit. -/
def pushArgs (pt : Pagetable) (stackbase : Nat) : List (List UInt8) → Nat → List Nat → VmM (Option Nat)
  | [], sp, ustack => do
    let size := (ustack.length + 1) * 8
    let sp := sub64 sp size / 16 * 16
    if sp < stackbase then pure none
    else do
      let r ← copyout pt sp (wordBytes ustack.reverse) size
      pure (if r < 0 then none else some sp)
  | arg :: rest, sp, ustack =>
    if MAXARG ≤ ustack.length then pure none
    else do
      let sp := sub64 sp (arg.length + 1) / 16 * 16
      if sp < stackbase then pure none
      else do
        let r ← copyout pt sp (stringBytes arg) (arg.length + 1)
        if r < 0 then pure none else pushArgs pt stackbase rest sp (sp :: ustack)

/-- The end of `exec` when the program is bad. -/
def execBad (p : Proc) (pt : Pagetable) (sz : Nat) : VmM (Int × Proc) := do
  procFreepagetable pt sz
  pure (-1, p)

/-- `exec` of the inode that `namei` finds. -/
def exec (ip : Option File) (argv : List (List UInt8)) (p : Proc) : VmM (Int × Proc) :=
  match ip with
  | none => pure (-1, p)
  | some ip =>
    if ip.count 0 elfhdrSize ≠ elfhdrSize then pure (-1, p)
    else if ip.bytes.le 0 4 ≠ ELF_MAGIC then pure (-1, p)
    else do
      match ← procPagetable p with
      | none => pure (-1, p)
      | some pt => do
        let (ok, pt, sz) ← loadSegments ip (ip.bytes.le 56 2) (ip.bytes.le 32 8 % 2 ^ 32) pt 0
        if !ok then execBad p pt sz
        else do
          let sz := PGROUNDUP sz
          let (sz1, pt) ← uvmalloc pt sz ((sz + (USERSTACK + 1) * PGSIZE) % 2 ^ 64) true false
          if sz1 = 0 then execBad p pt sz
          else do
            let pt ← uvmclear pt (sub64 sz1 ((USERSTACK + 1) * PGSIZE))
            match ← pushArgs pt (sub64 sz1 (USERSTACK * PGSIZE)) argv sz1 [] with
            | none => execBad p pt sz1
            | some _ => do
              procFreepagetable p.pagetable p.sz
              pure (argv.length, { p with pagetable := pt, sz := sz1 })

/-- The calls that give a process memory. -/
inductive Call where
  | growproc (n : Int)
  | exec (ip : Option File) (argv : List (List UInt8))

def Call.run : Call → Proc → VmM (Int × Proc)
  | .growproc n, p => Vm.growproc n p
  | .exec ip argv, p => Vm.exec ip argv p

end Xv6.Vm
