import Xv6.Log.Machine
import Xv6.Lib.Linked
import Mathlib.Data.List.FinRange
import Mathlib.Data.List.Perm.Basic
import Mathlib.Tactic.ByContra

namespace Xv6

/-- The fields of `struct buf` that `bcache.lock` protects. -/
structure CacheBuf where
  valid : Bool
  dev : Nat
  blockno : Nat
  refcnt : UInt32

/-- The buffer cache with its links as kernel/bio.c has them, the head being `none`. The last two
fields are a record which no step reads: the time of the last `brelse` that left each buffer
without references, 0 if there was none, and the time now. -/
structure Cache extends Links BufId where
  buf : BufId → CacheBuf
  released : BufId → Nat
  clock : Nat

namespace Cache

def setBuf (s : Cache) (b : BufId) (new : CacheBuf) : Cache := { s with buf := Function.update s.buf b new }

def setLinks (s : Cache) (k : Links BufId) : Cache := { s with toLinks := k }

/-- Memory as the kernel finds it. -/
def zero : Cache := ⟨⟨fun _ => none, fun _ => none⟩, fun _ => ⟨false, 0, 0, 0⟩, fun _ => 0, 1⟩

def binit (s : Cache) : Cache :=
  let empty : Links BufId := ⟨Function.update s.next none none, Function.update s.prev none none⟩
  s.setLinks ((List.finRange NBUF).foldl Links.linkFirst empty)

def addRef (s : Cache) (b : BufId) : Cache :=
  s.setBuf b { s.buf b with refcnt := (s.buf b).refcnt + 1 }

def dropRef (s : Cache) (b : BufId) : Cache :=
  s.setBuf b { s.buf b with refcnt := (s.buf b).refcnt - 1 }

def caches (s : Cache) (dev blockno : Nat) (b : BufId) : Bool :=
  (s.buf b).dev == dev && (s.buf b).blockno == blockno

/-- `bget` up to the release of `bcache.lock`. -/
def bget (s : Cache) (dev blockno : Nat) : Except String (BufId × Cache) :=
  match Links.scan s.next (s.caches dev blockno) (NBUF + 1) (s.next none) with
  | some b => .ok (b, s.addRef b)
  | none => match Links.scan s.prev (fun b => (s.buf b).refcnt == 0) (NBUF + 1) (s.prev none) with
    | some b => .ok (b, s.setBuf b { dev, blockno, valid := false, refcnt := 1 })
    | none => .error "bget: no buffers"

/-- `brelse` after `releasesleep`. -/
def brelse (s : Cache) (b : BufId) : Cache :=
  let s := s.dropRef b
  if (s.buf b).refcnt = 0 then
    { s.setLinks ((s.unlink b).linkFirst b) with
      released := Function.update s.released b s.clock, clock := s.clock + 1 }
  else s

def bpin (s : Cache) (b : BufId) : Cache := s.addRef b

def bunpin (s : Cache) (b : BufId) : Cache := s.dropRef b

end Cache

/-- One critical section under `bcache.lock`. -/
inductive CacheOp where
  | bget (dev blockno : Nat)
  | brelse (b : BufId)
  | bpin (b : BufId)
  | bunpin (b : BufId)

def Cache.step (s : Cache) : CacheOp → Except String Cache
  | .bget dev blockno => (s.bget dev blockno).map Prod.snd
  | .brelse b => .ok (s.brelse b)
  | .bpin b => .ok (s.bpin b)
  | .bunpin b => .ok (s.bunpin b)

/-- The states that any processes reach after `binit`. -/
inductive LruReach : Cache → Prop
  | binit : LruReach Cache.zero.binit
  | step {s op s'} : LruReach s → s.step op = .ok s' → LruReach s'

/-- The invariant, for buffers in ring order: recently released first, never released last. -/
structure CacheInv (s : Cache) (order : List BufId) : Prop where
  ring : s.Through order
  full : ∀ b, b ∈ order
  sorted : order.Pairwise fun a b => s.released b < s.released a ∨ s.released b = 0
  past : ∀ b, s.released b < s.clock
  unique : ∀ a b, (s.buf a).dev ≠ 0 → (s.buf a).dev = (s.buf b).dev →
    (s.buf a).blockno = (s.buf b).blockno → a = b

namespace CacheInv

variable {s : Cache} {order : List BufId} {b : BufId} {dev blockno : Nat}

theorem length (inv : CacheInv s order) : order.length ≤ NBUF := by
  have := inv.ring.nodup.length_le_card
  simpa using this

/-- The first loop of `bget` finds the buffer of a block. -/
theorem scan_next (inv : CacheInv s order) :
    Links.scan s.next (s.caches dev blockno) (NBUF + 1) (s.next none) = order.find? (s.caches dev blockno) :=
  inv.ring.scan_next (Nat.lt_succ_of_le inv.length)

/-- The second loop of `bget` goes through the ring backwards. -/
theorem scan_prev (inv : CacheInv s order) :
    Links.scan s.prev (fun b => (s.buf b).refcnt == 0) (NBUF + 1) (s.prev none) =
      order.reverse.find? fun b => (s.buf b).refcnt == 0 :=
  inv.ring.scan_prev (Nat.lt_succ_of_le inv.length)

/-- A change of one buffer that keeps its block. -/
theorem setBuf (inv : CacheInv s order) {new : CacheBuf} (dev : new.dev = (s.buf b).dev)
    (blockno : new.blockno = (s.buf b).blockno) : CacheInv (s.setBuf b new) order := by
  have devs : ∀ x, ((s.setBuf b new).buf x).dev = (s.buf x).dev := fun x => by
    by_cases atX : x = b <;> simp [Cache.setBuf, atX, dev]
  have blocks : ∀ x, ((s.setBuf b new).buf x).blockno = (s.buf x).blockno := fun x => by
    by_cases atX : x = b <;> simp [Cache.setBuf, atX, blockno]
  refine ⟨inv.ring, inv.full, inv.sorted, inv.past, fun x y => ?_⟩
  rw [devs, devs, blocks, blocks]
  exact inv.unique x y

/-- A block that is not cached yet replaces another. -/
theorem recycle (inv : CacheInv s order) (absent : ∀ x, s.caches dev blockno x = false) {valid : Bool}
    {refcnt : UInt32} : CacheInv (s.setBuf b ⟨valid, dev, blockno, refcnt⟩) order := by
  have other : ∀ x, (s.buf x).dev = dev → (s.buf x).blockno ≠ blockno := fun x sameDev sameBlock => by
    have := absent x
    simp [Cache.caches, sameDev, sameBlock] at this
  refine ⟨inv.ring, inv.full, inv.sorted, inv.past, fun x y used sameDev sameBlock => ?_⟩
  by_cases atX : x = b <;> by_cases atY : y = b
  · rw [atX, atY]
  · simp only [Cache.setBuf, atX, Function.update_self, Function.update_of_ne atY] at sameDev sameBlock
    exact absurd sameBlock.symm (other y sameDev.symm)
  · simp only [Cache.setBuf, atY, Function.update_self, Function.update_of_ne atX] at sameDev sameBlock
    exact absurd sameBlock (other x sameDev)
  · simp only [Cache.setBuf, Function.update_of_ne atX, Function.update_of_ne atY] at used sameDev sameBlock
    exact inv.unique x y used sameDev sameBlock

/-- A buffer that has just lost its last reference goes to the front. -/
theorem release (inv : CacheInv s order) :
    CacheInv { s.setLinks ((s.unlink b).linkFirst b) with
      released := Function.update s.released b s.clock, clock := s.clock + 1 } (b :: order.erase b) := by
  have gone : b ∉ order.erase b := inv.ring.nodup.not_mem_erase
  have times : ∀ x ∈ order.erase b, Function.update s.released b s.clock x = s.released x := fun x member =>
    Function.update_of_ne (by rintro rfl; exact gone member) _ _
  refine ⟨inv.ring.moveFirst (inv.full b), fun x => ?_, ?_, fun x => ?_, inv.unique⟩
  · by_cases atX : x = b
    · simp [atX]
    · exact List.mem_cons_of_mem _ ((List.mem_erase_of_ne atX).mpr (inv.full x))
  · refine List.pairwise_cons.mpr ⟨fun x member => Or.inl ?_, ?_⟩
    · show Function.update s.released b s.clock x < Function.update s.released b s.clock b
      rw [times x member, Function.update_self]
      exact inv.past x
    · refine List.Pairwise.imp_of_mem (fun {x y} inX inY older => ?_) (inv.sorted.sublist List.erase_sublist)
      show Function.update s.released b s.clock y < Function.update s.released b s.clock x ∨
        Function.update s.released b s.clock y = 0
      rw [times x inX, times y inY]
      exact older
  · show Function.update s.released b s.clock x < s.clock + 1
    by_cases atX : x = b
    · rw [atX, Function.update_self]
      exact Nat.lt_succ_self _
    · rw [Function.update_of_ne atX]
      exact Nat.lt_succ_of_lt (inv.past x)

/-- What the choice of a buffer for a block that is not cached looks like. -/
theorem victim (inv : CacheInv s order)
    (found : order.reverse.find? (fun b => (s.buf b).refcnt == 0) = some b) :
    (s.buf b).refcnt = 0 ∧ ∀ c, c ≠ b → (s.buf c).refcnt = 0 → s.released b < s.released c ∨
    s.released b = 0 := by
  obtain ⟨idle, before, after, split, none⟩ := List.find?_eq_some_iff_append.mp found
  refine ⟨by simpa using idle, fun c apart free => ?_⟩
  have order_eq : order = after.reverse ++ b :: before.reverse := by
    have := congrArg List.reverse split
    simpa using this
  have member := inv.full c
  rw [order_eq] at member
  simp only [List.mem_append, List.mem_reverse, List.mem_cons] at member
  rcases member with early | same | late
  · have sorted := inv.sorted
    rw [order_eq, List.pairwise_append] at sorted
    exact sorted.2.2 c (by simpa using early) b (by simp)
  · exact absurd same apart
  · have := none c late
    simp [free] at this

/-- A block that is cached: its buffer gets another reference. -/
theorem hit (inv : CacheInv s order) {s' : Cache} (run : s.bget dev blockno = .ok (b, s'))
    (cached : ∃ x, s.caches dev blockno x = true) : s.caches dev blockno b = true ∧ s' = s.addRef b := by
  unfold Cache.bget at run
  rw [inv.scan_next] at run
  split at run
  · next x found =>
    cases run
    exact ⟨List.find?_some found, rfl⟩
  · next missing =>
    obtain ⟨x, has⟩ := cached
    exact absurd has (List.find?_eq_none.mp missing x (inv.full x))

/-- A block that is not cached: it takes the place of the block of the buffer chosen. -/
theorem miss (inv : CacheInv s order) {s' : Cache} (run : s.bget dev blockno = .ok (b, s'))
    (absent : ∀ x, s.caches dev blockno x = false) : s' = s.setBuf b ⟨false, dev, blockno, 1⟩ ∧
      (s.buf b).refcnt = 0 ∧ ∀ c, c ≠ b → (s.buf c).refcnt = 0 → s.released b < s.released c ∨
      s.released b = 0 := by
  unfold Cache.bget at run
  rw [inv.scan_next, inv.scan_prev] at run
  split at run
  · next x found =>
    have has := List.find?_some found
    rw [absent x] at has
    cases has
  · split at run
    · next x found =>
      cases run
      exact ⟨rfl, inv.victim found⟩
    · cases run

/-- Without a buffer `bget` stops: the block is not cached, and every buffer has references. -/
theorem dry (inv : CacheInv s order) {message : String}
    (run : s.bget dev blockno = .error message) (x : BufId) :
    s.caches dev blockno x = false ∧ (s.buf x).refcnt ≠ 0 := by
  unfold Cache.bget at run
  rw [inv.scan_next, inv.scan_prev] at run
  split at run
  · cases run
  · next missing =>
    split at run
    · cases run
    · next none =>
      refine ⟨by simpa using List.find?_eq_none.mp missing x (inv.full x), ?_⟩
      simpa using List.find?_eq_none.mp none x (List.mem_reverse.mpr (inv.full x))

theorem bget (inv : CacheInv s order) {s' : Cache} (run : s.bget dev blockno = .ok (b, s')) :
    CacheInv s' order ∧ (∀ x, (s.buf x).refcnt ≠ 0 →
      (s'.buf x).dev = (s.buf x).dev ∧ (s'.buf x).blockno = (s.buf x).blockno) := by
  by_cases cached : ∃ x, s.caches dev blockno x = true
  · obtain ⟨-, rfl⟩ := inv.hit run cached
    refine ⟨inv.setBuf rfl rfl, fun y _ => ?_⟩
    by_cases atY : y = b <;> simp [Cache.addRef, Cache.setBuf, atY]
  · have absent : ∀ x, s.caches dev blockno x = false := by simpa using cached
    obtain ⟨rfl, idle, -⟩ := inv.miss run absent
    refine ⟨inv.recycle absent, fun y used => ?_⟩
    have atY : y ≠ b := fun same => used (same ▸ idle)
    simp [Cache.setBuf, atY]

/-- Every step keeps the invariant and the blocks of the buffers in use. -/
theorem step (inv : CacheInv s order) {op : CacheOp} {s' : Cache} (run : s.step op = .ok s') :
    (∃ order', CacheInv s' order') ∧ (∀ x, (s.buf x).refcnt ≠ 0 →
      (s'.buf x).dev = (s.buf x).dev ∧ (s'.buf x).blockno = (s.buf x).blockno) := by
  cases op with
  | bget dev blockno =>
    change (s.bget dev blockno).map Prod.snd = .ok s' at run
    cases found : s.bget dev blockno with
    | error message => simp [found, Except.map] at run
    | ok result =>
      obtain ⟨b, after⟩ := result
      rw [found] at run
      cases run
      exact (inv.bget found).imp_left fun inv' => ⟨order, inv'⟩
  | brelse b =>
    cases run
    have dropped : CacheInv (s.dropRef b) order := inv.setBuf rfl rfl
    unfold Cache.brelse
    dsimp only
    split
    · refine ⟨⟨_, dropped.release⟩, fun x _ => ?_⟩
      by_cases atX : x = b <;> simp [Cache.setLinks, Cache.dropRef, Cache.setBuf, atX]
    · refine ⟨⟨_, dropped⟩, fun x _ => ?_⟩
      by_cases atX : x = b <;> simp [Cache.dropRef, Cache.setBuf, atX]
  | bpin b =>
    cases run
    refine ⟨⟨order, inv.setBuf rfl rfl⟩, fun x _ => ?_⟩
    by_cases atX : x = b <;> simp [Cache.bpin, Cache.addRef, Cache.setBuf, atX]
  | bunpin b =>
    cases run
    refine ⟨⟨order, inv.setBuf rfl rfl⟩, fun x _ => ?_⟩
    by_cases atX : x = b <;> simp [Cache.bunpin, Cache.dropRef, Cache.setBuf, atX]

theorem linkAll {k : Links BufId} {old new : List BufId} (ring : k.Through old) (nodup : new.Nodup)
    (fresh : ∀ b ∈ new, b ∉ old) : (new.foldl Links.linkFirst k).Through (new.reverse ++ old) := by
  induction new generalizing k old with
  | nil => exact ring
  | cons b new ih =>
    rw [List.nodup_cons] at nodup
    have next := ih (ring.linkFirst (fresh b (by simp))) nodup.2 fun x member => ?_
    · simpa using next
    · rw [List.mem_cons, not_or]
      exact ⟨fun same => nodup.1 (same ▸ member), fresh x (by simp [member])⟩

theorem binit : CacheInv Cache.zero.binit (List.finRange NBUF).reverse := by
  have empty : Links.Through (α := BufId)
      ⟨Function.update Cache.zero.next none none, Function.update Cache.zero.prev none none⟩ [] :=
    ⟨rfl, rfl, List.nodup_nil⟩
  have ring := linkAll empty (List.nodup_finRange NBUF) (by simp)
  rw [List.append_nil] at ring
  refine ⟨ring, fun b => by simp, List.pairwise_of_forall fun _ _ => Or.inr rfl, fun _ => Nat.one_pos,
    fun a b used _ _ => absurd rfl used⟩

end CacheInv

theorem LruReach.inv {s : Cache} (reach : LruReach s) : ∃ order, CacheInv s order := by
  induction reach with
  | binit => exact ⟨_, CacheInv.binit⟩
  | step _ run ih =>
    obtain ⟨order, inv⟩ := ih
    exact (inv.step run).1

/-- What the buffer cache promises at any time. -/
structure Cache.Ok (s : Cache) : Prop where
  ring : ∃ order, s.Through order ∧ order.Perm (List.finRange NBUF)
  inverse : ∀ x, s.prev (s.next x) = x ∧ s.next (s.prev x) = x
  unique : ∀ a b, (s.buf a).dev ≠ 0 → (s.buf a).dev = (s.buf b).dev →
    (s.buf a).blockno = (s.buf b).blockno → a = b
  kept : ∀ op s', s.step op = .ok s' → ∀ b, (s.buf b).refcnt ≠ 0 →
    (s'.buf b).dev = (s.buf b).dev ∧ (s'.buf b).blockno = (s.buf b).blockno
  hit : ∀ dev blockno b s', s.bget dev blockno = .ok (b, s') → (∃ x, s.caches dev blockno x = true) →
    s.caches dev blockno b = true ∧ s' = s.addRef b
  miss : ∀ dev blockno b s', s.bget dev blockno = .ok (b, s') → (∀ x, s.caches dev blockno x = false) →
    s' = s.setBuf b ⟨false, dev, blockno, 1⟩ ∧
      (s.buf b).refcnt = 0 ∧ ∀ c, c ≠ b → (s.buf c).refcnt = 0 →
      s.released b < s.released c ∨ s.released b = 0
  dry : ∀ dev blockno message, s.bget dev blockno = .error message →
    ∀ x, s.caches dev blockno x = false ∧ (s.buf x).refcnt ≠ 0

theorem LruReach.ok {s : Cache} (reach : LruReach s) : s.Ok := by
  obtain ⟨order, inv⟩ := reach.inv
  refine ⟨⟨order, inv.ring, ?_⟩, fun x => ?_, inv.unique, fun op s' run => (inv.step run).2,
    fun _ _ _ _ run => inv.hit run,
    fun _ _ _ _ run => inv.miss run, fun _ _ _ run => inv.dry run⟩
  · exact (List.perm_ext_iff_of_nodup inv.ring.nodup (List.nodup_finRange _)).mpr fun b => by
      simp [inv.full b]
  · exact ⟨inv.ring.prev_next inv.full, inv.ring.next_prev inv.full⟩

def Cache.run (s : Cache) : List CacheOp → Except String Cache
  | [] => .ok s
  | op :: rest => match s.step op with
    | .ok s' => s'.run rest
    | .error message => .error message

theorem LruReach.run {s s' : Cache} {ops : List CacheOp} (reach : LruReach s) (run : s.run ops = .ok s') :
    LruReach s' := by
  induction ops generalizing s with
  | nil => cases run; exact reach
  | cons op rest ih =>
    simp only [Cache.run] at run
    split at run
    · next next => exact ih (reach.step next) run
    · cases run

/-- A buffer is taken for a block twice and released, which puts it in front; the next block goes to another
one. -/
theorem lruReach_released : ∃ (b c : BufId) (s : Cache),
    Cache.zero.binit.run [.bget 1 5, .bget 1 5, .brelse b, .brelse b, .bget 1 7] = .ok s ∧ s.Ok ∧
      s.next none = some b ∧ s.released b = 1 ∧ (s.buf b).blockno = 5 ∧ (s.buf c).blockno = 7 := by
  let b : BufId := ⟨0, by decide⟩
  let c : BufId := ⟨1, by decide⟩
  have run : ((Cache.zero.binit.run [.bget 1 5, .bget 1 5, .brelse b, .brelse b, .bget 1 7]).toOption.map
      fun s => (s.next none, s.released b, (s.buf b).blockno, (s.buf c).blockno)) = some (some b,
      1, 5, 7) := by decide +kernel
  cases done : Cache.zero.binit.run [.bget 1 5, .bget 1 5, .brelse b, .brelse b, .bget 1 7] with
  | error message => simp [done, Except.toOption] at run
  | ok s =>
    refine ⟨b, c, s, done, LruReach.ok (LruReach.binit.run done), ?_⟩
    simpa [done, Except.toOption] using run

end Xv6
