import Xv6.Virtio.Machine
import Xv6.Lib.Cyclic

namespace Xv6.Virtio
open Threads Function

/-! ## The set of free descriptors -/

namespace Table

variable {T T' : Table} {i : Nat}

theorem allocDesc_some (run : T.allocDesc = some (i, T')) :
    i < NUM ∧ T.free i = true ∧ T' = { T with free := update T.free i false } := by
  obtain ⟨j, found, eq⟩ := Option.map_eq_some_iff.mp run
  cases eq
  exact ⟨List.mem_range.mp (List.mem_of_find?_eq_some found), List.find?_some found, rfl⟩

/-- Freeing descriptors that are not free. -/
theorem freeDescs_ok (idx : List Nat) (nodup : idx.Nodup) (inside : ∀ i ∈ idx, i < NUM ∧ T.free i = false) :
    ∃ T', freeDescs idx T = .ok T' ∧ (∀ i, T'.free i = (T.free i || decide (i ∈ idx))) ∧
      ∀ i, i ∉ idx → T'.desc i = T.desc i := by
  induction idx generalizing T with
  | nil => exact ⟨T, rfl, by simp, fun _ _ => rfl⟩
  | cons i rest ih =>
    obtain ⟨absent, nodup⟩ := List.nodup_cons.mp nodup
    obtain ⟨small, used⟩ := inside i (List.mem_cons_self ..)
    have freed : T.freeDesc i = .ok ⟨update T.desc i ⟨.null, 0, false, false, 0⟩, update T.free i true⟩ := by
      unfold freeDesc
      rw [if_neg (by omega), if_neg (by simp [used])]
    obtain ⟨T', run, free, desc⟩ :=
      @ih ⟨update T.desc i ⟨.null, 0, false, false, 0⟩, update T.free i true⟩ nodup
      fun j member => by
        have apart : j ≠ i := fun same => absent (same ▸ member)
        simpa [apart] using inside j (List.mem_cons_of_mem _ member)
    refine ⟨T', ?_, fun j => ?_, fun j outside => ?_⟩
    · unfold freeDescs
      rw [freed]
      exact run
    · rw [free]
      by_cases same : j = i
      · simp [same]
      · simp [same]
    · simp only [List.mem_cons, not_or] at outside
      rw [desc j outside.2]
      exact update_of_ne outside.1 _ _

theorem allocFrom_ok (free : Nat → Bool) (n : Nat) (idx : List Nat) (nodup : idx.Nodup)
    (inside : ∀ i ∈ idx, i < NUM ∧ free i = true) (now : ∀ i, T.free i = (free i && decide (i ∉ idx))) :
    ∃ r T', allocFrom n idx T = .ok (r, T') ∧ match r with
      | none => T'.free = free ∧ ∀ i, free i = false → T'.desc i = T.desc i
      | some l => l.length = idx.length + n ∧ l.Nodup ∧ (∀ i ∈ l, i < NUM ∧ free i = true) ∧
        (∀ i, T'.free i = (free i && decide (i ∉ l))) ∧ T'.desc = T.desc := by
  induction n generalizing idx T with
  | zero => exact ⟨some idx, T, rfl, by simp, nodup, inside, now, rfl⟩
  | succ n ih =>
    cases alloc : T.allocDesc with
    | some x =>
      obtain ⟨i, T₁⟩ := x
      obtain ⟨small, unused, rfl⟩ := allocDesc_some alloc
      have old : free i = true ∧ i ∉ idx := by simpa [now i] using unused
      obtain ⟨r, T', run, result⟩ := @ih { T with free := update T.free i false } (idx ++ [i])
        (List.nodup_append.mpr ⟨nodup, List.nodup_singleton i, fun a inIdx b isI same => by
          rw [List.mem_singleton] at isI
          exact old.2 (isI ▸ same ▸ inIdx)⟩)
        (fun j member => by
          rcases List.mem_append.mp member with inIdx | isI
          · exact inside j inIdx
          · rw [List.mem_singleton] at isI
            exact isI ▸ ⟨small, old.1⟩)
        (fun j => by
          by_cases same : j = i
          · simp [same]
          · simp [same, now j])
      refine ⟨r, T', ?_, ?_⟩
      · unfold allocFrom
        rw [alloc]
        exact run
      · cases r with
        | none => exact result
        | some l =>
          obtain ⟨length, rest⟩ := result
          refine ⟨?_, rest⟩
          simp only [List.length_append, List.length_singleton] at length
          omega
    | none =>
      obtain ⟨T', run, freed, desc⟩ := freeDescs_ok (T := T) idx nodup fun i member =>
        ⟨(inside i member).1, by simp [now i, member]⟩
      refine ⟨none, T', ?_, funext fun i => ?_, fun i used => desc i fun member => ?_⟩
      · unfold allocFrom
        rw [alloc]
        simp only [run]
        rfl
      · rw [freed, now i]
        by_cases member : i ∈ idx
        · simp [member, (inside i member).2]
        · simp [member]
      · rw [(inside i member).2] at used
        cases used

/-- `alloc3_desc` takes three free descriptors, or leaves the free ones as they are. -/
theorem alloc3Desc_ok (T : Table) :
    ∃ r T', T.alloc3Desc = .ok (r, T') ∧ match r with
      | none => T'.free = T.free ∧ ∀ i, T.free i = false → T'.desc i = T.desc i
      | some l => l.length = 3 ∧ l.Nodup ∧ (∀ i ∈ l, i < NUM ∧ T.free i = true) ∧
        (∀ i, T'.free i = (T.free i && decide (i ∉ l))) ∧ T'.desc = T.desc :=
  allocFrom_ok T.free 3 [] List.nodup_nil (by simp) (by simp)

/-- The descriptors of a chain as `virtio_disk_rw` links them. -/
structure Linked (T : Table) (h d1 d2 : Nat) : Prop where
  first : (T.desc h).hasNext = true ∧ (T.desc h).next = d1
  second : (T.desc d1).hasNext = true ∧ (T.desc d1).next = d2
  third : (T.desc d2).hasNext = false ∧ (T.desc d2).addr = .status h

/-- `free_chain` frees the three descriptors of a chain. -/
theorem freeChain_ok {h d1 d2 : Nat} (linked : T.Linked h d1 d2) (nodup : [h, d1, d2].Nodup)
    (inside : ∀ i ∈ [h, d1, d2], i < NUM ∧ T.free i = false) :
    ∃ T', T.freeChain h = .ok T' ∧ (∀ i, T'.free i = (T.free i || decide (i ∈ [h, d1, d2]))) ∧
      ∀ i, i ∉ [h, d1, d2] → T'.desc i = T.desc i := by
  obtain ⟨T', run, free, desc⟩ := freeDescs_ok [h, d1, d2] nodup inside
  refine ⟨T', ?_, free, desc⟩
  rw [← run]
  have apart : h ≠ d1 ∧ h ≠ d2 ∧ d1 ≠ d2 := by simpa [and_assoc] using nodup
  have first := inside h (by simp)
  have second := inside d1 (by simp)
  have third := inside d2 (by simp)
  simp only [freeChain, freeChainFrom, freeDescs, freeDesc, NUM, bind, Except.bind] at first second third ⊢
  simp [Nat.not_le.mpr first.1, Nat.not_le.mpr second.1, Nat.not_le.mpr third.1, first.2, second.2, third.2,
    linked.first, linked.second, linked.third, apart.1.symm, apart.2.1.symm, apart.2.2.symm]

end Table

/-! ## The invariant -/

/-- How far its owner knows a request has come. -/
inductive Phase where
  | allocated
  | ready
  | ringed
  | inflight
  | noticed
  | cleared
deriving DecidableEq

def Stage.phase : Stage → Phase
  | .allocated => .allocated
  | .ready => .ready
  | .ringed => .ringed
  | .submitted | .taken | .finished | .served => .inflight
  | .noticed => .noticed
  | .cleared => .cleared

/-- A request that the handler has not served yet. -/
def Stage.waits : Stage → Bool
  | .ready | .ringed | .submitted | .taken | .finished => true
  | _ => false

/-- A request that the device has completed. -/
def Stage.done : Stage → Bool
  | .finished | .served | .noticed | .cleared => true
  | _ => false

def Shape.has (c : Shape) (h d : Nat) : Prop := d ∈ [h, c.d1, c.d2]

/-- Each descriptor is free or belongs to one chain, and each chain is for a buffer that its owner has
locked. -/
structure Layout (free : Nat → Bool) (bufLock : BufNo → Option Actor) (shape : Nat → Option Shape) :
    Prop where
  nodup : ∀ h c, shape h = some c → [h, c.d1, c.d2].Nodup
  disjoint : ∀ h c h' c' d, shape h = some c → shape h' = some c' → c.has h d → c'.has h' d → h = h'
  free : ∀ d, free d = true ↔ d < NUM ∧ ∀ h c, shape h = some c → ¬ c.has h d
  inside : ∀ h c d, shape h = some c → c.has h d → d < NUM
  buffers : ∀ h c h' c', shape h = some c → shape h' = some c' → c.buf = c'.buf → h = h'
  locked : ∀ h c, shape h = some c → bufLock c.buf = some c.owner

/-- What holds of a chain at its stage. -/
structure ChainOk (s : DiskState) (h : Nat) (c : Chain) : Prop where
  linked : c.stage ≠ .allocated → s.table.Linked h c.d1 c.d2
  info : c.stage ≠ .allocated → c.stage ≠ .cleared → (s.info h).b = some c.buf
  waits : c.stage.waits = true → s.disk c.buf = true
  status : c.stage = .finished → (s.info h).status = 0
  done : c.stage.done = true → c.completed = true
  ringed : c.stage = .ringed → s.lock = some c.owner ∧ s.availRing (DiskState.slot s.availIdx) = h

def DiskState.shape (s : DiskState) (h : Nat) : Option Shape := (s.chain h).map Chain.toShape

/-- A list of the heads at one stage. -/
def Lists (s : DiskState) (stage : Stage) (l : List Nat) : Prop :=
  l.Nodup ∧ ∀ h, h ∈ l ↔ ∃ c, s.chain h = some c ∧ c.stage = stage

structure VInv (s : DiskState) : Prop where
  layout : Layout s.table.free s.bufLock s.shape
  chains : ∀ h c, s.chain h = some c → ChainOk s h c
  avail : RingQueue NUM s.availRing s.takeIdx s.availIdx s.submitted
  used : RingQueue NUM s.usedRing s.usedIdx s.deviceUsedIdx s.finished
  submitted : Lists s .submitted s.submitted
  taken : Lists s .taken s.taken
  finished : Lists s .finished s.finished

/-- What an actor may rely on between its steps: whether it has the lock, the buffers it has locked
and its chains. -/
@[ext] structure VView where
  locked : Bool
  bufs : BufNo → Bool
  mine : Nat → Option (Shape × Phase)

def DiskState.view (t : Actor) (s : DiskState) : VView where
  locked := s.lock = some t
  bufs b := s.bufLock b = some t
  mine h := (s.chain h).bind fun c => if c.owner = t then some (c.toShape, c.stage.phase) else none

/-- What is owed before a step: the device has taken what was in a slot of the avail ring, the handler
finds the buffer that a completed request was issued for, and a request returns after its own completion. -/
def DiskState.Owed (s : DiskState) (t : Actor) : VAct → Prop
  | .ring _ => (s.availIdx - s.takeIdx).toNat < NUM
  | .service => s.usedIdx ≠ s.deviceUsedIdx → ∃ c, s.chain (s.usedRing (DiskState.slot s.usedIdx)) = some c ∧
      c.stage = .finished ∧ (s.info (s.usedRing (DiskState.slot s.usedIdx))).b = some c.buf
  | .clear h => ∃ c, s.chain h = some c ∧ c.owner = t ∧ c.completed = true
  | _ => True

def virtioOutline : Outline Actor DiskState VView VAct where
  inv := VInv
  view := DiskState.view
  guar t before after := ∀ other, other ≠ t → after.view other = before.view other
  allowed _ _ _ := True
  owes t a s := s.Owed t a
  mayPanic _ _ _ _ := False

theorem virtioOutline_isolated : virtioOutline.Isolated := fun _ _ _ guar => guar

end Xv6.Virtio
