import Xv6.Pages.Calls

/-! Entries of the process table are taken and given back: `allocproc`, `freeproc` and the calls that use
them. -/

namespace Xv6.Pages
open Function Fork
open Vm (Pagetable Pte Memory VmM Uses Shaped Owned Resized Valid total PGSIZE MAXVA TRAMPOLINE
  TRAPFRAME kalloc kfree kfree_safe kfree_gives kalloc_safe
  kalloc_gives procPagetable procPagetable_ends procFreepagetable procFreepagetable_frees
  emptyTable count_cons)

/-- What `freeproc` leaves of an entry. -/
def cleared (slot : Fork.Slot) : Fork.Slot :=
  { slot with
    trapframe := 0, pagetable := none, sz := 0, pid := 0, parent := none, name := update slot.name 0 0, chan := 0
    killed := 0, xstate := 0, state := .unused }

/-- What `allocproc` has made of an entry. -/
structure Made (k k' : Fork.Kernel) (np : ProcId) : Prop where
  unused : (k.proc np).state = .unused
  used : (k'.proc np).state = .used
  size : (k'.proc np).sz = 0
  ofile (fd : Fin NOFILE) : (k'.proc np).ofile fd = none
  others {q : ProcId} : q ≠ np → k'.proc q = k.proc q

section Slots

variable {boot : Kernel} {pipes : List Nat} {k k' : Fork.Kernel} {p np q : ProcId} {pt : Pagetable}
  {E : String → Prop} {x : Nat}

theorem cleared_fine {top : Nat} {slot : Fork.Slot} (closed : ∀ fd, slot.ofile fd = none) :
    Fine top (cleared slot) :=
  .blank rfl ⟨rfl, rfl, rfl, closed⟩

/-- What `freeproc` gives back of the memory of an entry. -/
def freePages (slot : Fork.Slot) : VmM Unit := do
  if slot.trapframe ≠ 0 then kfree slot.trapframe
  match slot.pagetable with
  | some pt => procFreepagetable pt slot.sz
  | none => pure ()

theorem freePages_none {slot : Fork.Slot} (trapframe : slot.trapframe = 0) (table : slot.pagetable = none) :
    freePages slot = pure () := by
  unfold freePages
  rw [trapframe, table]
  rfl

theorem freePages_frame {slot : Fork.Slot} (trapframe : slot.trapframe ≠ 0) (table : slot.pagetable = none) :
    freePages slot = kfree slot.trapframe >>= fun _ => pure () := by
  unfold freePages
  rw [if_pos trapframe, table]

theorem freeproc_part {Q : Unit → Fork.Kernel → Prop}
    (pages : Ends (freePages (k.proc q)) k.memory E fun _ s =>
    Q () { k with memory := s, proc := update k.proc q (cleared (k.proc q)) }) : Ends (Fork.freeproc q) k E Q := by
  unfold freePages at pages
  unfold Fork.freeproc
  refine .bind_run (rfl : (get : ForkM Fork.Kernel) k = .ok (k, k)) ?_
  dsimp only
  have rest (s : Memory) (after : Ends (match (k.proc q).pagetable with
        | some pt => procFreepagetable pt (k.proc q).sz | none => pure ()) s E fun _ s =>
      Q () { k with memory := s, proc := update k.proc q (cleared (k.proc q)) }) :
      Ends (match (k.proc q).pagetable with
          | some pt => Fork.vm (procFreepagetable pt (k.proc q).sz) >>= fun _ => setProc q cleared
          | none => setProc q cleared) { k with memory := s } E Q := by
    cases table : (k.proc q).pagetable with
    | none =>
      rw [table] at after
      exact after
    | some pt =>
      rw [table] at after
      exact .seq (.part after)
  by_cases null : (k.proc q).trapframe ≠ 0
  · rw [if_pos null] at pages ⊢
    exact .seq (.part (pages.parts.mono fun _ s after => rest s after))
  · rw [if_neg null] at pages ⊢
    exact rest k.memory pages

/-- An entry that has no files gives back all its pages. -/
theorem freeproc_ends (booted : Booted boot) (orderly : Orderly boot pipes k)
    (space : Space boot.memory.trampoline (k.proc q) pt)
    (closed : ∀ fd, (k.proc q).ofile fd = none) : Ends (Fork.freeproc q) k E fun _ k' =>
      Moved boot pipes (· = q) k k' ∧ k'.proc = update k.proc q (cleared (k.proc q)) := by
  obtain ⟨unlisted, -, listed⟩ := orderly.trapframe booted space
  have own := orderly.owned booted space
  have valid := booted.valid listed
  have nonnull : (k.proc q).trapframe ≠ 0 := by
    have base := booted.kernelEnd
    unfold Vm.KERNBASE at base
    have lower := valid.2.1
    omega
  rw [← orderly.kernelEnd] at valid
  let G (x : Nat) : Prop := Own boot.memory.trampoline k q x ∨ x = (k.proc q).trapframe
  have top : ¬G boot.memory.trampoline := fun wrong => wrong.elim (fun own => own.1 rfl) space.apart
  refine freeproc_part ?_
  unfold freePages
  rw [if_pos nonnull, space.pagetable]
  have first := (kfree_safe valid).ends.and
    (kfree_gives (F := G) (fun pa listed => .inl (own.free pa listed)) (.inr rfl))
  refine (first.weaken fun _ => False.elim).bind fun _ s ⟨same, uses, list⟩ => ?_
  have last := procFreepagetable_frees own uses.free (fun _ => .inl) fun pa way => by
    rw [same]
    exact way.elim (fun here => own.valid here) fun here => here ▸ valid
  refine (last.weaken fun _ => False.elim).mono fun _ s' ⟨same', uses', count⟩ => ?_
  have after := uses.trans uses'
  have turn : Turn boot.memory.trampoline k
      { k with memory := s', proc := update k.proc q (cleared (k.proc q)) } q := by
    refine .put (same'.trans same) after.trampoline (fun listed => top (after.free _ listed))
      (fun _ other => update_of_ne other ..) (update_self ..) (cleared_fine closed)
      (fun x unlisted way => after.mem ?_) (fun x other => ?_) fun _ => rfl
    · rw [held_of space.pagetable] at way
      rintro (page | rfl)
      · have some := page.2.2
        rw [held_of space.pagetable, List.count_eq_zero.mpr unlisted] at some
        have other := page.1
        omega
      · have some := space.frame_held
        have apart := space.apart
        omega
    · have back := count x
      unfold total at back
      rw [list, count_cons, if_neg (Ne.symm other)] at back
      dsimp only
      rw [held_none rfl, held_of space.pagetable]
      omega
  exact ⟨turn.moved booted orderly, rfl⟩

theorem Fine.of_unused {top : Nat} {slot : Fork.Slot} (fine : Fine top slot)
    (unused : slot.state = .unused) : Blank slot := by
  cases fine with
  | blank _ blank => exact blank
  | backed used _ _ => exact absurd unused used

/-- An entry that was taken is cleared, and its pages are back. -/
theorem Turn.released {s : Memory} {proc : ProcId → Fork.Slot} {slot : Fork.Slot} (blank : Blank (k.proc np))
    (orderly : Orderly boot pipes k) (kernelEnd : s.kernelEnd = k.memory.kernelEnd)
    (uses : Uses (· ∈ k.memory.freelist) k.memory s)
    (count : ∀ x, s.freelist.count x = k.memory.freelist.count x) (others : ∀ q, q ≠ np → proc q = k.proc q)
    (clear : proc np = cleared slot) (ofile : slot.ofile = (k.proc np).ofile) (nextpid : Int) :
    Turn boot.memory.trampoline k { k with memory := s, proc, nextpid } np := by
  refine .put kernelEnd uses.trampoline (fun listed => orderly.spare (uses.free _ listed)) others clear
    (cleared_fine (ofile ▸ blank.ofile)) (fun x unlisted _ => uses.mem unlisted) (fun x _ => ?_) fun f => ?_
  · dsimp only
    rw [count, held_none rfl, held_none blank.pagetable]
  · rw [← ofile]
    rfl

/-- A free page is one that `kfree` takes. -/
theorem Orderly.valid_free (orderly : Orderly boot pipes k) (booted : Booted boot)
    (listed : x ∈ k.memory.freelist) : Valid k.memory.kernelEnd x := by
  have other : x ≠ boot.memory.trampoline := by
    rintro rfl
    exact orderly.spare listed
  have shares := orderly.shares other initproc
  have some := List.count_pos_iff.mpr listed
  rw [orderly.kernelEnd]
  exact booted.valid (by omega)

theorem found_ends (booted : Booted boot) (orderly : Orderly boot pipes k)
    (unused : (k.proc np).state = .unused) :
    Ends (Fork.found np) k E fun r k' => Moved boot pipes (· = np) k k' ∧
      (r = none ∧ (k'.proc np).state = .unused ∨ r = some np ∧ Made k k' np) := by
  have blank := (orderly.fine np).of_unused unused
  have valid (pa : Nat) (listed : pa ∈ k.memory.freelist) := orderly.valid_free booted listed
  unfold Fork.found
  refine .bind_run (rfl : Fork.allocpid k = .ok (k.nextpid, { k with nextpid := k.nextpid + 1 })) ?_
  have alloc := (kalloc_safe k.memory).ends.and (kalloc_gives (F := (· ∈ k.memory.freelist)) fun _ => id)
  refine .seq (Ends.modify (.seq (.part ((alloc.weaken fun _ => False.elim).mono
    fun r s ⟨same, uses, mem, way⟩ => ?_))))
  obtain ⟨rfl, rfl, -⟩ | ⟨page, rfl, list⟩ := way
  · -- There is no page for the trapframe.
    refine .seq (Ends.modify (.seq (freeproc_part ?_)))
    dsimp only
    rw [freePages_none (by simp only [update_self]) (by simp only [update_self, blank.pagetable])]
    refine Ends.pure (Ends.pure ⟨(Turn.released blank orderly rfl uses (fun _ => rfl) (fun q other => ?_)
      (update_self ..) ?_ _).moved booted orderly, .inl ⟨rfl, ?_⟩⟩)
    · simp only [update_of_ne other]
    · simp only [update_self]
    · dsimp only
      rw [update_self]
      rfl
  have listed : page ∈ k.memory.freelist := list ▸ List.mem_cons_self ..
  have other : page ≠ boot.memory.trampoline := by
    rintro rfl
    exact orderly.spare listed
  have nonnull : page ≠ 0 := by
    have base := booted.kernelEnd
    have lower := (valid page listed).2.1
    rw [orderly.kernelEnd] at lower
    unfold Vm.KERNBASE at base
    omega
  have table := procPagetable_ends ⟨emptyTable 0, 0, page⟩ uses.free fun pa listed => same ▸ valid pa listed
  refine .seq (Ends.modify (.seq (.part ((table.weaken fun _ => False.elim).mono
    fun r s' ⟨same', uses', way⟩ => ?_))))
  obtain ⟨rfl, count⟩ | ⟨pt, rfl, shaped, -, balance⟩ := way
  · -- There is none for the page table.
    refine .seq (Ends.modify (.seq (freeproc_part ?_)))
    dsimp only
    rw [freePages_frame (by simp only [update_self]; exact nonnull) (by simp only [update_self])]
    simp only [update_self]
    have fit : Valid s'.kernelEnd page := same' ▸ same ▸ valid page listed
    have freed := (kfree_safe fit).ends.and (kfree_gives uses'.free listed)
    refine (freed.weaken fun _ => False.elim).bind fun _ s'' ⟨same'', uses'', list'⟩ => ?_
    have kernelEnd := same''.trans (same'.trans same)
    have back (x : Nat) : s''.freelist.count x = k.memory.freelist.count x := by
      rw [list', count_cons, count, list, count_cons]
    refine Ends.pure (Ends.pure ⟨(Turn.released blank orderly kernelEnd (uses.trans (uses'.trans uses'')) back
      (fun q other => ?_) (update_self ..) ?_ _).moved booted orderly, .inl ⟨rfl, ?_⟩⟩)
    · simp only [update_of_ne other]
    · simp only
    · dsimp only
      rw [update_self]
      rfl
  refine Ends.bind_run rfl (.seq (Ends.modify (Ends.pure ?_)))
  have top : s.trampoline = boot.memory.trampoline := uses.trampoline.trans orderly.trampoline
  rw [top] at shaped balance
  have after := uses.trans uses'
  have once : pt.owned boot.memory.trampoline ≤ 1 := by
    have sum := balance boot.memory.trampoline
    rw [if_pos rfl, if_neg other, List.count_eq_zero.mpr fun listed => orderly.spare
      (list ▸ List.mem_cons_of_mem page listed)] at sum
    unfold total at sum
    omega
  refine ⟨Turn.moved ?turn booted orderly, .inr ⟨rfl, ?made⟩⟩
  case turn =>
    refine .put (same'.trans same) after.trampoline (fun listed => orderly.spare (after.free _ listed))
      (fun q other => ?_) (update_self ..) (.backed ?_ ?_ ⟨rfl, ?_, ?_, once⟩)
      (fun x unlisted _ => after.mem unlisted) (fun x other => ?_) fun f => ?_
    all_goals simp only [update_self]
    · simp only [update_of_ne other]
    · nofun
    · nofun
    · simpa only [blank.sz] using shaped
    · exact other.symm
    · have sum := balance x
      rw [if_neg (Ne.symm other)] at sum
      rw [held_of rfl, held_none blank.pagetable, list, count_cons]
      exact sum
  case made =>
    refine ⟨unused, ?_, ?_, fun fd => ?_, fun other => ?_⟩
    · simp only [update_self]
    · simp only [update_self, blank.sz]
    · simp only [update_self, blank.ofile]
    · simp only [update_of_ne other]

theorem allocproc_ends (booted : Booted boot) (orderly : Orderly boot pipes k) :
    Ends Fork.allocproc k E fun r k' =>
    r = none ∧ (k' = k ∨ ∃ np, Moved boot pipes (· = np) k k' ∧ (k.proc np).state = .unused) ∨
      ∃ np, r = some np ∧ Moved boot pipes (· = np) k k' ∧ Made k k' np := by
  unfold Fork.allocproc
  refine .bind_run (rfl : (get : ForkM Fork.Kernel) k = .ok (k, k)) ?_
  cases here : (List.finRange NPROC).find? fun p => decide ((k.proc p).state = .unused) with
  | none => exact Ends.pure (.inl ⟨rfl, .inl rfl⟩)
  | some np =>
    have unused := List.find?_some here
    replace unused : (k.proc np).state = .unused := of_decide_eq_true unused
    refine (found_ends booted orderly unused).mono fun r k' ⟨moved, way⟩ => ?_
    obtain ⟨rfl, -⟩ | ⟨rfl, made⟩ := way
    · exact .inl ⟨rfl, .inr ⟨np, moved, unused⟩⟩
    · exact .inr ⟨np, rfl, moved, made⟩

theorem opens_pos {ofile : Fin NOFILE → Option Nat} {fd : Fin NOFILE} {f : Nat} (here : ofile fd = some f) :
    0 < opens ofile f := by
  have less := Shares.le_sum (fun file : Option Nat => if file = some f then 1 else 0) ofile fd
  rw [if_pos here] at less
  exact less

theorem opens_update (ofile : Fin NOFILE → Option Nat) (fd : Fin NOFILE) (file : Option Nat) (f : Nat) :
    opens (update ofile fd file) f + (if ofile fd = some f then 1 else 0) = opens ofile f +
    if file = some f then 1 else 0 := by
  have changed := Shares.change (c := fun file : Option Nat => if file = some f then 1 else 0)
    (g := ofile) (h := update ofile fd file)
    fun j other => by rw [update_of_ne other]
  rwa [update_self] at changed

/-- An entry that is being made changes, but for what says where its memory is. -/
theorem Orderly.slot_moved (orderly : Orderly boot pipes k) (booted : Booted boot) (slot : Fork.Slot)
    (used : (k.proc np).state ≠ .unused)
    {inodeRef fileRef : Nat → Int} (pagetable : slot.pagetable = (k.proc np).pagetable)
    (size : slot.sz = (k.proc np).sz)
    (trapframe : slot.trapframe = (k.proc np).trapframe) (used' : slot.state ≠ .unused)
    (closed : slot.state = .zombie → ∀ fd, slot.ofile fd = none)
    (refs : ∀ f, fileRef f + opens (k.proc np).ofile f = k.fileRef f + opens slot.ofile f) :
    Moved boot pipes (· = np) k { k with proc := update k.proc np slot, fileRef, inodeRef } := by
  obtain ⟨pt, space⟩ := orderly.space used
  exact (orderly.written space _ slot fileRef inodeRef rfl rfl rfl (fun _ _ _ => rfl) pagetable
    size trapframe used' closed refs).moved booted orderly

/-- A round of the loop over the open files. -/
theorem dupFile_ends (booted : Booted boot) (orderly : Orderly boot pipes k) (other : p ≠ np)
    (used : (k.proc np).state = .used)
    (fd : Fin NOFILE) (none : (k.proc np).ofile fd = none) : Ends (Fork.dupFile p np fd) k E fun _ k' =>
      Moved boot pipes (· = np) k k' ∧ (k'.proc np).state = .used ∧ k'.proc p = k.proc p ∧
        ∀ fd', fd' ≠ fd → (k'.proc np).ofile fd' = (k.proc np).ofile fd' := by
  unfold Fork.dupFile
  refine .bind_run (rfl : (get : ForkM Fork.Kernel) k = .ok (k, k)) ?_
  cases file : (k.proc p).ofile fd with
  | none => exact Ends.pure ⟨orderly.stays, used, rfl, fun _ _ => rfl⟩
  | some f =>
    have refs := orderly.refs f
    have less := Shares.le_sum (fun slot => opens slot.ofile f) k.proc p
    have pos := opens_pos file
    have dup : Fork.filedup f k = .ok ((), { k with fileRef := update k.fileRef f (k.fileRef f + 1) }) :=
      if_neg (by omega)
    refine .bind_run dup (Ends.modify ⟨orderly.slot_moved booted _ (by rw [used]; nofun) rfl rfl
      rfl ?_ ?_ fun f' => ?_, ?_, ?_, fun fd' apart => ?_⟩)
    · dsimp only
      rw [used]
      nofun
    · dsimp only
      rw [used]
      nofun
    · have changed := opens_update (k.proc np).ofile fd (some f) f'
      rw [none, if_neg (Option.some_ne_none f').symm] at changed
      dsimp only
      by_cases same : f' = f
      · subst same
        rw [if_pos rfl] at changed
        rw [update_self]
        omega
      · rw [if_neg fun wrong => same (Option.some.inj wrong).symm] at changed
        rw [update_of_ne same]
        omega
    · simp only [update_self, used]
    · simp only [update_of_ne other]
    · simp only [update_self, update_of_ne apart]

/-- The child with the size of its memory. -/
def sized (k : Fork.Kernel) (p np : ProcId) : Fork.Kernel :=
  { k with proc := update k.proc np { k.proc np with sz := (k.proc p).sz } }

theorem setChild_ends (booted : Booted boot) (orderly : Orderly boot pipes (sized k p np)) (other : p ≠ np)
    (used : (k.proc np).state = .used) (closed : ∀ fd, (k.proc np).ofile fd = none) :
    Ends (Fork.setChild p np) k E fun _ k' => Moved boot pipes (· = np) (sized k p np) k' := by
  have slot : (sized k p np).proc np = { k.proc np with sz := (k.proc p).sz } := update_self ..
  have used₀ : ((sized k p np).proc np).state ≠ .unused := by
    rw [slot]
    dsimp only
    rw [used]
    nofun
  obtain ⟨pt, space⟩ := orderly.space used₀
  have frame : ((sized k p np).proc np).trapframe = (k.proc np).trapframe := by rw [slot]
  let s' := (k.memory.write (k.proc np).trapframe 0 trapframeSize
    (k.memory.mem (k.proc p).trapframe)).write (k.proc np).trapframe a0 8 fun _ => 0
  let slot' : Fork.Slot := { (sized k p np).proc np with traceMask := (k.proc p).traceMask }
  have live : slot'.state ≠ .zombie := by
    show ((sized k p np).proc np).state ≠ _
    rw [slot]
    dsimp only
    rw [used]
    nofun
  have first : Moved boot pipes (· = np) (sized k p np) { sized k p np with
      memory := s', proc := update (sized k p np).proc np slot' } := by
    refine (orderly.written space s' slot' _ _ rfl rfl rfl (fun x _ way => ?_) rfl rfl rfl used₀
      (fun wrong => absurd wrong live)
      fun _ => rfl).moved booted orderly
    have kept := space.frame_written (s := k.memory) 0 trapframeSize (k.memory.mem (k.proc p).trapframe) x way
    have kept' := space.frame_written (s := k.memory.write (k.proc np).trapframe 0 trapframeSize
      (k.memory.mem (k.proc p).trapframe)) a0 8
      (fun _ => 0) x way
    rw [frame] at kept kept'
    exact kept'.trans kept
  unfold Fork.setChild
  refine .bind_run (rfl : (get : ForkM Fork.Kernel) k = .ok (k, k))
    (.bind_run (rfl : (get : ForkM Fork.Kernel) k = .ok (k, k)) ?_)
  refine .seq (Ends.modify (.seq (.part (Ends.modify (.seq (.part (Ends.modify (.seq (Ends.modify ?_)))))))))
  let k₁ : Fork.Kernel := { sized k p np with memory := s', proc := update (sized k p np).proc np slot' }
  show Ends _ k₁ E _
  have same : k₁.proc p = k.proc p := (update_of_ne other _ _).trans (update_of_ne other _ _)
  have self : k₁.proc np = slot' := update_self ..
  have loop := Ends.forM_list (l := List.finRange NOFILE) (f := Fork.dupFile p np) (s := k₁)
    (E := E) (fun l k' =>
      l.Nodup ∧ Moved boot pipes (· = np) (sized k p np) k' ∧ (k'.proc np).state = .used ∧
      k'.proc p = k.proc p ∧
        ∀ fd ∈ l, (k'.proc np).ofile fd = none)
    ⟨List.nodup_finRange _, first, ?_, same, fun fd _ => ?_⟩ fun fd l k' ⟨nodup, moved, state,
      parent, empty⟩ => ?_
  · refine .seq (loop.mono fun _ k₂ ⟨_, moved, state, parent, _⟩ =>
      .seq (Ends.modify (.seq (Ends.modify (Ends.pure ?_)))))
    exact moved.then (moved.orderly.slot_moved booted _ (by rw [state]; nofun) rfl rfl rfl nofun
      nofun fun _ => rfl)
  · rw [self]
    show ((sized k p np).proc np).state = _
    rw [slot]
    exact used
  · rw [self]
    show ((sized k p np).proc np).ofile fd = _
    rw [slot]
    exact closed fd
  · obtain ⟨apart, nodup⟩ := List.nodup_cons.mp nodup
    refine (dupFile_ends booted moved.orderly other state fd (empty fd (List.mem_cons_self ..))).mono
      fun _ k'' ⟨moved', state', parent', kept⟩ => ?_
    refine ⟨nodup, moved.then moved', state', parent'.trans parent, fun fd' member => ?_⟩
    rw [kept fd' (by rintro rfl; exact apart member)]
    exact empty fd' (List.mem_cons_of_mem fd member)

/-- `fork` fills an entry that was not in use, or clears it again. -/
theorem fork_ends (booted : Booted boot) (orderly : Orderly boot pipes k)
    (running : (k.proc p).state = .running) :
    Ends (Fork.fork p) k E fun _ k' => Moved boot pipes (fun q => (k.proc q).state = .unused) k k' := by
  unfold Fork.fork
  refine (allocproc_ends booted orderly).bind fun r k₁ way => ?_
  obtain ⟨rfl, rfl | ⟨np, moved, unused⟩⟩ | ⟨np, rfl, moved, made⟩ := way
  · exact Ends.pure orderly.stays
  · exact Ends.pure (moved.mono fun q same => same ▸ unused)
  have other : p ≠ np := by
    rintro rfl
    have wrong := made.unused
    rw [running] at wrong
    cases wrong
  have parent : k₁.proc p = k.proc p := made.others other
  obtain ⟨old, space⟩ := moved.orderly.space (p := p) (by rw [parent, running]; nofun)
  obtain ⟨new, space'⟩ := moved.orderly.space (p := np) (by rw [made.used]; nofun)
  have own := moved.orderly.owned booted space'
  have used : (k₁.proc np).state ≠ .unused := by rw [made.used]; nofun
  have live : (k₁.proc np).state = .zombie → ∀ fd, (k₁.proc np).ofile fd = none := fun _ => made.ofile
  rw [made.size] at own
  have apart (q : Nat) (pte : Pte) (here : old.leaf q = some pte) : pte.pa ∉ k₁.memory.freelist := by
    refine moved.orderly.unlisted (p := p) booted ?_
    have framed := space.shaped.sound.framed here
    rw [held_of space.pagetable]
    unfold Pagetable.owned
    omega
  refine .bind_run (rfl : (get : ForkM Fork.Kernel) k₁ = .ok (k₁, k₁))
    (.bind_run (rfl : (get : ForkM Fork.Kernel) k₁ = .ok (k₁, k₁)) ?_)
  rw [space.pagetable, space'.pagetable]
  refine .bind_run (rfl : (get : ForkM Fork.Kernel) k₁ = .ok (k₁, k₁)) ?_
  refine .seq (.part (((Vm.uvmcopy_ends space.shaped own apart).weaken fun _ => False.elim).mono
    fun r s way => .seq (Ends.modify ?_)))
  have back {k' : Fork.Kernel} (moved' : Moved boot pipes (· = np) k₁ k') :
    Moved boot pipes (fun q => (k.proc q).state = .unused) k k' :=
    (moved.then moved').mono fun q same => same ▸ made.unused
  obtain ⟨failed, resized⟩ | ⟨done, resized⟩ := way
  · refine Ends.ite (fun _ => ?_) fun wrong => by omega
    have turn := space'.resized { k₁.proc np with pagetable := some r.2 } resized.owned resized.kernelEnd
      resized.trampoline resized.total (fun x out _ => resized.mem out) rfl made.size rfl used live rfl
    have moved₂ := turn.moved booted moved.orderly
    obtain ⟨pt, space₂⟩ := moved₂.orderly.space (p := np) (by dsimp only; rw [update_self]; exact used)
    refine (freeproc_ends booted moved₂.orderly space₂ fun fd => ?_).bind fun _ k' ⟨moved₃, _⟩ =>
      Ends.pure (back (moved₂.then moved₃))
    dsimp only
    rw [update_self]
    exact made.ofile fd
  · refine Ends.ite (fun wrong => by omega) fun _ => ?_
    have turn := space'.resized { k₁.proc np with pagetable := some r.2, sz := (k₁.proc p).sz } resized.owned
      resized.kernelEnd resized.trampoline resized.total (fun x out _ => resized.mem out) rfl
        rfl rfl used live rfl
    have moved₂ := turn.moved booted moved.orderly
    let k₂ : Fork.Kernel := { k₁ with
        memory := s, proc := update k₁.proc np { k₁.proc np with pagetable := some r.2 } }
    have whole : { k₁ with
        memory := s
        proc := update k₁.proc np { k₁.proc np with pagetable := some r.2, sz := (k₁.proc p).sz } } =
        sized k₂ p np := by
      show _ = ({ k₂ with
        proc := update (update k₁.proc np _) np
          { update k₁.proc np _ np with sz := (update k₁.proc np _ p).sz } } : Fork.Kernel)
      rw [update_idem, update_self, update_of_ne other]
    rw [whole] at moved₂
    refine (setChild_ends (k := k₂) booted moved₂.orderly other ?_ fun fd => ?_).mono fun _ k' moved₃ =>
      back (moved₂.then moved₃)
    · show (update k₁.proc np _ np).state = _
      rw [update_self]
      exact made.used
    · show (update k₁.proc np _ np).ofile fd = _
      rw [update_self]
      exact made.ofile fd

/-- Processes get another parent. -/
theorem Orderly.reparented (orderly : Orderly boot pipes k) {proc : ProcId → Fork.Slot}
    (same : ∀ q, proc q = { k.proc q with parent := (proc q).parent }) :
    Moved boot pipes (fun _ => False) k { k with proc } := by
  have turn (q : ProcId) : Turn boot.memory.trampoline k { k with proc } q := by
    have fine : Fine boot.memory.trampoline (proc q) := by
      rw [same q]
      exact (orderly.fine q).congr Iff.rfl id rfl rfl rfl rfl
    refine ⟨rfl, rfl, orderly.spare, fun _ => same _, fine, fun _ _ => rfl, fun {x} _ => ?_, fun f => ?_⟩
    · dsimp only
      rw [same q]
      rfl
    · dsimp only
      rw [same q]
  exact ⟨(turn initproc).orderly orderly, fun {q} _ => ⟨same q, fun _ => rfl⟩⟩

/-- A round of the loop of `exit` over the open files. -/
theorem closeFile_ends (booted : Booted boot) (orderly : Orderly boot pipes k)
    (running : (k.proc p).state = .running) (fd : Fin NOFILE) :
    Ends (closeFile p fd) k E fun _ k' => Goes boot pipes k k' p ∧ (k'.proc p).ofile fd = none ∧
      ∀ fd', (k.proc p).ofile fd' = none → (k'.proc p).ofile fd' = none := by
  unfold closeFile
  refine .bind_run (rfl : (get : ForkM Fork.Kernel) k = .ok (k, k)) ?_
  cases file : (k.proc p).ofile fd with
  | none => exact Ends.pure ⟨⟨orderly.stays, running⟩, file, fun _ => id⟩
  | some f =>
    have refs := orderly.refs f
    have less := Shares.le_sum (fun slot => opens slot.ofile f) k.proc p
    have pos := opens_pos file
    have close : fileclose f k = .ok ((), { k with fileRef := update k.fileRef f (k.fileRef f - 1) }) :=
      if_neg (by omega)
    refine .bind_run close (Ends.modify
      ⟨⟨orderly.slot_moved booted _ (by rw [running]; nofun) rfl rfl rfl ?_ ?_ fun f' => ?_, ?_⟩,
      ?_, fun fd' none => ?_⟩)
    · dsimp only
      rw [running]
      nofun
    · dsimp only
      rw [running]
      nofun
    · have changed := opens_update (k.proc p).ofile fd none f'
      rw [file, if_neg (Option.some_ne_none f').symm] at changed
      dsimp only
      by_cases same : f' = f
      · subst same
        rw [if_pos rfl] at changed
        rw [update_self]
        omega
      · rw [if_neg fun wrong => same (Option.some.inj wrong).symm] at changed
        rw [update_of_ne same]
        omega
    · simp only [update_self, running]
    · simp only [update_self]
    · dsimp only
      rw [update_self]
      dsimp only
      by_cases same : fd' = fd
      · rw [same, update_self]
      · rw [update_of_ne same, none]

/-- A process that exits has no files any more. -/
theorem exit_ends (booted : Booted boot) (orderly : Orderly boot pipes k)
    (running : (k.proc p).state = .running) (status : Int) :
    Ends (Pages.exit p status) k (· = "init exiting") fun _ k' => Moved boot pipes (· = p) k k' := by
  unfold Pages.exit
  refine Ends.ite (fun _ => Ends.throw rfl) fun _ => ?_
  have loop := Ends.forM_list (l := List.finRange NOFILE) (f := closeFile p) (s := k)
    (E := (· = "init exiting")) (fun l k' =>
      Goes boot pipes k k' p ∧ ∀ fd, fd ∉ l → (k'.proc p).ofile fd = none)
    ⟨⟨orderly.stays, running⟩, fun fd out => absurd (List.mem_finRange fd) out⟩ fun fd l k' ⟨goes, closed⟩ =>
      (closeFile_ends booted goes.orderly goes.running fd).mono fun _ k'' ⟨goes', here, kept⟩ =>
        ⟨goes.trans goes', fun fd' out => ?_⟩
  swap
  · by_cases same : fd' = fd
    · exact same ▸ here
    · exact kept fd' (closed fd' fun wrong => (List.mem_cons.mp wrong).elim same out)
  refine .seq (loop.mono fun _ k₁ ⟨goes, closed⟩ => ?_)
  refine .bind_run (rfl : (get : ForkM Fork.Kernel) k₁ = .ok (k₁, k₁))
    (.seq (Ends.modify (.seq (Ends.modify ?_))))
  have used : (k₁.proc p).state ≠ .unused := by rw [goes.running]; nofun
  have live : (k₁.proc p).state = .zombie → ∀ fd, (k₁.proc p).ofile fd = none := by rw [goes.running]; nofun
  have left : Moved boot pipes (· = p) k₁ { k₁ with
      proc := update k₁.proc p { k₁.proc p with cwd := 0 }
      inodeRef := update k₁.inodeRef (k₁.proc p).cwd (k₁.inodeRef (k₁.proc p).cwd - 1) } :=
    goes.orderly.slot_moved booted _ used rfl rfl rfl used live fun _ => rfl
  have moved₂ := goes.toMoved.then left
  have loop' := Ends.forM_list (l := List.finRange NPROC) (f := reparentTo p)
    (E := (· = "init exiting")) (fun _ k' =>
      Moved boot pipes (· = p) k k' ∧ (k'.proc p).state = .running ∧ ∀ fd, (k'.proc p).ofile fd =
      none) ⟨moved₂, ?_, fun fd => ?_⟩
    fun pp l k' ⟨moved, state, empty⟩ => Ends.modify ⟨?_, ?_, fun fd => ?_⟩
  · refine .seq (loop'.mono fun _ k₃ ⟨moved₃, state, empty⟩ => Ends.modify ?_)
    exact moved₃.then (moved₃.orderly.slot_moved booted _ (by rw [state]; nofun) rfl rfl rfl nofun
      (fun _ => empty) fun _ => rfl)
  · dsimp only
    rw [update_self]
    exact goes.running
  · dsimp only
    rw [update_self]
    exact closed fd nofun
  · refine (moved.trans (moved.orderly.reparented fun q => ?_)).mono fun q way => way.elim id False.elim
    dsimp only
    by_cases here : q = pp
    · subst here
      rw [update_self]
      split <;> rfl
    · rw [update_of_ne here]
  · dsimp only
    by_cases here : p = pp
    · subst here
      rw [update_self]
      split <;> exact state
    · rw [update_of_ne here]
      exact state
  · dsimp only
    by_cases here : p = pp
    · subst here
      rw [update_self]
      split <;> exact empty fd
    · rw [update_of_ne here]
      exact empty fd

/-- `wait` gives back a child that has exited, if there is one. -/
theorem wait_ends (booted : Booted boot) (orderly : Orderly boot pipes k)
    (running : (k.proc p).state = .running) (addr : Nat) :
    Ends (Pages.wait p addr) k E fun _ k' => Moved boot pipes (fun q => q = p ∨
      (k'.proc q).state = .unused) k k' ∧
      (k'.proc p).state = .running := by
  obtain ⟨pt, space⟩ := orderly.space (p := p) (by rw [running]; nofun)
  unfold Pages.wait
  refine .bind_run (rfl : (get : ForkM Fork.Kernel) k = .ok (k, k)) ?_
  rw [space.pagetable]
  cases here : zombieChild k p with
  | none => exact Ends.pure ⟨orderly.stays, running⟩
  | some pp =>
    have found := List.find?_some here
    have zombie : (k.proc pp).state = .zombie := (of_decide_eq_true found).2
    have apart : p ≠ pp := by
      rintro rfl
      rw [running] at zombie
      cases zombie
    refine Ends.bind (Q := fun _ k₁ => Goes boot pipes k k₁ p ∧ k₁.proc = k.proc) ?_
      fun r k₁ ⟨goes, same⟩ => ?_
    · by_cases null : addr = 0
      · rw [if_pos null]
        exact Ends.pure ⟨⟨orderly.stays, running⟩, rfl⟩
      · rw [if_neg null]
        exact vmCopyout_ends booted orderly running space _ _ _
    · refine Ends.ite (fun _ => Ends.pure ⟨goes.toMoved.mono fun q => .inl, goes.running⟩) fun _ => ?_
      have zombie₁ : (k₁.proc pp).state = .zombie := same ▸ zombie
      obtain ⟨pt', space'⟩ := goes.orderly.space (p := pp) (by rw [zombie₁]; nofun)
      have closed : ∀ fd, (k₁.proc pp).ofile fd = none := by
        cases goes.orderly.fine pp with
        | blank _ blank => exact blank.ofile
        | backed _ closed _ => exact closed zombie₁
      refine (freeproc_ends booted goes.orderly space' closed).bind fun _ k' ⟨moved, proc⟩ =>
        Ends.pure ⟨?_, ?_⟩
      · refine (goes.toMoved.trans moved).mono fun q way => way.imp_right fun here => ?_
        rw [proc, here, update_self]
        rfl
      · rw [proc, update_of_ne apart]
        exact goes.running

/-- A process is killed, and woken up if it sleeps. -/
theorem Orderly.killed (orderly : Orderly boot pipes k) (q : ProcId) (slot : Fork.Slot)
    (same : slot = { k.proc q with state := slot.state, killed := slot.killed })
    (used : slot.state = .unused ↔ (k.proc q).state = .unused) (zombie : slot.state = .zombie ↔
      (k.proc q).state = .zombie) :
    Orderly boot pipes { k with proc := update k.proc q slot } := by
  have turn : Turn boot.memory.trampoline k { k with proc := update k.proc q slot } q := by
    have fine : Fine boot.memory.trampoline slot := by
      rw [same]
      exact (orderly.fine q).congr used zombie.mp rfl rfl rfl rfl
    exact .put rfl rfl orderly.spare (fun _ other => update_of_ne other ..) (update_self ..) fine
      (fun _ _ _ => rfl) (fun x _ => by rw [same]; rfl) fun f => by rw [same]
  exact turn.orderly orderly

/-- `kill` changes nothing of a process but whether it is killed and whether it sleeps. -/
theorem kill_ends (orderly : Orderly boot pipes k) (running : (k.proc p).state = .running) (pid : Int) :
    Ends (Pages.kill pid) k E fun _ k' => Orderly boot pipes k' ∧ (k'.proc p).state = .running ∧
    ∀ q, Kept k k' q := by
  unfold Pages.kill
  refine .bind_run (rfl : (get : ForkM Fork.Kernel) k = .ok (k, k)) ?_
  cases (List.finRange NPROC).find? fun q => decide ((k.proc q).pid = pid) with
  | none => exact Ends.pure ⟨orderly, running, fun q => (Spared.refl k q).kept⟩
  | some pp =>
    refine .seq (Ends.modify (Ends.pure ⟨orderly.killed pp _ rfl ?_ ?_, ?_,
      fun q => ⟨?_, fun _ => rfl⟩⟩)) <;> dsimp only
    · cases (k.proc pp).state <;> decide
    · cases (k.proc pp).state <;> decide
    · by_cases here : p = pp
      · rw [← here, update_self]
        dsimp only
        rw [running]
        rfl
      · rwa [update_of_ne here]
    · by_cases here : q = pp
      · rw [here, update_self]
      · rw [update_of_ne here]

end Slots

end Xv6.Pages
