import Xv6.Pages.Boot

/-! Whatever processes do, each page of memory has one role, each process has its address space, and none
notices what the others do. -/

namespace Xv6.Pages
open Function Fork
open Vm (Pagetable Pte Memory Uses Shaped Owned Valid total PGSIZE MAXVA PGROUNDUP TRAMPOLINE
  TRAPFRAME kalloc kfree kalloc_safe kalloc_gives
  kfree_safe kfree_gives count_cons)

/-- The panics of the kernel that are not about memory: the inode table is full, or the first
process exits. -/
def Stops (e : String) : Prop := e = "iget: no inodes" ∨ e = "init exiting"

/-- After a step of the process at `p` the pages are in order, and those that are in use before and after have
not noticed, unless they have been killed. -/
structure Worked (boot k k' : Kernel) (p : ProcId) : Prop where
  orderly : Orderly boot k'.pipes k'.toKernel
  spared {q} : q ≠ p → (k.proc q).state ≠ .unused → (k'.proc q).state ≠ .unused →
    Kept k.toKernel k'.toKernel q

/-- Where a page can be in a page table. -/
inductive Place where
  | root
  | mid (i : Nat)
  | low (i : Nat)
  | leaf (q : Nat)

def Place.Is (pt : Pagetable) (x : Nat) : Place → Prop
  | .root => pt.root = x
  | .mid i => pt.mid i = some x
  | .low i => pt.low i = some x
  | .leaf q => pt.frame q = some x

/-- What a page of memory can be used for. -/
inductive Role where
  | free
  | pipe
  | held (p : ProcId) (place : Place)

def Role.Is (k : Kernel) (x : Nat) : Role → Prop
  | .free => x ∈ k.memory.freelist
  | .pipe => x ∈ k.pipes
  | .held p place => ∃ pt, (k.proc p).pagetable = some pt ∧ place.Is pt x

/-- How often a page has roles of a kind. -/
def Role.weight (k : Kernel) (x : Nat) : Role → Nat
  | .free => k.memory.freelist.count x
  | .pipe => k.pipes.count x
  | .held p _ => Pages.held (k.proc p) x

/-- What a program sees at an address, and a register of it that is saved. -/
def sees (k : Kernel) (p : ProcId) (va : Nat) : Option UInt8 :=
  (k.proc p).pagetable.bind fun pt => pt.user k.memory va
def saved (k : Kernel) (p : ProcId) (r : Nat) : Nat := (k.memory.mem (k.proc p).trapframe).le r 8

/-- Other processes run for a while, and no parent waits for the process at `q`. -/
inductive Away (q : ProcId) (k : Kernel) : Kernel → Prop where
  | here : Away q k k
  | event {p : ProcId} {e : Event} {k' k'' : Kernel} : Away q k k' → p ≠ q →
      (k'.proc p).state = .running → e.Allowed p k' →
      e.run p k' = .ok ((), k'') → (k''.proc q).state ≠ .unused → Away q k k''
  | moves {p : ProcId} {state : ProcState} {k' : Kernel} : Away q k k' → Live (k'.proc p).state → Live state →
      Away q k { k' with proc := update k'.proc p { k'.proc p with state } }

section Runs

variable {boot k k' : Kernel} {p q : ProcId} {x : Nat}

theorem onFork_ends {α : Type} {m : ForkM α} {E : String → Prop} {Q : α → Kernel → Prop}
    (ends : Ends m k.toKernel E fun a k' => Q a { k with toKernel := k' }) : Ends (onFork m) k E Q :=
  .part ends

theorem Moved.worked {k' : Fork.Kernel} (moved : Moved boot k.pipes (· = p) k.toKernel k') :
    Worked boot k { k with toKernel := k' } p :=
  ⟨moved.orderly, fun other _ _ => (moved.spared other).kept⟩

/-- The page of a pipe is no page of a process. -/
theorem Orderly.buffer (orderly : Orderly boot k.pipes k.toKernel) (booted : Booted boot) {pi : Nat}
    (member : pi ∈ k.pipes) :
    pi ≠ boot.memory.trampoline ∧ 0 < boot.memory.freelist.count pi ∧ ∀ q, held (k.proc q) pi = 0 := by
  have other : pi ≠ boot.memory.trampoline := by
    rintro rfl
    exact orderly.buffers member
  have some := List.count_pos_iff.mpr member
  have once := booted.count_le pi
  have sum := orderly.balance other
  refine ⟨other, by omega, fun q => ?_⟩
  have shares := orderly.shares other q
  omega

/-- What the pages of pipes are used for is nothing to a process. -/
theorem Orderly.piped (orderly : Orderly boot k.pipes k.toKernel) {s : Memory} {pipes : List Nat}
    (kernelEnd : s.kernelEnd = k.memory.kernelEnd) (trampoline : s.trampoline = k.memory.trampoline)
    (free : ∀ x ∈ s.freelist, x ≠ boot.memory.trampoline) (buffers : ∀ x ∈ pipes, x ≠ boot.memory.trampoline)
    (count : ∀ x, s.freelist.count x + pipes.count x = k.memory.freelist.count x + k.pipes.count x)
    (mem : ∀ x q, 0 < held (k.proc q) x → s.mem x = k.memory.mem x) :
    Worked boot k { k with memory := s, pipes } p := by
  refine ⟨⟨kernelEnd.trans orderly.kernelEnd, trampoline.trans orderly.trampoline, fun listed =>
    free _ listed rfl,
    fun listed => buffers _ listed rfl, orderly.fine, fun {x} other => ?_, orderly.refs⟩,
    fun _ _ _ => ⟨rfl, fun {x} => mem x _⟩⟩
  rw [← orderly.balance other]
  exact congrArg (· + _) (count x)

theorem Event.run_ends (booted : Booted boot) (orderly : Orderly boot k.pipes k.toKernel)
    (running : (k.proc p).state = .running)
    {e : Event} (allowed : e.Allowed p k) : Ends (e.run p) k Stops fun _ k' => Worked boot k k' p := by
  -- a result is written to the trapframe
  have result {k₁ : Fork.Kernel} (goes : Goes boot k.pipes k.toKernel k₁ p) (r : Int) :
      Ends (setResult p r) k₁ Stops fun _ k' => Worked boot k { k with toKernel := k' } p :=
    (setResult_ends booted goes.orderly goes.running r).mono fun _ k' goes' =>
      (goes.trans goes').toMoved.worked
  cases e with
  | store va b => exact onFork_ends ((store_ends booted orderly running va b).mono fun _ _ goes =>
      goes.toMoved.worked)
  | uservec registers =>
    exact onFork_ends (.bind_run (rfl : (get : ForkM Fork.Kernel) _ = .ok (_, _)) (.part (Ends.modify
      (orderly.frame_goes booted running ..).toMoved.worked)))
  | fork =>
    refine onFork_ends ((fork_ends booted orderly running).bind fun r k₁ moved => ?_)
    have mine := moved.spared (p := p) (by rw [running]; nofun)
    have running₁ : (k₁.proc p).state = .running := by rw [mine.slot]; exact running
    refine (setResult_ends booted moved.orderly running₁ r).mono fun _ k' goes =>
      ⟨goes.orderly, fun other used _ => ?_⟩
    exact ((moved.spared used).trans (goes.spared other)).kept
  | exec fs =>
    refine onFork_ends (((exec_ends booted orderly running allowed).weaken fun _ => .inl).bind
      fun r k₁ goes => result goes r)
  | sbrk n => exact onFork_ends ((sbrk_ends booted orderly running n).bind fun r k₁ goes => result goes r)
  | exit status =>
    exact onFork_ends (((exit_ends booted orderly running status).weaken fun _ => .inr).mono
      fun _ _ moved => moved.worked)
  | wait addr =>
    refine onFork_ends ((wait_ends booted orderly running addr).bind fun r k₁ ⟨moved, running₁⟩ => ?_)
    have back {k' : Fork.Kernel} (moved' : Moved boot k.pipes (· = p) k₁ k') :
      Worked boot k { k with toKernel := k' } p := by
      refine ⟨moved'.orderly, fun {q} other _ used => ((moved.spared ?_).trans (moved'.spared other)).kept⟩
      rintro (same | unused)
      · exact other same
      · refine used ?_
        show (k'.proc q).state = _
        rw [(moved'.spared other).slot]
        exact unused
    cases r with
    | some r => exact (setResult_ends booted moved.orderly running₁ r).mono fun _ k' goes => back goes.toMoved
    | none =>
      refine Ends.modify (back (moved.orderly.slot_moved booted _ (by rw [running₁]; nofun) rfl
        rfl rfl nofun nofun fun _ => rfl))
  | kill pid =>
    refine onFork_ends ((kill_ends orderly running pid).bind fun r k₁ ⟨orderly₁, running₁, kept⟩ => ?_)
    refine (setResult_ends booted orderly₁ running₁ r).mono fun _ k' goes =>
      ⟨goes.orderly, fun {q} other _ _ => ?_⟩
    exact (kept q).trans (goes.spared other).kept
  | copyout dstva src len =>
    exact onFork_ends ((copyout_ends booted orderly running dstva src len).bind fun _ _ goes =>
      Ends.pure goes.toMoved.worked)
  | pipealloc =>
    refine Ends.bind (Q := fun _ k' => Worked boot k k' p) ?_ fun _ _ worked => Ends.pure worked
    refine .seq (onFork_ends (.part
      ((((kalloc_safe k.memory).ends.and (kalloc_gives (F := (· ∈ k.memory.freelist)) fun _ => id)).weaken
      fun _ => False.elim).mono fun r s ⟨same, uses, mem, way⟩ => ?_)))
    obtain ⟨rfl, rfl, -⟩ | ⟨pi, rfl, list⟩ := way
    · exact Ends.pure orderly.stays.worked
    · refine .seq (Ends.modify (Ends.pure (orderly.piped same uses.trampoline (fun x listed => ?_)
        (fun x member => ?_) (fun x => ?_)
        fun x q _ => congrFun mem x)))
      · rintro rfl
        exact orderly.spare (uses.free _ listed)
      · rintro rfl
        obtain rfl | member := List.mem_cons.mp member
        · exact orderly.spare (list ▸ List.mem_cons_self ..)
        · exact orderly.buffers member
      · show s.freelist.count x + (pi :: k.pipes).count x = _
        rw [list, count_cons, count_cons]
        omega
  | pipewrite pi a n src =>
    obtain ⟨member, -⟩ := allowed
    obtain ⟨other, -, none⟩ := orderly.buffer booted member
    refine onFork_ends (.part (Ends.modify (orderly.piped (s := k.memory.write pi a n src) rfl rfl
      (fun x listed => ?_) (fun x member => ?_)
      (fun _ => rfl) fun x q some => update_of_ne ?_ _ _)))
    · rintro rfl
      exact orderly.spare listed
    · rintro rfl
      exact orderly.buffers member
    · rintro rfl
      rw [none] at some
      cases some
  | pipeclose pi =>
    obtain ⟨other, some, none⟩ := orderly.buffer booted allowed
    have valid := booted.valid some
    rw [← orderly.kernelEnd] at valid
    have freed := (kfree_safe valid).ends.and (kfree_gives (F := fun x => x ∈ k.memory.freelist ∨
      x = pi) (fun _ => .inl) (.inr rfl))
    refine .seq (onFork_ends (.part ((freed.weaken fun _ => False.elim).mono fun _ s ⟨same, uses,
      list⟩ => Ends.modify ?_)))
    refine orderly.piped same uses.trampoline (fun x listed => ?_) (fun x member => ?_)
      (fun x => ?_) fun x q held => ?_
    · rintro rfl
      exact (uses.free _ listed).elim orderly.spare other.symm
    · rintro rfl
      exact orderly.buffers (List.mem_of_mem_erase member)
    · have erased := (List.perm_cons_erase allowed).count_eq x
      show s.freelist.count x + (k.pipes.erase pi).count x = _
      rw [list, erased, count_cons, count_cons]
      omega
    · refine uses.mem (not_or.mpr ⟨orderly.unlisted (p := q) booted held, ?_⟩)
      rintro rfl
      rw [none] at held
      cases held
  | files ofile fileRef =>
    refine onFork_ends (.seq (Ends.modify
      (Ends.modify (orderly.slot_moved booted { k.proc p with ofile } ?_ rfl rfl rfl ?_ ?_ allowed).worked)))
    · rw [running]
      nofun
    · dsimp only
      rw [running]
      nofun
    · dsimp only
      rw [running]
      nofun

theorem Place.inside {pt : Pagetable} (sound : pt.Sound) : (∀ {i}, pt.mid i ≠ none → i < 2 ^ 9) ∧
    (∀ {i}, pt.low i ≠ none → i < 2 ^ 18) ∧
    ∀ {q}, pt.frame q ≠ none → q < 2 ^ 27 := by
  have low {i : Nat} (some : pt.low i ≠ none) : i < 2 ^ 18 := by
    have above := sound.mid (sound.low some)
    omega
  refine ⟨sound.mid, low, fun {q} some => ?_⟩
  have there : pt.leaf q ≠ none := fun none => some (by rw [Pagetable.frame, none, Option.map_none])
  have above := low (sound.leaf there)
  omega

/-- How often a page is at a place of the kind of this one. -/
def Place.alike (pt : Pagetable) (x : Nat) : Place → Nat
  | .root => if pt.root = x then 1 else 0
  | .mid _ => tally pt.mid x (2 ^ 9)
  | .low _ => tally pt.low x (2 ^ 18)
  | .leaf _ => tally pt.frame x (2 ^ 27)

theorem Place.alike_pos {pt : Pagetable} (sound : pt.Sound) {place : Place} (here : place.Is pt x) :
    0 < place.alike pt x := by
  obtain ⟨mid, low, frame⟩ := Place.inside sound
  cases place with
  | root =>
    have same : pt.root = x := here
    show 0 < if pt.root = x then 1 else 0
    rw [if_pos same]
    exact Nat.one_pos
  | mid i =>
    have there : pt.mid i = some x := here
    exact Tally.pos_iff.mpr ⟨i, mid (by rw [there]; nofun), there⟩
  | low i =>
    have there : pt.low i = some x := here
    exact Tally.pos_iff.mpr ⟨i, low (by rw [there]; nofun), there⟩
  | leaf q =>
    have there : pt.frame q = some x := here
    exact Tally.pos_iff.mpr ⟨q, frame (by rw [there]; nofun), there⟩

/-- A page that is in a page table has a place there. -/
theorem Place.exists_of {pt : Pagetable} (some : 0 < pt.owned x) : ∃ place : Place, place.Is pt x := by
  unfold Pagetable.owned Pagetable.tables at some
  by_cases root : pt.root = x
  · exact ⟨.root, root⟩
  rw [if_neg root] at some
  by_cases mid : 0 < tally pt.mid x (2 ^ 9)
  · obtain ⟨i, -, here⟩ := Tally.pos_iff.mp mid
    exact ⟨.mid i, here⟩
  by_cases low : 0 < tally pt.low x (2 ^ 18)
  · obtain ⟨i, -, here⟩ := Tally.pos_iff.mp low
    exact ⟨.low i, here⟩
  · obtain ⟨q, -, here⟩ := Tally.pos_iff.mp (by omega : 0 < tally pt.frame x (2 ^ 27))
    exact ⟨.leaf q, here⟩

/-- A page that is in a page table once is at one place. -/
theorem Place.unique {pt : Pagetable} (sound : pt.Sound) (once : pt.owned x ≤ 1) {a b : Place}
    (here : a.Is pt x) (there : b.Is pt x) :
    a = b := by
  obtain ⟨mid, low, frame⟩ := Place.inside sound
  have first := Place.alike_pos sound here
  have second := Place.alike_pos sound there
  unfold Pagetable.owned Pagetable.tables at once
  unfold Place.alike at first second
  unfold Place.Is at here there
  cases a <;> cases b <;> dsimp only at first second here there
  case root.root => rfl
  case mid.mid i j =>
    rw [Tally.unique (by omega) (mid (here ▸ Option.some_ne_none x))
      (mid (there ▸ Option.some_ne_none x)) here there]
  case low.low i j =>
    rw [Tally.unique (by omega) (low (here ▸ Option.some_ne_none x))
      (low (there ▸ Option.some_ne_none x)) here there]
  case leaf.leaf i j =>
    rw [Tally.unique (by omega) (frame (here ▸ Option.some_ne_none x))
      (frame (there ▸ Option.some_ne_none x)) here there]
  all_goals omega

theorem Place.owned_pos {pt : Pagetable} (sound : pt.Sound) {place : Place} (here : place.Is pt x) :
    0 < pt.owned x := by
  have some := Place.alike_pos sound here
  unfold Place.alike at some
  unfold Pagetable.owned Pagetable.tables
  cases place <;> dsimp only at some <;> omega

theorem Live.used {state : ProcState} (live : Live state) : state ≠ .unused ∧ state ≠ .zombie := by
  obtain rfl | rfl | rfl := live <;> exact ⟨nofun, nofun⟩

/-- A process is scheduled or goes to sleep. -/
theorem Orderly.moves (orderly : Orderly boot k.pipes k.toKernel) (booted : Booted boot) {state : ProcState}
    (live : Live (k.proc p).state)
    (live' : Live state) : Moved boot k.pipes (· = p) k.toKernel { k.toKernel with
      proc := update k.proc p { k.proc p with state } } :=
  orderly.slot_moved booted _ live.used.1 rfl rfl rfl live'.used.1
  (fun wrong => absurd wrong live'.used.2) fun _ => rfl

/-- What holds in every kernel that can come about. -/
theorem Reach.orderly (booted : Booted boot) (reach : Reach boot k) : Orderly boot k.pipes k.toKernel := by
  induction reach with
  | @userinit root k run =>
    have orderly := (userinit_orderly booted root).gives _ _ run
    show Orderly boot boot.pipes k
    rwa [booted.pipes]
  | step _ step ih =>
    cases step with
    | event running allowed run => exact ((Event.run_ends booted ih running allowed).gives _ _ run).orderly
    | moves live live' => exact (ih.moves booted live live').orderly

/-- In every kernel that can come about, whatever the processes do and whatever allocations fail, each page of
memory is free, or it holds a pipe, or it is at one place in one page table, and only one of these, once;
other pages but the trampoline are nowhere. -/
theorem page_roles (booted : Booted boot) (reach : Reach boot k) : k.memory.freelist.Nodup ∧ k.pipes.Nodup ∧
    (∀ x ∈ boot.memory.freelist, ∃! role : Role, role.Is k x) ∧
    ∀ x ∉ boot.memory.freelist, x ≠ boot.memory.trampoline → ∀ role : Role, ¬role.Is k x := by
  have orderly := reach.orderly booted
  have sound {p : ProcId} {pt : Pagetable} (table : (k.proc p).pagetable = some pt) : pt.Sound := by
    cases orderly.fine p with
    | blank _ blank =>
      rw [blank.pagetable] at table
      cases table
    | backed _ _ space =>
      obtain rfl := Option.some.inj (space.pagetable.symm.trans table)
      exact space.shaped.sound
  have weigh {x : Nat} {role : Role} (here : role.Is k x) : 0 < role.weight k x := by
    cases role with
    | held p place =>
      obtain ⟨pt, table, there⟩ := here
      show 0 < held (k.proc p) x
      rw [held_of table]
      exact Place.owned_pos (sound table) there
    | _ => exact List.count_pos_iff.mpr here
  -- the trampoline is neither free nor in a pipe
  have once (x : Nat) : k.memory.freelist.count x ≤ 1 ∧ k.pipes.count x ≤ 1 := by
    by_cases top : x = boot.memory.trampoline
    · rw [top, List.count_eq_zero.mpr orderly.spare, List.count_eq_zero.mpr orderly.buffers]
      omega
    · have shares := orderly.shares top initproc
      have one := booted.count_le x
      omega
  refine ⟨List.nodup_iff_count_le_one.mpr fun x => (once x).1, List.nodup_iff_count_le_one.mpr
    fun x => (once x).2,
    fun x page => ?_, fun x out other role here => ?_⟩
  · have other : x ≠ boot.memory.trampoline := by
      rintro rfl
      exact booted.orderly.spare page
    have sum := orderly.balance other
    have one := booted.count_le x
    have some := List.count_pos_iff.mpr page
    have unique (role role' : Role) (here : role.Is k x) (there : role'.Is k x) : role = role' := by
      have first := weigh here
      have second := weigh there
      unfold Role.weight at first second
      cases role <;> cases role' <;> dsimp only at first second
      case free.free => rfl
      case pipe.pipe => rfl
      case free.pipe | pipe.free =>
        have less := orderly.shares other initproc
        omega
      case free.held p _ | pipe.held p _ | held.free p _ | held.pipe p _ =>
        have less := orderly.shares other p
        omega
      case held.held p place p' place' =>
        by_cases same : p = p'
        · subst same
          obtain ⟨pt, table, here⟩ := here
          obtain ⟨pt', table', there⟩ := there
          obtain rfl := Option.some.inj (table.symm.trans table')
          have less := orderly.shares other p
          rw [held_of table] at less
          rw [Place.unique (sound table) (by omega) here there]
        · have less := orderly.apart other same
          omega
    suffices ∃ role : Role, role.Is k x from this.elim fun role here => ⟨role, here,
      fun role' there => unique role' role there here⟩
    by_cases free : x ∈ k.memory.freelist
    · exact ⟨.free, free⟩
    by_cases pipe : x ∈ k.pipes
    · exact ⟨.pipe, pipe⟩
    rw [List.count_eq_zero.mpr free, List.count_eq_zero.mpr pipe] at sum
    obtain ⟨p, there⟩ := Shares.pos_of_sum (c := fun slot => held slot x) (g := k.proc) (by omega)
    cases table : (k.proc p).pagetable with
    | none =>
      rw [held_none table] at there
      cases there
    | some pt =>
      rw [held_of table] at there
      obtain ⟨place, here⟩ := Place.exists_of there
      exact ⟨.held p place, pt, table, here⟩
  · have none : boot.memory.freelist.count x = 0 := List.count_eq_zero.mpr out
    have some := weigh here
    unfold Role.weight at some
    cases role with
    | held p place =>
      have less := orderly.shares other p
      dsimp only at some
      omega
    | _ =>
      have less := orderly.shares other initproc
      dsimp only at some
      omega

/-- The pages below the size of a process are mapped, its trapframe and the trampoline, and nothing else. -/
theorem page_tables (booted : Booted boot) (reach : Reach boot k) (used : (k.proc p).state ≠ .unused) :
    ∃ pt, (k.proc p).pagetable = some pt ∧ (k.proc p).sz ≤ TRAPFRAME ∧
      (∀ q, pt.leaf q ≠ none ↔ q < PGROUNDUP (k.proc p).sz / PGSIZE ∨ q = TRAPFRAME / PGSIZE ∨
        q = TRAMPOLINE / PGSIZE) ∧
      pt.leaf (TRAMPOLINE / PGSIZE) = some ⟨boot.memory.trampoline, ⟨true, false, true, false⟩⟩ ∧
      pt.leaf (TRAPFRAME / PGSIZE) = some ⟨(k.proc p).trapframe, ⟨true, true, false, false⟩⟩ ∧
      ∀ q pte, pt.leaf q = some pte → q ≠ TRAMPOLINE / PGSIZE → pte.pa ∈ boot.memory.freelist := by
  have orderly := reach.orderly booted
  obtain ⟨pt, space⟩ := orderly.space used
  have shaped := space.shaped
  refine ⟨pt, space.pagetable, shaped.small, fun q => ?_, shaped.top, shaped.frame, fun q pte here top => ?_⟩
  · by_cases top : q = TRAMPOLINE / PGSIZE
    · rw [top, shaped.top]
      exact ⟨fun _ => .inr (.inr rfl), fun _ => Option.some_ne_none _⟩
    by_cases frame : q = TRAPFRAME / PGSIZE
    · rw [frame, shaped.frame]
      exact ⟨fun _ => .inr (.inl rfl), fun _ => Option.some_ne_none _⟩
    rw [shaped.user top frame]
    exact ⟨.inl, fun way => way.resolve_right (not_or.mpr ⟨frame, top⟩)⟩
  · have framed := shaped.sound.framed here
    have other : pte.pa ≠ boot.memory.trampoline := by
      intro same
      have last := pages_last
      have inside := (Place.inside shaped.sound).2.2 (q := q)
        (by rw [Pagetable.frame, here]; exact Option.some_ne_none _)
      have two := twice top inside (by omega) here shaped.top same rfl
      have one := space.top_held
      omega
    have shares := orderly.shares other p
    rw [held_of space.pagetable] at shares
    unfold Pagetable.owned at shares
    exact List.count_pos_iff.mp (by omega)

/-- Nothing that a process does makes the kernel stop, except that the first process exits or that a path is
followed when the inode table is full. -/
theorem no_panics (booted : Booted boot) (reach : Reach boot k)
    (running : (k.proc p).state = .running) {e : Event}
    (allowed : e.Allowed p k) {m : String} (stop : e.run p k = .error m) : Stops m := by
  have ends := Event.run_ends booted (reach.orderly booted) running allowed
  unfold Ends at ends
  rwa [stop] at ends

theorem Away.reach {k₀ : Kernel} (reach : Reach boot k₀) (away : Away q k₀ k) : Reach boot k := by
  induction away with
  | here => exact reach
  | event _ _ running allowed run _ ih => exact ih.step (.event running allowed run)
  | moves _ live live' ih => exact ih.step (.moves live live')

/-- A process that is not running, and that no parent waits for, keeps its memory, its registers, its files and
its directory, whatever the others do; they can give it another parent, wake it up and kill it. -/
theorem isolation (booted : Booted boot) (reach : Reach boot k) (used : (k.proc q).state ≠ .unused)
    (away : Away q k k') :
    k'.proc q = { k.proc q with
      parent := (k'.proc q).parent, state := (k'.proc q).state, killed := (k'.proc q).killed } ∧
      (∀ va, sees k' q va = sees k q va) ∧
      ∀ r, saved k' q r = saved k q r := by
  have kept : k'.proc q = { k.proc q with
        parent := (k'.proc q).parent, state := (k'.proc q).state, killed := (k'.proc q).killed } ∧
      (k'.proc q).state ≠ .unused ∧ ∀ x, 0 < held (k.proc q) x → k'.memory.mem x = k.memory.mem x := by
    induction away with
    | here => exact ⟨rfl, used, fun _ _ => rfl⟩
    | @event p e k₁ k₂ away other running allowed run used' ih =>
      obtain ⟨slot, used₁, mem⟩ := ih
      have worked := (Event.run_ends booted ((away.reach reach).orderly booted) running allowed).gives _ _ run
      have kept := worked.spared other.symm used₁ used'
      refine ⟨kept.slot.trans (by rw [slot]), used', fun x there => (kept.mem ?_).trans (mem x there)⟩
      unfold held
      rw [slot]
      exact there
    | @moves p state k₁ away live live' ih =>
      obtain ⟨slot, used₁, mem⟩ := ih
      dsimp only
      by_cases here : q = p
      · subst here
        rw [update_self]
        exact ⟨by rw [slot], live'.used.1, mem⟩
      · rw [update_of_ne here]
        exact ⟨slot, used₁, mem⟩
  obtain ⟨slot, -, mem⟩ := kept
  obtain ⟨pt, space⟩ := (reach.orderly booted).space used
  have table : (k'.proc q).pagetable = some pt := by rw [slot]; exact space.pagetable
  have frame : (k'.proc q).trapframe = (k.proc q).trapframe := by rw [slot]
  refine ⟨slot, fun va => ?_, fun r => ?_⟩
  · unfold sees
    rw [table, space.pagetable, Option.bind_some, Option.bind_some]
    unfold Pagetable.user
    cases here : pt.leaf (va / PGSIZE) with
    | none => rfl
    | some pte =>
      have framed := space.shaped.sound.framed here
      dsimp only
      rw [mem pte.pa (by rw [held_of space.pagetable]; unfold Pagetable.owned; omega)]
  · unfold saved
    rw [frame, mem _ (by rw [held_of space.pagetable]; exact space.frame_held)]

end Runs

/-- A kernel that has booted, with twenty free pages. -/
def start : Kernel where
  memory := ⟨0x80022000, 0x80007000, fun _ _ => 7, (List.range 20).map fun i => 0x87F00000 + 4096 *
    i, fun _ _ => false⟩
  proc _ := ⟨.unused, 0, 0, 0, 0, none, 0x3FFFFFD000, 0, none, 0, fun _ => 0, fun _ => none, 0, fun _ => 0, 0⟩
  nextpid := 1
  fileRef := fun _ => 0
  inodeRef := fun _ => 0
  forkret := 0x80001000
  pipes := []

theorem start_booted : Booted start where
  nodup := by decide
  kernelEnd := by decide
  pages := by decide +kernel
  trampoline := by decide
  unused _ := rfl
  blank _ := ⟨rfl, rfl, rfl, fun _ => rfl⟩
  pipes := rfl
  closed _ := rfl
  enough := by decide

/-- The state after a program that does not fail. -/
def after {σ : Type} (m : StateT σ (Except String) Unit) (s : σ) : σ :=
  match m s with
  | .ok (_, s') => s'
  | .error _ => s

theorem after_run {σ : Type} {m : StateT σ (Except String) Unit} {s : σ} (fine : (m s).isOk = true) :
    m s = .ok ((), after m s) := by
  unfold after
  cases run : m s with
  | ok r => rfl
  | error e =>
    rw [run] at fine
    cases fine

/-- The first process is made and scheduled; it makes another one, gets a page more of memory, and kills the
other. -/
def first : Kernel := { start with toKernel := after (userinit 1) start.toKernel }
def scheduled : Kernel := { first with
      proc := update first.proc initproc { first.proc initproc with state := .running } }
def forked : Kernel := after (Event.fork.run initproc) scheduled
def grown : Kernel := after ((Event.sbrk 4096).run initproc) forked
def killed : Kernel := after ((Event.kill 2).run initproc) grown

def child : ProcId := ⟨1, one_lt_NPROC⟩

/-- The run, evaluated. -/
theorem grown_values : ((userinit 1 start.toKernel).isOk = true ∧
        (Event.fork.run initproc scheduled).isOk = true ∧
      ((Event.sbrk 4096).run initproc forked).isOk = true ∧ ((Event.kill 2).run initproc grown).isOk = true) ∧
    ((first.proc initproc).state = .runnable ∧ (scheduled.proc initproc).state = .running ∧
      (forked.proc initproc).state = .running ∧ (grown.proc initproc).state = .running) ∧
    ((forked.proc child).state ≠ .unused ∧ (grown.proc child).state ≠ .unused ∧
      (killed.proc child).state ≠ .unused) ∧
    (killed.proc initproc).sz = 8192 ∧ (killed.proc child).killed = 1 := by
  decide +kernel

theorem scheduled_reach : Reach start scheduled := by
  have run := after_run (m := userinit 1) (s := start.toKernel) grown_values.1.1
  have reach : Reach start first := .userinit run
  refine reach.step (.moves ?_ (.inr (.inr rfl)))
  exact .inr (.inl grown_values.2.1.1)

theorem forked_run : Event.fork.run initproc scheduled = .ok ((), forked) := after_run grown_values.1.2.1

theorem forked_reach : Reach start forked :=
  scheduled_reach.step (.event (p := initproc) (e := .fork) grown_values.2.1.2.1 trivial forked_run)

theorem page_roles_start : ∃ role : Role, role.Is forked 0x87F00000 :=
  ((page_roles start_booted forked_reach).2.2.1 0x87F00000 (by decide)).exists

theorem page_tables_start : ∃ pt, (forked.proc child).pagetable = some pt ∧ ∀ q, pt.leaf q ≠ none ↔
    q < PGROUNDUP (forked.proc child).sz / PGSIZE ∨ q = TRAPFRAME / PGSIZE ∨ q = TRAMPOLINE / PGSIZE := by
  obtain ⟨pt, table, -, leaf, -⟩ := page_tables (p := child) start_booted forked_reach grown_values.2.2.1.1
  exact ⟨pt, table, leaf⟩

theorem exit_stops (k : Kernel) : (Event.exit 0).run initproc k = .error "init exiting" := by
  have stops : Pages.exit initproc 0 k.toKernel = .error "init exiting" := by
    unfold Pages.exit
    rw [if_pos rfl]
    rfl
  show onFork (Pages.exit initproc 0) k = _
  unfold onFork zoom
  rw [stops]

theorem no_panics_start : Stops "init exiting" :=
  no_panics start_booted scheduled_reach grown_values.2.1.2.1 (e := .exit 0) trivial (exit_stops scheduled)

theorem isolation_start : (killed.proc initproc).sz = 8192 ∧ (killed.proc child).killed = 1 ∧
    ∀ va, sees killed child va = sees forked child va := by
  have run : (Event.sbrk 4096).run initproc forked = .ok ((), grown) := after_run grown_values.1.2.2.1
  have run' : (Event.kill 2).run initproc grown = .ok ((), killed) := after_run grown_values.1.2.2.2
  have away : Away child forked grown :=
    .event (p := initproc) (e := .sbrk 4096) .here (by decide) grown_values.2.1.2.2.1 trivial run
    grown_values.2.2.1.2.1
  have away' : Away child forked killed :=
    .event (p := initproc) (e := .kill 2) away (by decide) grown_values.2.1.2.2.2 trivial run' grown_values.2.2.1.2.2
  have kept := (isolation start_booted forked_reach grown_values.2.2.1.1 away').2.1
  exact ⟨grown_values.2.2.2.1, grown_values.2.2.2.2, kept⟩

end Xv6.Pages
