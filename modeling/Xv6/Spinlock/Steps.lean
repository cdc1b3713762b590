import Xv6.Spinlock.Machine

namespace Xv6.Spinlock
open Threads
open Function (update)

variable {L : Type}

/-- What a flow of control relies on between its own steps: the processor it executes on, the locks taken
on it, each with whether its `cpu` says so, and what is recorded of it. -/
@[ext] structure View (L : Type) where
  inside : Bool
  core : Core
  held : Lock L → Option Bool
  opens : Nat
  raised : Option Bool
  picked : Option ProcId

/-- A flow of control that waits to be switched to. -/
def View.away (opens : Nat) (raised : Option Bool) (picked : Option ProcId) : View L :=
  ⟨false, ⟨false, 0, false⟩, fun _ => none, opens, raised, picked⟩

namespace State

variable (s : State L)

/-- The locks taken on a processor. -/
def held (c : Cpu) (lk : Lock L) : Option Bool :=
  if s.owner lk = some c then some (s.lkCpu lk = some c) else none

def picked : Tid → Option ProcId
  | .cpu c => s.cpuProc c
  | .proc _ => none

def view (t : Tid) : View L := match s.seat t with
  | some c => ⟨true, s.core c, s.held c, s.opens t, s.raised t, s.picked t⟩
  | none => .away (s.opens t) (s.raised t) (s.picked t)

variable {s} {t : Tid} {c : Cpu}

theorem seat_eq : s.seat t = some c ↔ s.place t = .on c := by
  unfold seat
  cases s.place t <;> simp

theorem seat_none : s.seat t = none ↔ ∀ c, s.place t ≠ .on c := by
  unfold seat
  cases s.place t <;> simp

theorem cpu_of_seat (seat : s.seat t = some c) : (s.place t).cpu = some c := by
  rw [seat_eq.mp seat]
  rfl

theorem view_seat (seat : s.seat t = some c) :
    s.view t = ⟨true, s.core c, s.held c, s.opens t, s.raised t, s.picked t⟩ := by
  rw [view, seat]

theorem view_away (seat : s.seat t = none) : s.view t = .away (s.opens t) (s.raised t) (s.picked t) := by
  rw [view, seat]

theorem seat_of_inside (inside : (s.view t).inside = true) : ∃ c, s.seat t = some c := by
  cases seat : s.seat t with
  | some c => exact ⟨c, rfl⟩
  | none =>
    rw [view_away seat] at inside
    cases inside

end State

variable {s s' : State L} {t u : Tid} {c : Cpu} {v : View L}

open State

/-- A step of a flow of control on its processor leaves the others alone. -/
structure Local (t : Tid) (c : Cpu) (s s' : State L) : Prop where
  place : s'.place = s.place
  core : ∀ c', c' ≠ c → s'.core c' = s.core c'
  held : ∀ c', c' ≠ c → s'.held c' = s.held c'
  cpuProc : ∀ c', t ≠ .cpu c' → s'.cpuProc c' = s.cpuProc c'
  opens : ∀ u, u ≠ t → s'.opens u = s.opens u
  raised : ∀ u, u ≠ t → s'.raised u = s.raised u

theorem Local.seat (h : Local t c s s') : s'.seat = s.seat := by
  funext u
  rw [State.seat, State.seat, h.place]

theorem fields (seat : s.seat t = some c) (view : s.view t = v) :
    s.core c = v.core ∧ s.held c = v.held ∧ s.opens t = v.opens ∧ s.raised t = v.raised ∧
    s.picked t = v.picked := by
  subst view
  rw [view_seat seat]
  exact ⟨rfl, rfl, rfl, rfl, rfl⟩

theorem held_owner {lk : Lock L} {taken : Bool} (seat : s.seat t = some c) (view : s.view t = v)
    (held : v.held lk = some taken) :
    s.owner lk = some c ∧ taken = decide (s.lkCpu lk = some c) := by
  rw [← (fields seat view).2.1, State.held] at held
  split at held
  next own => exact ⟨own, (Option.some.inj held).symm⟩
  next => cases held

theorem Local.setCore {new : Core} : Local t c s (s.setCore c new) :=
  ⟨rfl, fun _ apart => Function.update_of_ne apart .., fun _ _ => rfl, fun _ _ => rfl,
    fun _ _ => rfl, fun _ _ => rfl⟩

@[simp] theorem setCore_core {new : Core} : (s.setCore c new).core c = new := Function.update_self ..

variable [DecidableEq L]

/-- One lock and no other. -/
def only (p : ProcId) : Lock L → Option Bool := update (fun _ => none) (.proc p) (some true)

@[simp] theorem only_self {p : ProcId} : only p (.proc p : Lock L) = some true := Function.update_self ..

theorem only_of_ne {p : ProcId} {lk : Lock L} (other : lk ≠ .proc p) : only p lk = none :=
  Function.update_of_ne other ..

/-- A processor that is switched from one flow of control to another. -/
structure Handed (s : State L) (c : Cpu) (p : ProcId) : Prop where
  noff : (s.core c).noff = 1
  held : s.held c = only p

/-- Who has the locks. -/
structure Locks (s : State L) : Prop where
  locked : ∀ lk, s.locked lk = (s.owner lk).isSome
  lkCpu : ∀ {lk c}, s.lkCpu lk = some c → s.owner lk = some c

/-- Every return of `noff` to 0 left the interrupts as they had been. -/
def Restored (returns : List (ProcId × Bool × Bool)) : Prop := ∀ r ∈ returns, r.2.2 = r.2.1

structure Inv (s : State L) : Prop where
  alone : ∀ {t u c}, (s.place t).cpu = some c → (s.place u).cpu = some c → t = u
  home : ∀ {c c'}, (s.place (.cpu c)).cpu = some c' → c' = c
  cpuProc : ∀ {p c}, (s.place (.proc p)).cpu = some c → s.cpuProc c = some p
  handed : ∀ {t c}, s.place t = .entering c → ∃ p, s.cpuProc c = some p ∧ Handed s c p
  off : ∀ c, 0 < (s.core c).noff → (s.core c).intr = false
  locks : Locks s
  restored : Restored s.returns

def outline (L : Type) [DecidableEq L] : Outline Tid (State L) (View L) (Act L) where
  inv := Inv
  view t s := s.view t
  guar t before after := ∀ other, other ≠ t → after.view other = before.view other
  allowed := State.allowed
  owes _ _ _ := True
  mayPanic _ _ _ _ := False

theorem outline_isolated : (outline L).Isolated := fun _ _ _ guar other different => guar other different

theorem Local.guar (h : Local t c s s') (inv : Inv s) (seat : s.seat t = some c) (different : u ≠ t) :
    s'.view u = s.view u := by
  have picked : s'.picked u = s.picked u := by
    cases u with
    | cpu c' => exact h.cpuProc c' (Ne.symm different)
    | proc p => rfl
  cases theirs : s.seat u with
  | none =>
    rw [view_away theirs, view_away (by rw [h.seat, theirs]), h.opens u different, h.raised u different,
      picked]
  | some c' =>
    have apart : c' ≠ c := fun same => different (inv.alone (cpu_of_seat theirs) (same ▸ cpu_of_seat seat))
    rw [view_seat theirs, view_seat (by rw [h.seat, theirs]), h.core c' apart, h.held c' apart,
      h.opens u different,
      h.raised u different, picked]

theorem Local.inv (h : Local t c s s') (inv : Inv s) (seat : s.seat t = some c)
    (off : 0 < (s'.core c).noff → (s'.core c).intr = false) (locks : Locks s')
    (restored : Restored s'.returns) :
    Inv s' where
  alone := by rw [h.place]; exact inv.alone
  home := by rw [h.place]; exact inv.home
  cpuProc {p c'} at' := by
    rw [h.place] at at'
    rw [h.cpuProc c']
    · exact inv.cpuProc at'
    · rintro rfl
      have here := inv.home (cpu_of_seat seat)
      subst here
      cases inv.alone at' (cpu_of_seat seat)
  handed {u c'} entering := by
    rw [h.place] at entering
    have at' : (s.place u).cpu = some c' := by rw [entering]; rfl
    have apart : c' ≠ c := by
      rintro rfl
      have same := inv.alone at' (cpu_of_seat seat)
      subst same
      rw [State.seat_eq.mp seat] at entering
      cases entering
    obtain ⟨p, picked, handed⟩ := inv.handed entering
    have other : t ≠ .cpu c' := by
      rintro rfl
      exact apart (inv.home (cpu_of_seat seat)).symm
    exact ⟨p, by rw [h.cpuProc c' other, picked], by rw [h.core c' apart, handed.noff],
      by rw [h.held c' apart, handed.held]⟩
  off c' := by
    by_cases same : c' = c
    · rw [same]; exact off
    · rw [h.core c' same]; exact inv.off c'
  locks := locks
  restored := restored

/-- A step is known by what it does on the processor of its flow of control. -/
theorem act_wp {a : Act L} {Q : a.Resp → View L → Prop} (inside : v.inside = true)
    (h : ∀ s c choice, Inv s → s.view t = v → s.seat t = some c → s.allowed t a →
      (outline L).After t a s Q (s.act t c choice a)) :
    wp (spinMachine L) (outline L) t a.run Q v := by
  refine wp_step fun s choice inv view => ⟨trivial, fun ok => ?_⟩
  subst view
  obtain ⟨c, seat⟩ := seat_of_inside inside
  have at' := seat_eq.mp seat
  have same : spinMachine L t choice a s = s.act t c choice a := by simp only [spinMachine, at']
  rw [same]
  exact h s c choice inv rfl seat ok

/-- A step after which all is as the view has it. -/
theorem stays {a : Act L} {answer : a.Resp} {Q : a.Resp → View L → Prop} (inv : Inv s) (view : s.view t = v)
    (post : Q answer v) : (outline L).After t a s Q (.ok answer s) := by
  subst view
  exact ⟨inv, fun _ _ => rfl, post⟩

section Reads

variable {lk : Lock L}

/-- A step that only reads, with an answer that the view gives. -/
theorem read_wp {a : Act L} {answer : a.Resp} {Q : a.Resp → View L → Prop} (inside : v.inside = true)
    (same : ∀ s c choice, Inv s → s.view t = v → s.seat t = some c → s.act t c choice a = .ok answer s)
    (post : Q answer v) : wp (spinMachine L) (outline L) t a.run Q v := by
  refine act_wp inside fun s c choice inv view seat _ => ?_
  rw [same s c choice inv view seat]
  exact stays inv view post

theorem intrGet_wp {Q : Bool → View L → Prop} (inside : v.inside = true) (post : Q v.core.intr v) :
    wp (spinMachine L) (outline L) t Act.intrGet.run Q v := by
  refine read_wp inside (fun s c _ _ view seat => ?_) post
  simp only [State.act, (fields seat view).1]

theorem getNoff_wp {Q : Nat → View L → Prop} (inside : v.inside = true) (post : Q v.core.noff v) :
    wp (spinMachine L) (outline L) t Act.getNoff.run Q v := by
  refine read_wp inside (fun s c _ _ view seat => ?_) post
  simp only [State.act, (fields seat view).1]

theorem getIntena_wp {Q : Bool → View L → Prop} (inside : v.inside = true) (post : Q v.core.intena v) :
    wp (spinMachine L) (outline L) t Act.getIntena.run Q v := by
  refine read_wp inside (fun s c _ _ view seat => ?_) post
  simp only [State.act, (fields seat view).1]

theorem choose_wp {Q : Nat → View L → Prop} (inside : v.inside = true) (post : ∀ n, Q n v) :
    wp (spinMachine L) (outline L) t Act.choose.run Q v :=
  act_wp inside fun _ _ choice inv view _ _ => stays inv view (post choice.1)

theorem nextCall_wp {Q : Call L → View L → Prop} (inside : v.inside = true) (post : ∀ k, Q k v) :
    wp (spinMachine L) (outline L) t Act.nextCall.run Q v :=
  act_wp inside fun _ _ choice inv view _ _ => stays inv view (post choice.2)

/-- The `cpu` of a lock is a processor only while that one has it. -/
theorem holding_wp {Q : Bool → View L → Prop} (inside : v.inside = true)
    (post : Q (v.held lk = some true) v) :
    wp (spinMachine L) (outline L) t (holding lk) Q v := by
  refine wp_bind (act_wp inside fun s c _ inv view seat _ => stays inv view ?_)
  have heldEq : v.held lk = s.held c lk := congrFun (fields seat view).2.1.symm lk
  cases locked : s.locked lk with
  | false =>
    have free : v.held lk ≠ some true := by
      have none := inv.locks.locked lk
      rw [locked] at none
      rw [heldEq, State.held, if_neg]
      · simp
      · intro own
        rw [own] at none
        cases none
    rw [decide_eq_false free] at post
    exact post
  | true =>
    refine read_wp inside (fun s c _ inv view seat => ?_) post
    have heldEq : v.held lk = s.held c lk := congrFun (fields seat view).2.1.symm lk
    simp only [State.act]
    congr 1
    refine decide_eq_decide.mpr ?_
    rw [heldEq, State.held]
    constructor
    · intro own
      simp [inv.locks.lkCpu own, own]
    · intro mine
      split at mine
      next => simpa using mine
      next => cases mine

end Reads

section Writes

variable {lk : Lock L}

/-- What a step leaves that touches only what its flow of control has for itself. -/
theorem Local.after {a : Act L} {answer : a.Resp} {Q : a.Resp → View L → Prop}
    (h : Local t c s s') (inv : Inv s)
    (seat : s.seat t = some c) (off : 0 < (s'.core c).noff → (s'.core c).intr = false) (locks : Locks s')
    (restored : Restored s'.returns)
    (post : Q answer ⟨true, s'.core c, s'.held c, s'.opens t, s'.raised t, s'.picked t⟩) :
    (outline L).After t a s Q (.ok answer s') := by
  refine ⟨h.inv inv seat off locks restored, fun other different => h.guar inv seat different, ?_⟩
  show Q answer (s'.view t)
  rw [view_seat (by rw [h.seat, seat])]
  exact post

/-- A step that changes what the processor has for itself. -/
theorem core_wp {a : Act L} {answer : a.Resp} (new : Core) {Q : a.Resp → View L → Prop}
    (inside : v.inside = true)
    (same : ∀ (s : State L) c choice, s.core c = v.core → s.act t c choice a = .ok answer (s.setCore c new))
    (off : 0 < new.noff → new.intr = false) (post : Q answer { v with core := new }) :
    wp (spinMachine L) (outline L) t a.run Q v := by
  refine act_wp inside fun s c choice inv view seat _ => ?_
  rw [same s c choice (fields seat view).1]
  refine Local.setCore.after inv seat (by simpa using off) ⟨inv.locks.locked, inv.locks.lkCpu⟩ inv.restored ?_
  subst view
  rw [view_seat seat] at post
  rw [setCore_core]
  exact post

theorem intrOff_wp {Q : Unit → View L → Prop} (inside : v.inside = true)
    (post : Q () { v with core := ⟨false, v.core.noff, v.core.intena⟩ }) :
    wp (spinMachine L) (outline L) t Act.intrOff.run Q v :=
  core_wp ⟨false, v.core.noff, v.core.intena⟩ inside (fun _ _ _ same => by rw [State.act, same])
  (fun _ => rfl) post

theorem intrOn_wp {Q : Unit → View L → Prop} (inside : v.inside = true) (zero : v.core.noff = 0)
    (post : Q () { v with core := ⟨true, v.core.noff, v.core.intena⟩ }) :
    wp (spinMachine L) (outline L) t Act.intrOn.run Q v :=
  core_wp ⟨true, v.core.noff, v.core.intena⟩ inside (fun _ _ _ same => by rw [State.act, same])
  (fun positive => absurd zero (Nat.ne_of_gt positive)) post

theorem incNoff_wp {Q : Unit → View L → Prop} (inside : v.inside = true) (off : v.core.intr = false)
    (post : Q () { v with core := ⟨v.core.intr, v.core.noff + 1, v.core.intena⟩ }) :
    wp (spinMachine L) (outline L) t Act.incNoff.run Q v :=
  core_wp ⟨v.core.intr, v.core.noff + 1, v.core.intena⟩ inside (fun _ _ _ same => by rw [State.act, same])
  (fun _ => off) post

theorem decNoff_wp {Q : Unit → View L → Prop} (inside : v.inside = true) (off : v.core.intr = false)
    (post : Q () { v with core := ⟨v.core.intr, v.core.noff - 1, v.core.intena⟩ }) :
    wp (spinMachine L) (outline L) t Act.decNoff.run Q v :=
  core_wp ⟨v.core.intr, v.core.noff - 1, v.core.intena⟩ inside (fun _ _ _ same => by rw [State.act, same])
  (fun _ => off) post

theorem setIntena_wp {old : Bool} {Q : Unit → View L → Prop} (inside : v.inside = true)
    (off : 0 < v.core.noff → v.core.intr = false)
    (post : Q () { v with core := ⟨v.core.intr, v.core.noff, old⟩ }) :
    wp (spinMachine L) (outline L) t (Act.setIntena old).run Q v :=
  core_wp ⟨v.core.intr, v.core.noff, old⟩ inside (fun _ _ _ same => by rw [State.act, same]) off post

theorem raiseOff_wp {Q : Unit → View L → Prop} (inside : v.inside = true)
    (post : Q () { v with
      core := ⟨false, v.core.noff, v.core.intena⟩
      raised := if v.core.noff = 0 then some v.core.intr else v.raised }) :
    wp (spinMachine L) (outline L) t Act.raiseOff.run Q v := by
  refine act_wp inside fun s c choice inv view seat _ => ?_
  have raised : ∀ u, (if (s.core c).noff = 0 then update s.raised t (some (s.core c).intr) else s.raised) u =
      if u = t then (if (s.core c).noff = 0 then some (s.core c).intr else s.raised t) else s.raised u := by
    intro u
    split
    · rw [Function.update_apply]
    · split
      next same => rw [same]
      next => rfl
  have locality : Local t c s { s.setCore c { s.core c with intr := false } with
      raised := if (s.core c).noff = 0 then update s.raised t (some (s.core c).intr) else s.raised } :=
    ⟨rfl, (Local.setCore (t := t)).core, fun _ _ => rfl, fun _ _ => rfl, fun _ _ => rfl,
      fun u different => (raised u).trans (if_neg different)⟩
  refine locality.after inv seat (fun _ => ?_) ⟨inv.locks.locked, inv.locks.lkCpu⟩ inv.restored ?_
  · exact congrArg Core.intr setCore_core
  · subst view
    rw [view_seat seat] at post
    dsimp only
    rw [raised t, if_pos rfl, show (s.setCore c _).core c = _ from setCore_core]
    exact post

/-- A step that counts open `push_off`s. -/
theorem opens_wp {a : Act L} {answer : a.Resp} {Q : a.Resp → View L → Prop} (f : Nat → Nat)
    (inside : v.inside = true)
    (same : ∀ (s : State L) c choice, s.act t c choice a = .ok answer { s with
        opens := update s.opens t (f (s.opens t)) })
    (post : Q answer { v with opens := f v.opens }) : wp (spinMachine L) (outline L) t a.run Q v := by
  refine act_wp inside fun s c choice inv view seat _ => ?_
  rw [same s c choice]
  have locality : Local t c s { s with opens := update s.opens t (f (s.opens t)) } :=
    ⟨rfl, fun _ _ => rfl, fun _ _ => rfl, fun _ _ => rfl, fun _ different =>
      Function.update_of_ne different ..,
      fun _ _ => rfl⟩
  refine locality.after inv seat (inv.off c) ⟨inv.locks.locked, inv.locks.lkCpu⟩ inv.restored ?_
  subst view
  rw [view_seat seat] at post
  dsimp only
  rw [Function.update_self]
  exact post

theorem opened_wp {Q : Unit → View L → Prop} (inside : v.inside = true)
    (post : Q () { v with opens := v.opens + 1 }) :
    wp (spinMachine L) (outline L) t Act.opened.run Q v :=
  opens_wp (· + 1) inside (fun _ _ _ => rfl) post

theorem closed_wp {Q : Unit → View L → Prop} (inside : v.inside = true)
    (post : Q () { v with opens := v.opens - 1 }) :
    wp (spinMachine L) (outline L) t Act.closed.run Q v :=
  opens_wp (· - 1) inside (fun _ _ _ => rfl) post

/-- What is recorded of a return to 0 is that the interrupts are as they were. -/
theorem returned_wp {Q : Unit → View L → Prop} (inside : v.inside = true)
    (same : ∀ p before, t = .proc p → v.raised = some before → v.core.noff = 0 → v.core.intr = before)
    (post : Q () v) : wp (spinMachine L) (outline L) t Act.returned.run Q v := by
  refine act_wp inside fun s c choice inv view seat _ => ?_
  obtain ⟨core, _, _, raised, _⟩ := fields seat view
  refine Local.after ⟨rfl, fun _ _ => rfl, fun _ _ => rfl, fun _ _ => rfl, fun _ _ => rfl,
    fun _ _ => rfl⟩ inv seat
    (inv.off c) ⟨inv.locks.locked, inv.locks.lkCpu⟩ ?_ ?_
  · cases t with
    | cpu c' => exact inv.restored
    | proc p =>
      cases before : s.raised (.proc p) with
      | none => simpa only [before] using inv.restored
      | some before' =>
        simp only
        split
        next zero =>
          rw [core] at zero
          have now := same p before' rfl (raised.symm.trans before) zero
          refine List.forall_mem_cons.mpr ⟨?_, inv.restored⟩
          rw [core]
          exact now
        next => exact inv.restored
  · subst view
    rw [view_seat seat] at post
    exact post

theorem begins_wp {k : Call L} {Q : Unit → View L → Prop} (inside : v.inside = true)
    (post : ∀ s c, Inv s → s.seat t = some c → s.view t = v → k.inHandler = true → s.Legal t c k → Q () v) :
    wp (spinMachine L) (outline L) t (Act.begins k).run Q v := by
  refine act_wp inside fun s c _ inv view seat allowed => ?_
  refine stays inv view (post s c inv seat view allowed.1 ?_)
  have legal := allowed.2
  rwa [State.legal, seat] at legal

theorem settled_wp {Q : Unit → View L → Prop} (inside : v.inside = true) (post : v.core.noff = 0 → Q () v) :
    wp (spinMachine L) (outline L) t Act.settled.run Q v := by
  refine act_wp inside fun s c _ inv view seat allowed => ?_
  refine stays inv view (post ?_)
  rw [← (fields seat view).1]
  exact allowed c seat

theorem clearProc_wp {c : Cpu} {Q : Unit → View L → Prop} (inside : v.inside = true)
    (post : Q () { v with picked := none }) :
    wp (spinMachine L) (outline L) (.cpu c) Act.clearProc.run Q v := by
  refine act_wp inside fun s c' _ inv view seat _ => ?_
  have here := inv.home (cpu_of_seat seat)
  subst here
  refine Local.after ⟨rfl, fun _ _ => rfl, fun _ _ => rfl, fun c different => ?_, fun _ _ => rfl,
    fun _ _ => rfl⟩ inv seat
    (inv.off c') ⟨inv.locks.locked, inv.locks.lkCpu⟩ inv.restored ?_
  · exact Function.update_of_ne (fun same => different (congrArg Tid.cpu same.symm)) ..
  · subst view
    rw [view_seat seat] at post
    show Q () ⟨true, s.core c', s.held c', s.opens _, s.raised _, update s.cpuProc c' none c'⟩
    rw [Function.update_self]
    exact post

end Writes

section Taking

variable {lk : Lock L} {locked : Bool} {owner mine : Option Cpu}

/-- A lock has changed. -/
def State.relock (s : State L) (lk : Lock L) (locked : Bool) (owner mine : Option Cpu) : State L :=
  { s with
    locked := update s.locked lk locked
    owner := update s.owner lk owner
    lkCpu := update s.lkCpu lk mine }

theorem relock_held : (s.relock lk locked owner mine).held c =
    update (s.held c) lk (if owner = some c then some (mine = some c) else none) := by
  funext lk'
  by_cases same : lk' = lk
  · subst same
    simp [State.held, State.relock]
  · simp [State.held, State.relock, same]

/-- A lock changes under the hands of the processor that has it, or takes it. -/
theorem relock_after {a : Act L} {answer : a.Resp} {Q : a.Resp → View L → Prop} (inv : Inv s)
    (view : s.view t = v)
    (seat : s.seat t = some c) (before : s.owner lk = none ∨ s.owner lk = some c)
    (after : owner = none ∨ owner = some c)
    (known : locked = owner.isSome) (own : ∀ c', mine = some c' → owner = some c')
    (post : Q answer { v with held := update v.held lk (if owner = some c then some (mine = some c) else none) }) :
    (outline L).After t a s Q (.ok answer (s.relock lk locked owner mine)) := by
  have locality : Local t c s (s.relock lk locked owner mine) := by
    refine ⟨rfl, fun _ _ => rfl, fun c' apart => ?_, fun _ _ => rfl, fun _ _ => rfl, fun _ _ => rfl⟩
    -- The lock was not another processor's, and is not now.
    have was : s.held c' lk = none := if_neg fun theirs => by
      rcases before with free | ours
      · rw [free] at theirs
        cases theirs
      · exact apart (Option.some.inj (theirs.symm.trans ours))
    have now : owner ≠ some c' := by
      rintro rfl
      rcases after with free | ours
      · cases free
      · exact apart (Option.some.inj ours)
    rw [relock_held, if_neg now, ← was, Function.update_eq_self]
  refine locality.after inv seat (inv.off c) ⟨fun lk' => ?_, fun {lk' c'} at' => ?_⟩ inv.restored ?_
  · by_cases same : lk' = lk
    · subst same
      simp [State.relock, known]
    · simpa [State.relock, same] using inv.locks.locked lk'
  · by_cases same : lk' = lk
    · subst same
      simp only [State.relock, Function.update_self] at at' ⊢
      exact own c' at'
    · simp only [State.relock, Function.update_of_ne same] at at' ⊢
      exact inv.locks.lkCpu at'
  · subst view
    rw [view_seat seat] at post
    rw [relock_held]
    exact post

theorem testAndSet_wp {Q : Unit → View L → Prop} (inside : v.inside = true)
    (post : Q () { v with held := update v.held lk (some false) }) :
    wp (spinMachine L) (outline L) t (Act.testAndSet lk).run Q v := by
  refine act_wp inside fun s c _ inv view seat _ => ?_
  simp only [State.act]
  split
  next => trivial
  next free =>
    have unowned : s.owner lk = none := by
      have locked := inv.locks.locked lk
      rw [Bool.eq_false_iff.mpr free] at locked
      exact Option.isSome_eq_false_iff.mp locked.symm |> Option.isNone_iff_eq_none.mp
    have unset : s.lkCpu lk = none := by
      cases at' : s.lkCpu lk with
      | none => rfl
      | some c' => exact absurd (inv.locks.lkCpu at') (by rw [unowned]; simp)
    have eq : { s with locked := update s.locked lk true, owner := update s.owner lk (some c) } =
        s.relock lk true (some c) none := by
      rw [State.relock, ← unset, Function.update_eq_self]
    rw [eq]
    refine relock_after inv view seat (.inl unowned) (.inr rfl) rfl (fun _ same => by cases same) ?_
    simpa using post

theorem setCpu_wp {Q : Unit → View L → Prop} {taken : Bool} (inside : v.inside = true)
    (held : v.held lk = some taken)
    (post : Q () { v with held := update v.held lk (some true) }) :
    wp (spinMachine L) (outline L) t (Act.setCpu lk).run Q v := by
  refine act_wp inside fun s c _ inv view seat _ => ?_
  obtain ⟨own, _⟩ := held_owner seat view held
  have locked : s.locked lk = true := by rw [inv.locks.locked, own]; rfl
  have eq : { s with lkCpu := update s.lkCpu lk (some c) } = s.relock lk true (some c) (some c) := by
    rw [State.relock, ← own, ← locked, Function.update_eq_self, Function.update_eq_self]
  simp only [State.act]
  rw [eq]
  refine relock_after inv view seat (.inr own) (.inr rfl) rfl (fun _ same => same) ?_
  simpa using post

theorem clearCpu_wp {Q : Unit → View L → Prop} {taken : Bool} (inside : v.inside = true)
    (held : v.held lk = some taken)
    (post : Q () { v with held := update v.held lk (some false) }) :
    wp (spinMachine L) (outline L) t (Act.clearCpu lk).run Q v := by
  refine act_wp inside fun s c _ inv view seat _ => ?_
  obtain ⟨own, _⟩ := held_owner seat view held
  have locked : s.locked lk = true := by rw [inv.locks.locked, own]; rfl
  have eq : { s with lkCpu := update s.lkCpu lk none } = s.relock lk true (some c) none := by
    rw [State.relock, ← own, ← locked, Function.update_eq_self, Function.update_eq_self]
  simp only [State.act]
  rw [eq]
  refine relock_after inv view seat (.inr own) (.inr rfl) rfl (fun _ same => by cases same) ?_
  simpa using post

theorem unlock_wp {Q : Unit → View L → Prop} (inside : v.inside = true) (held : v.held lk = some false)
    (post : Q () { v with held := update v.held lk none }) :
    wp (spinMachine L) (outline L) t (Act.unlock lk).run Q v := by
  refine act_wp inside fun s c _ inv view seat _ => ?_
  obtain ⟨own, cleared⟩ := held_owner seat view held
  have unset : s.lkCpu lk = none := by
    cases at' : s.lkCpu lk with
    | none => rfl
    | some c' =>
      have same := own.symm.trans (inv.locks.lkCpu at')
      rw [at', ← same] at cleared
      simp at cleared
  have eq : { s with locked := update s.locked lk false, owner := update s.owner lk none } =
      s.relock lk false none none := by
    rw [State.relock, ← unset, Function.update_eq_self]
  simp only [State.act]
  rw [eq]
  refine relock_after inv view seat (.inr own) (.inl rfl) rfl (fun _ same => by cases same) ?_
  simpa using post

end Taking

end Xv6.Spinlock
