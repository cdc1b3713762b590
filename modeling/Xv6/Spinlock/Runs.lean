import Xv6.Spinlock.Programs

namespace Xv6.Spinlock
open Threads State

variable {L : Type} [DecidableEq L]

abbrev SConfig (L : Type) := Config Tid (State L) (Act L) Act.Resp

/-- At boot nobody has anything to run. -/
def start : SConfig L := ⟨.boot, fun _ => pure ()⟩

theorem boot_inv : Inv (State.boot : State L) where
  alone {t u c} first second := by
    cases t with
    | proc p => cases first
    | cpu c₁ =>
      cases u with
      | proc p => cases second
      | cpu c₂ =>
        cases first
        cases second
        rfl
  home at' := by
    cases at'
    rfl
  cpuProc at' := by cases at'
  handed {t c} entering := by cases t <;> cases entering
  off _ positive := absurd positive (Nat.lt_irrefl 0)
  locks := ⟨fun _ => rfl, fun at' => by cases at'⟩
  restored _ member := by cases member

theorem start_holds : (outline L).Holds (spinMachine L) Idle start where
  inv := boot_inv
  code t := by
    cases t with
    | proc p => exact .inr ⟨p, rfl, rfl⟩
    | cpu c =>
      refine .inl (.bare rfl rfl (funext fun lk => ?_) rfl fun _ same => by cases same)
      show (if (none : Option Cpu) = some c then some (decide ((none : Option Cpu) = some c)) else none) =
        none
      exact if_neg (by simp)

/-- Every call leaves its flow of control between calls. -/
theorem spinCalls_wp {t : Tid} {s : State L} {k : Nat × Call L} (inv : Inv s) (idle : Idle t (s.view t))
    (legal : s.legal t k.2) :
    wp (spinMachine L) (outline L) t ((spinCalls L).code k) (fun _ => Idle t) (s.view t) := by
  cases seat : s.seat t with
  | some c =>
    rcases idle with rest | ⟨p, _, away⟩
    · rw [State.legal, seat] at legal
      exact (nested_wp k.1 k.2 _ rest (legal_view inv seat legal)).1
    · rw [view_seat seat] at away
      cases congrArg View.inside away
  | none =>
    rcases idle with rest | ⟨p, rfl, away⟩
    · have inside := rest.inside
      rw [view_away seat] at inside
      cases inside
    · rw [State.legal, seat] at legal
      obtain ⟨n, k⟩ := k
      cases k with
      | forkret q =>
        cases of_decide_eq_true legal
        rw [away]
        have entered : wp (spinMachine L) (outline L) (.proc p) (forkret p) (fun _ => Idle (.proc p))
          (.away 0 none none) :=
          wp_mono (fun _ _ after => Or.inl after) forkret_wp
        cases n with
        | zero => exact entered
        | succ n => exact entered
      | _ => cases legal

theorem spinReach_holds {x : SConfig L} (run : Reach (spinMachine L) State.allowed (spinCalls L) start x) :
    (outline L).Holds (spinMachine L) Idle x :=
  start_holds.reach outline_isolated (fun _ _ _ inv idle legal => spinCalls_wp inv idle legal) run

/-- Between the calls of a flow of control, `noff` counts the locks its processor holds and the open
`push_off`s, and in the middle of a switch it counts the one lock that is held; interrupts are off where
`noff` is not 0; nothing panics; and a return of `noff` to 0 in a process leaves interrupts on just if they
were when it was raised. -/
theorem interrupts_nest {x : SConfig L} (run : Reach (spinMachine L) State.allowed (spinCalls L) start x) :
    (∀ t c, x.shared.place t = .on c → x.code t = pure () →
      ((x.shared.core c).noff : ENat) = {lk | x.shared.holding c lk = true}.encard + x.shared.opens t) ∧
    (∀ t c, x.shared.place t = .entering c →
      (x.shared.core c).noff = 1 ∧ ∃ p, ∀ lk, x.shared.holding c lk = true ↔ lk = .proc p) ∧
    (∀ c, 0 < (x.shared.core c).noff → (x.shared.core c).intr = false) ∧
    (∀ message, ¬Panics (spinMachine L) State.allowed x message) ∧
    ∀ p before now, (p, before, now) ∈ x.shared.returns → (now = true ↔ before = true) := by
  have holds := spinReach_holds run
  have inv : Inv x.shared := holds.inv
  refine ⟨fun t c at' atRest => ?_, fun t c entering => ?_, inv.off, fun message stop => ?_,
    fun p before now member => ?_⟩
  · have seat := seat_eq.mpr at'
    have idle := holds.code t
    rw [atRest] at idle
    rcases idle with rest | ⟨p, _, away⟩
    · have counted : Counts ((x.shared.view t).core.noff) {lk | (x.shared.view t).held lk = some true}
          (x.shared.view t).opens := rest.counted
      have same : {lk | (x.shared.view t).held lk = some true} = {lk | x.shared.holding c lk = true} :=
        Set.ext fun lk => (holding_iff inv seat).symm
      rw [same, view_seat seat] at counted
      exact counted
    · have away : x.shared.view t = .away 0 none none := away
      rw [view_seat seat] at away
      cases congrArg View.inside away
  · obtain ⟨p, _, handed⟩ := inv.handed entering
    refine ⟨handed.noff, p, fun lk => ?_⟩
    rw [holding_held inv, handed.held]
    by_cases same : lk = .proc p
    · simp [same]
    · simp [only_of_ne same, same]
  · obtain ⟨_, _, _, _, never⟩ := holds.panics stop
    exact never
  · rw [show now = before from inv.restored _ member]

section Moved

/-- With two locks besides those of the processes. -/
def everyLock : List (Lock Bool) := (List.finRange NPROC).map .proc ++ [.other false, .other true]

theorem everyLock_all (lk : Lock Bool) : lk ∈ everyLock := by
  cases lk with
  | proc p => exact List.mem_append_left _ (List.mem_map_of_mem (List.mem_finRange p))
  | other l => cases l <;> simp [everyLock]

instance (s : State Bool) (c : Cpu) (p : ProcId) : Decidable (∀ lk, s.holding c lk = true ↔ lk = .proc p) :=
  decidable_of_iff (∀ lk ∈ everyLock, s.holding c lk = true ↔ lk = .proc p)
    ⟨fun each lk => each lk (everyLock_all lk), fun all lk _ => all lk⟩

instance (t : Tid) (c : Cpu) (s : State Bool) : (k : Call Bool) → Decidable (s.Legal t c k)
  | .acquire lk => inferInstanceAs (Decidable (s.holding c lk = false))
  | .release lk => inferInstanceAs (Decidable (s.holding c lk = true))
  | .pushOff => inferInstanceAs (Decidable True)
  | .popOff => inferInstanceAs (Decidable (0 < s.opens t))
  | .intrOff | .intrOn => inferInstanceAs (Decidable ((s.core c).noff = 0))
  | .sched p | .exit p => inferInstanceAs (Decidable (t = .proc p ∧
      (∀ lk, s.holding c lk = true ↔ lk = .proc p) ∧ s.opens t = 0))
  | .forkret _ => inferInstanceAs (Decidable False)
  | .schedulerSlot _ => inferInstanceAs (Decidable (t = .cpu c ∧ (s.core c).noff = 0))

instance (t : Tid) (s : State Bool) (k : Call Bool) : (seat : Option Cpu) → Decidable (s.LegalAt t k seat)
  | some c => inferInstanceAs (Decidable (s.Legal t c k))
  | none => inferInstanceAs (Decidable (k.starts t = true))

instance (t : Tid) (s : State Bool) (k : Call Bool) : Decidable (s.legal t k) :=
  inferInstanceAs (Decidable (s.LegalAt t k (s.seat t)))

instance (t : Tid) (a : Act Bool) (s : State Bool) : Decidable (State.allowed t a s) := by
  cases a with
  | begins k => exact inferInstanceAs (Decidable (k.inHandler = true ∧ s.legal t k))
  | settled => exact inferInstanceAs (Decidable (∀ c ∈ s.seat t, (s.core c).noff = 0))
  | _ => exact isTrue trivial

instance (t : Tid) (s : State Bool) (k : Nat × Call Bool) : Decidable ((spinCalls Bool).legal t s k) :=
  inferInstanceAs (Decidable (s.legal t k.2))

abbrev Script := List (Move Tid (Choice Bool) (Nat × Call Bool))

/-- So many steps of a flow of control that leave nothing open, apart from whether the scheduler picks. -/
def steps (t : Tid) (n : Nat) : Script := List.replicate n (.act t (1, .pushOff))

/-- A call in a handler. -/
def handling (t : Tid) (k : Call Bool) (n : Nat) : Script := .act t (0, k) :: steps t (n + 1)

def lockA : Lock Bool := .other false

def lockB : Lock Bool := .other true

/-- A process starts on the first processor, and an interrupt comes as it acquires a lock. The handler yields,
and the process goes on on the second one, where it acquires another lock and gives them back in the order in
which it took them. -/
def moved : Script :=
  .call (.cpu 0) (0, .intrOn) :: steps (.cpu 0) 1 ++
  .call (.cpu 0) (0, .schedulerSlot initproc) :: steps (.cpu 0) 9 ++
  .call (.proc initproc) (0, .forkret initproc) :: steps (.proc initproc) 12 ++
  .call (.proc initproc) (1, .acquire lockA) :: steps (.proc initproc) 3 ++
  [.act (.proc initproc) (3, .pushOff)] ++
  handling (.proc initproc) (.acquire (.proc initproc)) 8 ++
  handling (.proc initproc) (.sched initproc) 6 ++
  steps (.cpu 0) 12 ++
  .call (.cpu 1) (0, .schedulerSlot initproc) :: steps (.cpu 1) 9 ++
  steps (.proc initproc) 2 ++
  handling (.proc initproc) (.release (.proc initproc)) 10 ++
  steps (.proc initproc) 9 ++
  .call (.proc initproc) (0, .acquire lockB) :: steps (.proc initproc) 7 ++
  .call (.proc initproc) (0, .release lockA) :: steps (.proc initproc) 9 ++
  .call (.proc initproc) (0, .release lockB) :: steps (.proc initproc) 11

theorem moved_ends : (drive (spinMachine Bool) State.allowed (spinCalls Bool) moved start).map
    (fun x => (x.shared.place (.proc initproc), x.shared.returns)) =
      some (Place.on 1, [(initproc, true, true), (initproc, false, false)]) := by decide +kernel

/-- In the end interrupts are on again, as they were on the first processor. -/
theorem interrupts_nest_moved : ∃ x : SConfig Bool, x.shared.place (.proc initproc) = .on 1 ∧
    (initproc, true, true) ∈ x.shared.returns ∧ (∀ c, 0 < (x.shared.core c).noff →
      (x.shared.core c).intr = false) ∧
    ∀ p before now, (p, before, now) ∈ x.shared.returns → (now = true ↔ before = true) := by
  obtain ⟨x, run, found⟩ := Option.map_eq_some_iff.mp moved_ends
  obtain ⟨place, returns⟩ := Prod.mk.inj found
  obtain ⟨_, _, off, _, restored⟩ := interrupts_nest (drive_reach run)
  exact ⟨x, place, by simp [returns], off, restored⟩

end Moved

end Xv6.Spinlock
