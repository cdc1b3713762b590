import Xv6.Proc.Monitor

namespace Xv6
open Threads Function

/-! ## Processes that are there from the start -/

/-- The processes that exist, with different pids. -/
structure Crew where
  live : ProcId → Bool
  pid : ProcId → Int
  first : live initproc = true
  distinct : ∀ p q, live p = true → live q = true → pid p = pid q → p = q

variable {M : Monitors}

def Crew.births (crew : Crew) : List CallEvent :=
  ((List.finRange NPROC).filter crew.live).map fun p => .born p (crew.pid p)

/-- The kernel once the processes of the crew have been made: children of the first, about to return from
`fork`. -/
def Crew.boot (crew : Crew) (data : (m : M.Lock) → M.Data m) : Kernel M where
  proc p := if crew.live p then ⟨.runnable, none, false, 0, crew.pid p⟩ else ⟨.unused, none, false, 0, 0⟩
  parent p := if crew.live p ∧ p ≠ initproc then some initproc else none
  holder _ := none
  nextpid := 2
  cpuProc _ := none
  noff _ := 0
  runs _ := none
  fresh p := crew.live p
  data := data
  inside
    | .cpu _ => true
    | .proc _ => false
  dozing _ := none
  bed _ := none
  maker _ := none
  creator _ := (initproc, 0)
  exits _ := 0
  leaving _ := false
  window _ := none
  history := []
  calls := crew.births
  notes _ := .blank

/-- What a flow of control may start, whatever else there is: the first return to user space, an exception or
a timer interrupt there, `kill`, a slot of a scheduler's pass. -/
inductive Common where
  | forkret (p : ProcId)
  | exception (p : ProcId)
  | timer (p : ProcId)
  | kill (p : ProcId) (pid : Int)
  | slot (p : ProcId)

def Common.code : Common → KProg M Unit
  | .forkret p => Xv6.forkret p
  | .exception p => setkilled p
  | .timer p => yield p
  | .kill p pid => do discard (Xv6.kill p pid)
  | .slot p => schedulerSlot p

def Common.legal (t : Tid) (s : Kernel M) : Common → Prop
  | .forkret p => t = .proc p ∧ s.inside t = false ∧ s.fresh p = true
  | .exception p | .timer p | .kill p _ => t = .proc p ∧ s.inside t = true
  | .slot _ => ∃ c, t = .cpu c

instance Common.decidableLegal (t : Tid) (s : Kernel M) (e : Common) : Decidable (e.legal t s) :=
  match e with
  | .forkret p => inferInstanceAs (Decidable (t = .proc p ∧ s.inside t = false ∧ s.fresh p = true))
  | .exception p | .timer p | .kill p _ => inferInstanceAs (Decidable (t = .proc p ∧ s.inside t = true))
  | .slot _ => match t with
    | .cpu c => isTrue ⟨c, rfl⟩
    | .proc _ => isFalse nofun

variable {A : Terms M} {t : Tid} {p : ProcId} {b : Mine M} {v : View M}

/-- What a flow of control keeps from one call to the next. -/
structure Mine.Calm (b : Mine M) : Prop extends b.Clean where
  leaving : b.leaving = false
  quiet : b.asking = none

/-- A flow of control between two calls. -/
def Calm (t : Tid) (v : View M) : Prop :=
  ∃ b : Mine M, b.Calm ∧ (v = .quiet b ∨ (∃ p, t = .proc p) ∧ v = .away b)

theorem Mine.Calm.back (calm : b.Calm) : ∀ v, v = .quiet b → Xv6.Calm t v :=
  fun _ same => ⟨b, calm, .inl same⟩

theorem Mine.Calm.noted (calm : b.Calm) : ∀ v, (∃ notes, v = .quiet { b with notes }) → Xv6.Calm t v := by
  rintro _ ⟨notes, rfl⟩
  exact ⟨{ b with notes }, ⟨⟨calm.picked, calm.chan, calm.window, calm.bed⟩, calm.leaving,
    calm.quiet⟩, .inl rfl⟩

/-- A flow of control that is inside is not away. -/
theorem Calm.inside (calm : Calm t v) (inside : v.inside = true) : ∃ b : Mine M, b.Calm ∧ v = .quiet b := by
  obtain ⟨b, calm, here | ⟨-, rfl⟩⟩ := calm
  · exact ⟨b, calm, here⟩
  · cases inside

theorem Common.code_wp {s : Kernel M} {e : Common} (calm : Calm t (s.view t)) (legal : e.legal t s) :
    wp (kernelMachine M) (kOutline A) t e.code (fun _ => Calm t) (s.view t) := by
  cases e with
  | forkret p =>
    obtain ⟨rfl, out, _⟩ := legal
    obtain ⟨b, calm, here | ⟨-, away⟩⟩ := calm
    · have : (s.view (.proc p)).inside = false := out
      rw [here] at this
      cases this
    · rw [away]
      refine wp_bind (resumeProc_wp fun i running => ?_)
      refine releaseProc_wp rfl View.one_self (fun _ => running) (by simp [View.one, calm.picked]) ?_
      exact calm.back _ View.one_unlock
  | exception p =>
    obtain ⟨rfl, within⟩ := legal
    obtain ⟨b, calm, here⟩ := calm.inside within
    rw [here]
    exact wp_mono (fun _ => calm.noted) (setkilled_wp calm.toClean calm.quiet)
  | timer p =>
    obtain ⟨rfl, within⟩ := legal
    obtain ⟨b, calm, here⟩ := calm.inside within
    rw [here]
    exact wp_mono (fun _ => calm.back) (yield_wp calm.picked calm.window (by rw [calm.bed]; simp))
  | kill p pid =>
    obtain ⟨rfl, within⟩ := legal
    obtain ⟨b, calm, here⟩ := calm.inside within
    rw [here]
    exact wp_seq (kill_wp calm.toClean calm.quiet) fun _ _ => calm.noted _
  | slot p =>
    obtain ⟨c, rfl⟩ := legal
    obtain ⟨b, calm, here | ⟨⟨_, other⟩, _⟩⟩ := calm
    · rw [here]
      exact wp_mono (fun _ => calm.back) (schedulerSlot_wp calm.picked)
    · cases other

namespace Crew

variable {crew : Crew} {data : (m : M.Lock) → M.Data m}

theorem births_asking (p : ProcId) : asking crew.births p = none := by
  unfold births
  induction (List.finRange NPROC).filter crew.live with
  | nil => rfl
  | cons q rest ih =>
    show (if p = q then none else asking (rest.map _) p) = none
    rw [ih, ite_self]

theorem births_pid {p : ProcId} (live : crew.live p = true) : pidOf crew.births p = some (crew.pid p) := by
  have member : p ∈ (List.finRange NPROC).filter crew.live := by simp [live]
  unfold births
  generalize (List.finRange NPROC).filter crew.live = ps at member ⊢
  induction ps with
  | nil => cases member
  | cons q rest ih =>
    show (if p = q then some (crew.pid q) else pidOf (rest.map _) p) = _
    split
    next same => rw [same]
    next other => exact ih (List.mem_of_ne_of_mem other member)

theorem boot_recorded (p : ProcId) : Recorded (crew.boot data) p where
  known exist := by
    cases live : crew.live p with
    | false => simp [boot, live] at exist
    | true => exact (births_pid live).trans (by simp [boot, live])
  mute _ := births_asking p
  caught _ caught := (by cases caught)

theorem boot_slot (p : ProcId) : Slot A (crew.boot data) p := by
  by_cases first : p = initproc
  · subst first
    refine ⟨?_, ?_, ?_, boot_recorded initproc, ?_⟩ <;> constructor <;> simp [boot, crew.first,
      ProcState.alive, unreaped]
  · have other : initproc ≠ p := Ne.symm first
    cases live : crew.live p with
    | false =>
      refine ⟨?_, ?_, ?_, boot_recorded p, ?_⟩ <;> constructor <;>
        simp [boot, live, first, other, ProcState.alive, unreaped]
    | true =>
      refine ⟨?_, ?_, ?_, boot_recorded p, ?_⟩ <;> constructor <;>
        simp [boot, live, first, ProcState.alive, unreaped, Created]

theorem boot_inv (good : ∀ m, A.good m (data m)) : KInv A (crew.boot data) where
  seats := by constructor <;> simp [boot]
  slot := boot_slot
  free l _ := by
    cases l with
    | proc p => trivial
    | wait => exact fun q x child ended => absurd rfl ended
    | mon m =>
      have awake : ∀ q chan, (crew.boot data).dozing q ≠ some chan := fun _ _ => nofun
      exact ⟨good m, fun x _ q => decide_eq_false (awake q (.mon m x))⟩
  sound := trivial

theorem boot_calm (t : Tid) : Calm t ((crew.boot data).view t) := by
  refine ⟨(crew.boot data).mine t, ?_, ?_⟩
  · cases t with
    | cpu c => exact ⟨⟨rfl, rfl, rfl, rfl⟩, rfl, rfl⟩
    | proc p =>
      refine ⟨⟨rfl, ?_, rfl, rfl⟩, rfl, births_asking p⟩
      cases live : crew.live p <;> simp [Kernel.mine, boot, live]
  · cases t with
    | cpu c =>
      refine .inl (View.ext rfl ?_ ?_ rfl)
      · simp [Kernel.view, View.quiet, boot, Kernel.seat, Kernel.cpu]
      · funext l
        simp [Kernel.view, View.quiet, boot, Kernel.seat, Kernel.cpu]
    | proc p =>
      refine .inr ⟨⟨p, rfl⟩, View.ext rfl ?_ ?_ rfl⟩
      · simp [Kernel.view, View.away, boot, Kernel.seat]
      · funext l
        simp [Kernel.view, View.away, boot, Kernel.seat]

end Crew

end Xv6
