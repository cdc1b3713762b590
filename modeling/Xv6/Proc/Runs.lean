import Xv6.Proc.Calls

namespace Xv6
open Threads Function

variable {D : Type} {cond : D → Bool} {rule : Rule} {t : Tid} {p : ProcId} {b : Mine (devices D)}

section Scripts

/-- So many steps of one flow of control, with what each leaves open. -/
def steps (t : Tid) (choices : List Nat) : List (Move Tid Nat (Entry D)) := choices.map (.act t)

/-- A processor picks a process that returns to user space for the first time. -/
def enter (c : Cpu) (p : ProcId) : List (Move Tid Nat (Entry D)) :=
  .call (.cpu c) (.slot p) :: steps (.cpu c) [0, 0] ++
    .call (.proc p) (.forkret p) :: steps (.proc p) [0, 0]

def secondProc : ProcId := ⟨1, by decide⟩

def thirdProc : ProcId := ⟨2, by decide⟩

/-- The first process makes another one, in the slot after so many that are taken. -/
def forkAfter (n : Nat) : List (Move Tid Nat (Entry D)) :=
  .call (.proc initproc) (.syscall initproc .fork) :: steps (.proc initproc)
    (List.replicate (4 * n) 0 ++ [0, 0, 0, 0, 1, 1] ++ List.replicate 10 0)

/-- The first process goes to sleep in `piperead` on an empty pipe. -/
def sleepingReader : List (Move Tid Nat (Entry D)) :=
  .call (.proc initproc) (.syscall initproc (.read 0 1)) :: steps (.proc initproc) [0, 5, 0,
    0, 0, 0, 0, 0, 0, 0]

/-- What a script does to the kernel under a rule. -/
def play (rule : Rule) (script : List (Move Tid Nat (Entry Unit))) : Option (KConfig Unit) :=
  drive (kernelMachine (devices Unit)) rule.allowed (kCalls fun _ => true) script (kStart ())

theorem play_reach {rule : Rule} {script : List (Move Tid Nat (Entry Unit))} {y : KConfig Unit}
    (run : play rule script = some y) :
    Reach (kernelMachine (devices Unit)) rule.allowed (kCalls fun _ => true) (kStart ()) y :=
  drive_reach run

/-- The first process makes another one, and both run. -/
def pair : List (Move Tid Nat (Entry D)) := enter 0 initproc ++ forkAfter 1 ++ enter 1 secondProc

/-- The second process exits with status 7; the first one waits for it, and can store the status or not. -/
def waitsForSecond (ok : Nat) : List (Move Tid Nat (Entry D)) :=
  .call (.proc initproc) (.syscall initproc (.wait true)) :: steps (.proc initproc)
    (List.replicate 7 1 ++ [ok, 0])

/-- The first `wait` finds no place for the status, the second one does. -/
def secondExits (again : Bool) : List (Move Tid Nat (Entry D)) :=
  pair ++ .call (.proc secondProc) (.syscall secondProc (.exit 7)) :: steps (.proc secondProc)
    (List.replicate 259 0) ++
    steps (.cpu 1) [0, 0, 0] ++ waitsForSecond 0 ++ steps (.proc initproc) [0] ++
    if again then steps (.proc initproc) [0] ++ waitsForSecond 1 ++ steps (.proc initproc) [0, 0] else []

/-- The first process waits for a condition that does not hold. -/
def waiting : List (Move Tid Nat (Entry Bool)) :=
  enter 0 initproc ++ .call (.proc initproc) (.syscall initproc (.await id)) ::
    steps (.proc initproc) [0, 5, 0, 0, 0, 0, 0]

/-- The first process sleeps on the empty pipe; the second stores a byte in it and, killed by the third
before it could store the next one, leaves without waking anybody. -/
def silentExit : List (Move Tid Nat (Entry D)) :=
  enter 0 initproc ++ forkAfter 1 ++ forkAfter 2 ++ enter 1 secondProc ++
    enter 2 thirdProc ++ sleepingReader ++
    steps (.cpu 0) [0, 0, 0] ++
    .call (.proc secondProc) (.syscall secondProc (.write 0 2)) :: steps (.proc secondProc) [0, 5,
      0, 0, 0, 0, 1, 0, 0] ++
    .call (.proc thirdProc) (.syscall thirdProc (.kill 2)) :: steps (.proc thirdProc) (List.replicate 10 0) ++
    steps (.proc secondProc) [0, 0, 0, 0]

/-- The second process stores three bytes, and the first one takes two. -/
def threeBytes : List (Move Tid Nat (Entry D)) :=
  pair ++ .call (.proc secondProc) (.syscall secondProc (.write 0 3)) :: steps (.proc secondProc)
    ([0, 5, 0, 0, 0, 0, 98, 0, 0, 0, 0, 0, 99, 0, 0, 0, 0, 0, 100, 0] ++ List.replicate 190 0) ++
    .call (.proc initproc) (.syscall initproc (.read 0 2)) :: steps (.proc initproc)
      ([0, 5, 0, 0, 0, 1, 0, 0, 0, 1, 0] ++ List.replicate 190 0)

/-- As above, but the third process kills the second one just after that has found itself not killed: it
stores the second byte too and wakes the first process, which takes both bytes and sleeps again. -/
def announced : List (Move Tid Nat (Entry D)) :=
  enter 0 initproc ++ forkAfter 1 ++ forkAfter 2 ++ enter 1 secondProc ++
    enter 2 thirdProc ++ sleepingReader ++
    steps (.cpu 0) [0, 0, 0] ++
    .call (.proc secondProc) (.syscall secondProc (.write 0 2)) :: steps (.proc secondProc)
      [0, 5, 0, 0, 0, 0, 98, 0, 0, 0, 0, 0] ++
    .call (.proc thirdProc) (.syscall thirdProc (.kill 2)) :: steps (.proc thirdProc) (List.replicate 10 0) ++
    steps (.proc secondProc) ([99, 0] ++ List.replicate 190 0) ++
    .call (.cpu 0) (.slot initproc) :: steps (.cpu 0) [0, 0] ++
    steps (.proc initproc) ([0, 0, 0, 0, 0, 0, 0, 0, 1, 0] ++ List.replicate 190 0) ++
    .call (.proc initproc) (.syscall initproc (.read 0 1)) :: steps (.proc initproc)
      ([0, 5, 0, 0, 0, 1, 0] ++ List.replicate 190 0) ++ sleepingReader

/-- The second process kills the first one. -/
def killsFirst : List (Move Tid Nat (Entry D)) :=
  pair ++ .call (.proc secondProc) (.syscall secondProc (.kill 1)) :: steps (.proc secondProc) [0, 0, 0, 0, 0]

/-- `kill(0)`, and then a `fork` that comes to the slot it has marked. -/
def strayKill : List (Move Tid Nat (Entry D)) :=
  enter 0 initproc ++ .call (.proc initproc) (.syscall initproc (.kill 0)) :: steps (.proc initproc)
    (List.replicate 10 0) ++
    .call (.proc initproc) (.syscall initproc .fork) :: steps (.proc initproc) (List.replicate 8 0)

/-- The second process kills the first one after it has found itself not killed in `piperead` and before
it sleeps. -/
def lateKill : List (Move Tid Nat (Entry D)) :=
  pair ++ .call (.proc initproc) (.syscall initproc (.read 0 1)) ::
    steps (.proc initproc) [0, 5, 0, 0, 0, 0] ++
    .call (.proc secondProc) (.syscall secondProc (.kill 1)) :: steps (.proc secondProc)
    (List.replicate 6 0) ++
    steps (.proc initproc) [0, 0, 0, 0]

/-- As above, in `sys_sleep`, but the first process sleeps already. -/
def timelyKill : List (Move Tid Nat (Entry D)) :=
  pair ++ .call (.proc initproc) (.syscall initproc (.sleep 5)) :: steps (.proc initproc)
    [0, 0, 5, 0, 0, 0, 0, 0, 0, 0, 0] ++ steps (.cpu 0) [0, 0, 0] ++
    .call (.proc secondProc) (.syscall secondProc (.kill 1)) :: steps (.proc secondProc) [0, 0, 0, 0]

/-- The call that a flow of control is about to leave, with the answer. -/
def leaving : DevProg D Unit → Option (ProcId × Request × Int)
  | .act (.leave p request value) _ => some (p, request, value)
  | _ => none

theorem leaving_act {code : DevProg D Unit} {request : Request} {value : Int}
    (h : leaving code = some (p, request, value)) : ∃ next, code = .act (.leave p request value) next := by
  unfold leaving at h
  split at h
  next =>
    cases h
    exact ⟨_, rfl⟩
  next => cases h

/-- How the scripts end. -/
structure Endings : Prop where
  entered : (play .any (enter 0 initproc)).map (fun y => (y.shared.proc initproc).state) = some .running
  refused : (play .any (secondExits false)).map (fun y => (leaving (y.code (.proc initproc)),
    (y.shared.notes initproc).taken, (y.shared.proc secondProc).state)) =
      some (some (initproc, .wait true, -1), none, .zombie)
  reaped : (play .any (secondExits true)).map (fun y => (leaving (y.code (.proc initproc)),
    (y.shared.notes initproc).stored, unreaped y.shared.history secondProc)) =
      some (some (initproc, .wait true, 2), some 7, none)
  waited : (drive (kernelMachine (devices Bool)) Rule.any.allowed (kCalls fun d => d) waiting
    (kStart false)).map
    (fun y => ((y.shared.proc initproc).state, (y.shared.proc initproc).chan, y.shared.holder userLock)) =
      some (.sleeping, some userChan, none)
  stored : (play .any threeBytes).map (fun y => (y.shared.holder (pipeLock 0),
    Pipe.stored (y.shared.data (.pipe 0)), Pipe.delivered (y.shared.data (.pipe 0)),
    Pipe.ring (y.shared.data (.pipe 0)))) = some (none, [97, 98, 99], [97, 98], [99])
  reading : (play .prompt announced).map (fun y => (y.shared.holder (pipeLock 0),
    (y.shared.proc initproc).state, (y.shared.proc initproc).chan, (y.shared.proc secondProc).killed,
    Pipe.delivered (y.shared.data (.pipe 0)))) = some (none, .sleeping, some (nreadChan 0), true, [97, 98])
  silent : (play .any silentExit).map (fun y => (y.shared.holder (pipeLock 0), (y.shared.proc initproc).state,
    (y.shared.proc initproc).chan, Pipe.nread (y.shared.data (.pipe 0)),
    Pipe.nwrite (y.shared.data (.pipe 0)))) =
      some (none, .sleeping, some (nreadChan 0), 0, 1)
  killed : (play .tidy killsFirst).map (fun y => (leaving (y.code (.proc secondProc)),
    (y.shared.proc initproc).state, (y.shared.proc initproc).killed)) =
      some (some (secondProc, .kill 1, 0), .running, true)
  stray : (play .any strayKill).map (fun y => ((y.shared.proc secondProc).state,
    (y.shared.proc secondProc).killed,
    pidOf y.shared.calls secondProc, targeted y.shared.calls secondProc)) = some (.used, true, some 2, false)
  awake : (play .wary timelyKill).map (fun y => ((y.shared.proc initproc).killed,
    (y.shared.proc initproc).state,
    (y.shared.proc initproc).chan)) = some (true, .runnable, some ticksChan)
  late : (play .any lateKill).map (fun y => ((y.shared.proc initproc).killed, (y.shared.proc initproc).state,
    (y.shared.proc initproc).chan)) = some (true, .sleeping, some (nreadChan 0))

theorem endings : Endings where
  entered := by decide +kernel
  refused := by decide +kernel
  reaped := by decide +kernel
  waited := by decide +kernel
  stored := by decide +kernel
  reading := by decide +kernel
  silent := by decide +kernel
  killed := by decide +kernel
  stray := by decide +kernel
  awake := by decide +kernel
  late := by decide +kernel

end Scripts

/-- What a flow of control keeps from one call to the next. -/
structure Mine.Idle (b : Mine (devices D)) : Prop extends b.Clean where
  leaving : b.leaving = false
  made : ∀ q, b.made q = none
  quiet : b.asking = none

/-- A flow of control between two calls: in user space or in the scheduler, or a process that is not
running and has nothing left to run. -/
def Idle (t : Tid) (v : View (devices D)) : Prop :=
  ∃ b : Mine (devices D), b.Idle ∧ (v = .quiet b ∨ (∃ p, t = .proc p) ∧ v = .away b)

theorem Idle.quiet (idle : b.Idle) : Idle t (.quiet b) := ⟨b, idle, .inl rfl⟩

/-- Its notes are of no further use. -/
theorem Mine.Idle.noted (idle : b.Idle) (notes : Notes) : Mine.Idle { b with notes } :=
  ⟨⟨idle.picked, idle.chan, idle.window, idle.bed⟩, idle.leaving, idle.made, idle.quiet⟩

theorem forkret_wp (idle : b.Idle) :
    wp (kernelMachine (devices D)) (kOutline (devTerms cond rule)) (.proc p) (forkret p)
    (fun _ => Idle (.proc p))
      (.away b) := by
  refine wp_bind (resumeProc_wp fun i running => ?_)
  refine releaseProc_wp rfl View.one_self (fun _ => running) (by simp [View.one, idle.picked]) ?_
  rw [View.one_unlock]
  exact Idle.quiet idle

theorem syscall_wp (idle : b.Idle) {call : Syscall D} (stays : call.exits = true → p ≠ initproc) :
    wp (kernelMachine (devices D)) (kOutline (devTerms cond rule)) (.proc p) (call.code cond p)
      (fun _ => Idle (.proc p)) (.quiet b) := by
  have back : ∀ v, v = .quiet b → Idle (.proc p) v := by
    rintro _ rfl
    exact Idle.quiet idle
  have noted : ∀ v, (∃ notes, v = .quiet { b with notes }) → Idle (.proc p) v := by
    rintro _ ⟨notes, rfl⟩
    exact Idle.quiet (idle.noted notes)
  cases call with
  | fork => exact wp_seq (fork_wp idle.toClean idle.leaving idle.made) fun _ _ => noted _
  | exit status =>
    refine wp_mono ?_ (exitProc_wp idle.toClean idle.leaving idle.quiet (stays rfl))
    rintro _ _ ⟨notes, rfl⟩
    exact ⟨_, idle.noted notes, .inr ⟨⟨p, rfl⟩, rfl⟩⟩
  | wait addr => exact wp_seq (wait_wp idle.toClean idle.leaving idle.quiet) fun _ _ => noted _
  | kill pid => exact wp_seq (kill_wp idle.toClean idle.quiet) fun _ _ => noted _
  | write k n => exact wp_seq (pipewrite_wp idle.toClean idle.leaving) fun _ _ same => back _ same
  | read k n => exact wp_seq (piperead_wp idle.toClean idle.leaving) fun _ _ same => back _ same
  | close k writable => exact wp_mono (fun _ v same => back v same) (pipeclose_wp idle.toClean)
  | consoleread n => exact wp_seq (consoleread_wp idle.toClean idle.leaving) fun _ _ same => back _ same
  | sleep n => exact wp_seq (sysSleep_wp idle.toClean idle.leaving) fun _ _ same => back _ same
  | await body => exact wp_mono (fun _ v same => back v same) (await_wp idle.toClean idle.leaving)
  | signal set => exact wp_mono (fun _ v same => back v same) (signal_wp idle.toClean)

theorem entry_wp {s : Kernel (devices D)} {e : Entry D} (idle : Idle t (s.view t)) (legal : e.legal t s) :
    wp (kernelMachine (devices D)) (kOutline (devTerms cond rule)) t (e.code cond)
    (fun _ => Idle t) (s.view t) := by
  obtain ⟨b, idle, place⟩ := idle
  have back : ∀ v, v = .quiet b → Idle t v := by
    rintro _ rfl
    exact Idle.quiet idle
  -- A flow of control that is inside is not away.
  have inside : s.inside t = true → s.view t = .quiet b := by
    rintro inside
    rcases place with here | ⟨_, away⟩
    · exact here
    · have : (s.view t).inside = true := inside
      rw [away] at this
      cases this
  cases e with
  | syscall q call =>
    obtain ⟨rfl, within, stays⟩ := legal
    rw [inside within]
    exact syscall_wp idle stays
  | forkret q =>
    obtain ⟨rfl, out, _⟩ := legal
    rcases place with here | ⟨_, away⟩
    · have : (s.view (.proc q)).inside = false := out
      rw [here] at this
      cases this
    · rw [away]
      exact forkret_wp idle
  | exception q =>
    obtain ⟨rfl, within⟩ := legal
    rw [inside within]
    refine wp_mono ?_ (setkilled_wp idle.toClean idle.quiet)
    rintro _ _ ⟨notes, rfl⟩
    exact Idle.quiet (idle.noted notes)
  | timer q =>
    obtain ⟨rfl, within⟩ := legal
    rw [inside within]
    exact wp_mono (fun _ v same => back v same) (yield_wp idle.picked idle.window (by rw [idle.bed]; simp))
  | slot q =>
    cases t with
    | proc p => cases legal
    | cpu c =>
      rcases place with here | ⟨⟨_, other⟩, _⟩
      · rw [here]
        exact wp_mono (fun _ v same => back v same) (schedulerSlot_wp idle.picked)
      · cases other
  | clock t' =>
    obtain ⟨rfl, within⟩ := legal
    rw [inside within]
    exact wp_mono (fun _ v same => back v same) (clockintr_wp idle.toClean)
  | key t' c =>
    obtain ⟨rfl, within⟩ := legal
    rw [inside within]
    exact wp_mono (fun _ v same => back v same) (consoleintr_wp idle.toClean)

theorem boot_slot (x : D) (p : ProcId) : Slot (devTerms cond rule) (boot x) p := by
  by_cases first : p = initproc
  · constructor <;> constructor <;> simp [boot, first, ProcState.alive, unreaped, pidOf, asking]
  · constructor <;> constructor <;> simp [boot, first, ProcState.alive, unreaped, asking]

theorem kBoot_inv (x : D) : KInv (devTerms cond rule) (boot x) where
  seats := by constructor <;> simp [boot]
  slot := boot_slot x
  free l _ := by
    have awake : ∀ q chan, (boot x).dozing q ≠ some chan := fun _ _ => nofun
    cases l with
    | proc p => trivial
    | wait => exact fun q y child => (by cases child)
    | mon m =>
      refine ⟨?_, fun y _ q => decide_eq_false (awake q (.mon m y))⟩
      cases m with
      | pipe k => exact Pipe.pipealloc_fifo
      | cons => trivial
      | ticks => trivial
      | user => trivial
  sound := trivial

theorem boot_idle (x : D) (t : Tid) : Idle t ((boot x).view t) := by
  have births : ∀ q, asking (boot x).calls q = none := fun q => ite_self _
  refine ⟨(boot x).mine t, ?_, ?_⟩
  · cases t with
    | cpu c => exact ⟨⟨rfl, rfl, rfl, rfl⟩, rfl, fun _ => rfl, rfl⟩
    | proc p =>
      refine ⟨⟨rfl, ?_, rfl, rfl⟩, rfl, fun _ => rfl, births p⟩
      by_cases first : p = initproc <;> simp [Kernel.mine, boot, first]
  · cases t with
    | cpu c =>
      refine .inl (View.ext rfl ?_ ?_ rfl)
      · simp [Kernel.view, View.quiet, boot, Kernel.seat, Kernel.cpu]
      · funext l
        simp [Kernel.view, View.quiet, boot, Kernel.seat, Kernel.cpu]
    | proc p =>
      refine .inr ⟨⟨p, rfl⟩, View.ext rfl ?_ ?_ rfl⟩
      · simp [Kernel.view, View.away, boot, Kernel.seat]
      · funext l
        simp [Kernel.view, View.away, boot, Kernel.seat]

theorem kReach_holds {x : D} {y : KConfig D} (rule : Rule)
    (run : Reach (kernelMachine (devices D)) rule.allowed (kCalls cond) (kStart x) y) :
    (kOutline (devTerms cond rule)).Holds (kernelMachine (devices D)) Idle y := by
  have start : (kOutline (devTerms cond rule)).Holds (kernelMachine (devices D)) Idle (kStart x) :=
    ⟨kBoot_inv x, fun t => wp_pure.mpr (boot_idle x t)⟩
  exact start.reach (kOutline_isolated _) (fun t s e _ idle legal => entry_wp idle legal) run

section Scheduling

variable {x : D} {y : KConfig D}

/-- A process runs on at most one processor, which knows it; nobody executes on the stack of a process
that neither runs there nor is locked there; a process is switched to or freed by `wait` only when
nobody executes on its stack. -/
theorem running_on_one_cpu
    (run : Reach (kernelMachine (devices D)) (fun _ _ _ => True) (kCalls cond) (kStart x) y) :
    (∀ p, (y.shared.proc p).state = .running →
      ∃ c, y.shared.runs p = some c ∧ ∀ c', y.shared.cpuProc c' = some p ↔ c' = c) ∧
    (∀ p c, y.shared.runs p = some c →
      (y.shared.proc p).state = .running ∨ y.shared.holder (.proc p) = some c) ∧
    (∀ p q c, y.shared.runs p = some c → y.shared.runs q = some c → p = q) ∧
    (∀ t p next, y.code t = .act (.pick p) next → (y.shared.proc p).state = .runnable →
      y.shared.runs p = none) ∧
    ∀ t q p addr next, y.code t = .act (.reap q p addr) next →
      (y.shared.proc q).state = .zombie ∧ y.shared.runs q = none := by
  have holds := kReach_holds .any run
  have inv := holds.inv
  refine ⟨fun p running => ?_, fun p c at' => ?_, fun p q c => inv.seats.alone, fun t p next atPick => ?_,
    fun t q p addr next atReap => ?_⟩
  · obtain ⟨c, at'⟩ := Option.ne_none_iff_exists'.mp ((inv.slot p).seated running)
    refine ⟨c, at', fun c' => ⟨fun knows => ?_, fun same => same ▸ inv.seats.cpuProc at'⟩⟩
    by_contra different
    refine ((inv.slot p).left c' knows ?_).2 running
    rw [at']
    exact fun same => different (Option.some.inj same).symm
  · cases inside : y.shared.inside (.proc p) with
    | false => exact .inl ((inv.slot p).entering inside (by rw [at']; simp))
    | true =>
      by_cases own : y.shared.holder (.proc p) = some c
      · exact .inr own
      · exact .inl ((inv.slot p).running inside (by rw [at']; exact own))
  · exact holds.owes atPick
  · have owed := holds.owes atReap
    exact ⟨owed.2.1, owed.2.2.1⟩

theorem running_on_one_cpu_first : ∃ y : KConfig Unit, (y.shared.proc initproc).state = .running ∧
    ∃ c, y.shared.runs initproc = some c ∧ ∀ c', y.shared.cpuProc c' = some initproc ↔ c' = c := by
  obtain ⟨y, run, running⟩ := Option.map_eq_some_iff.mp endings.entered
  exact ⟨y, running, (running_on_one_cpu (play_reach run)).1 initproc running⟩

/-- Only the end of a process and its parent's taking note of it are entered in the history. -/
theorem Kernel.act_history {s s' : Kernel (devices D)} {c : Cpu} {choice : Nat} {a : KAct (devices D)}
    {answer : a.Resp} (step : s.act t c choice a = .ok answer s') :
    s'.history = s.history ∨
      (∃ q status, s'.history = .exited q (s.proc q).pid status :: s.history) ∨
      ∃ q p addr, a = .reap q p addr ∧
        s'.history = .reaped q (s.proc q).pid (s.proc q).xstate p :: s.history := by
  cases a with
  | setZombie q status => cases step; exact .inr (.inl ⟨q, status, rfl⟩)
  | reap q p addr => cases step; exact .inr (.inr ⟨q, p, addr, rfl, rfl⟩)
  | stuck => cases step
  | release l =>
    simp only [Kernel.act] at step
    split at step
    next => cases step
    next =>
      cases step
      unfold Kernel.look
      split <;> exact .inl rfl
  | _ =>
    simp only [Kernel.act] at step
    repeat' split at step
    all_goals first
      | cases step; exact .inl rfl
      | cases step

/-- A zombie stays as it is until its parent reaps it. -/
theorem zombie_stays {z : KConfig D}
    (run : Reach (kernelMachine (devices D)) (fun _ _ _ => True) (kCalls cond) (kStart x) y)
    (step : Step (kernelMachine (devices D)) (fun _ _ _ => True) (kCalls cond) y z) (q : ProcId)
    (zombie : (y.shared.proc q).state = .zombie) :
    ((z.shared.proc q).state = .zombie ∧ (z.shared.proc q).pid = (y.shared.proc q).pid ∧
      (z.shared.proc q).xstate = (y.shared.proc q).xstate) ∨
    ∃ p, y.shared.parent q = some p ∧ z.shared.history =
      .reaped q (y.shared.proc q).pid (y.shared.proc q).xstate p :: y.shared.history := by
  have holds := kReach_holds .any run
  have after := (kReach_holds .any (run.tail step)).inv
  have ended := (holds.inv.slot q).ended
  rw [if_pos zombie] at ended
  -- What the history says about `q` says what `q` is.
  have stays : unreaped z.shared.history q = unreaped y.shared.history q →
      (z.shared.proc q).state = .zombie ∧ (z.shared.proc q).pid = (y.shared.proc q).pid ∧
        (z.shared.proc q).xstate = (y.shared.proc q).xstate := by
    intro same
    have ended' := (after.slot q).ended
    rw [same, ended] at ended'
    split at ended'
    next zombie' =>
      obtain ⟨pid, xstate⟩ := Prod.mk.inj (Option.some.inj ended')
      exact ⟨zombie', pid.symm, xstate.symm⟩
    next => cases ended'
  cases step with
  | call _ _ => exact .inl ⟨zombie, rfl, rfl⟩
  | @act t a next choice answer s' atAct _ eq =>
    have owed := holds.owes atAct
    simp only [kernelMachine] at eq
    split at eq
    next c _ =>
      rcases Kernel.act_history eq with same | ⟨r, status, same⟩ | ⟨r, p, addr, rfl, same⟩
      · exact .inl (stays (by rw [show Config.shared _ = s' from rfl, same]))
      · left
        refine stays ?_
        have sound := after.sound
        simp only [same, Sound] at sound ⊢
        have different : q ≠ r := by
          rintro rfl
          rw [ended] at sound
          cases sound.1
        exact if_neg different
      · by_cases mine : q = r
        · subst mine
          exact .inr ⟨p, owed.2.2.2.1, same⟩
        · left
          refine stays ?_
          simp only [same]
          exact if_neg mine
    next => cases eq

/-- Each exit is taken note of at most once, by the parent of that time, in a `wait` that stores the status
and returns the pid; a `wait` that reaps nothing answers -1, and then it could not store the status of a
zombie that it leaves there, or its caller had no zombie child when it gave back `wait_lock` and had no child
at all or has been killed; everybody but the first process has a parent that may still run; and nobody sleeps
in `wait` beside a zombie child. -/
theorem exit_wait (run : Reach (kernelMachine (devices D)) (fun _ _ _ => True) (kCalls cond) (kStart x) y) :
    (Sound y.shared.history ∧ ∀ q, unreaped y.shared.history q =
      if (y.shared.proc q).state = .zombie then some ((y.shared.proc q).pid,
      (y.shared.proc q).xstate) else none) ∧
    (∀ t q p addr next, y.code t = .act (.reap q p addr) next → t = .proc p ∧ y.shared.parent q = some p ∧
      (p = (y.shared.creator q).1 ∧ y.shared.exits p = (y.shared.creator q).2 ∨
        p = initproc ∧ (y.shared.creator q).2 < y.shared.exits (y.shared.creator q).1) ∧
      (addr = true → (y.shared.notes p).stored = some (y.shared.proc q).xstate) ∧
      (y.shared.notes p).taken = none) ∧
    (∀ t p addr value next, y.code t = .act (.leave p (.wait addr) value) next → t = .proc p ∧
      ((y.shared.notes p).taken = some value ∨
        (y.shared.notes p).taken = none ∧ value = -1 ∧
          (y.shared.notes p).Excuse addr (y.shared.proc p).killed)) ∧
    (∀ z, Step (kernelMachine (devices D)) (fun _ _ _ => True) (kCalls cond) y z → ∀ q,
      (y.shared.proc q).state = .zombie →
      ((z.shared.proc q).state = .zombie ∧ (z.shared.proc q).pid = (y.shared.proc q).pid ∧
        (z.shared.proc q).xstate = (y.shared.proc q).xstate) ∨
      ∃ p, y.shared.parent q = some p ∧ z.shared.history =
        .reaped q (y.shared.proc q).pid (y.shared.proc q).xstate p :: y.shared.history) ∧
    (y.shared.holder .wait = none →
      (∀ q, (y.shared.proc q).state ≠ .unused → q ≠ initproc → y.shared.maker q = none →
        ∃ p, y.shared.parent q = some p ∧ (y.shared.proc p).state ≠ .unused ∧
        (y.shared.proc p).state ≠ .zombie) ∧
      ∀ p q, (y.shared.proc q).state = .zombie → y.shared.parent q = some p →
        ¬((y.shared.proc p).state = .sleeping ∧ (y.shared.proc p).chan = some (.proc p))) := by
  have holds := kReach_holds .any run
  have inv := holds.inv
  refine ⟨⟨inv.sound, fun q => (inv.slot q).ended⟩, fun t q p addr next atReap => ?_,
    fun t p addr value next atLeave => ?_, fun z step q zombie => zombie_stays run step q zombie,
    fun free => ⟨fun q live notFirst notMade => ?_, fun p q zombie child asleep => ?_⟩⟩
  · obtain ⟨who, _, _, parent, creator, stored, first⟩ := holds.owes atReap
    exact ⟨who, parent, creator, stored, first⟩
  · have owed : t = .proc p ∧ value = (y.shared.notes p).taken.getD (-1) ∧
        ((y.shared.notes p).taken = none → (y.shared.notes p).Excuse addr (y.shared.proc p).killed) := by
      have := holds.owes atLeave
      cases t <;> exact this
    obtain ⟨who, answer, excuse⟩ := owed
    refine ⟨who, ?_⟩
    cases taken : (y.shared.notes p).taken with
    | none => exact .inr ⟨rfl, by rw [answer, taken]; rfl, excuse taken⟩
    | some pid => exact .inl (by rw [answer, taken]; rfl)
  · have notUsed : (y.shared.proc q).state ≠ .used := fun used => (inv.slot q).used.mp used notMade
    obtain ⟨p, parent⟩ := Option.ne_none_iff_exists'.mp ((inv.slot q).orphan live notUsed notFirst)
    have alive := (inv.slot p).children q parent
    refine ⟨p, parent, fun eq => ?_, fun eq => ?_⟩ <;> rw [eq] at alive <;> cases alive
  · obtain ⟨chan, eq, dozing⟩ := (inv.slot p).asleep asleep.1
    rw [asleep.2] at eq
    cases eq
    have ended := (inv.slot q).ended
    rw [if_pos zombie] at ended
    have unreaped' : unreaped y.shared.history q ≠ none := by rw [ended]; simp
    have awake := inv.free .wait free q p child unreaped'
    exact absurd dozing (of_decide_eq_false awake)

/-- A child exits with status 7. A `wait` that cannot store it leaves the zombie alone, and the next one reaps
it. -/
theorem exit_wait_second :
    (∃ (y : KConfig Unit) (next : Unit → DevProg Unit Unit), y.code (.proc initproc) =
      .act (.leave initproc (.wait true) (-1)) next ∧
      (y.shared.proc secondProc).state = .zombie ∧
      (y.shared.notes initproc).Excuse true (y.shared.proc initproc).killed) ∧
    ∃ (y : KConfig Unit) (next : Unit → DevProg Unit Unit), y.code (.proc initproc) =
    .act (.leave initproc (.wait true) 2) next ∧
      (y.shared.notes initproc).taken = some 2 ∧ (y.shared.notes initproc).stored = some 7 ∧
      (y.shared.proc secondProc).state ≠ .zombie := by
  constructor
  · obtain ⟨y, run, found⟩ := Option.map_eq_some_iff.mp endings.refused
    simp only [Prod.mk.injEq] at found
    obtain ⟨atLeave, notTaken, zombie⟩ := found
    obtain ⟨next, code⟩ := leaving_act atLeave
    refine ⟨y, next, code, zombie, ?_⟩
    rcases ((exit_wait (play_reach run)).2.2.1 _ _ _ _ _ code).2 with taken | ⟨_, _, excuse⟩
    · rw [notTaken] at taken
      cases taken
    · exact excuse
  · obtain ⟨y, run, found⟩ := Option.map_eq_some_iff.mp endings.reaped
    simp only [Prod.mk.injEq] at found
    obtain ⟨atLeave, stored, reaped⟩ := found
    obtain ⟨next, code⟩ := leaving_act atLeave
    have told := exit_wait (play_reach run)
    refine ⟨y, next, code, ?_, stored, fun zombie => ?_⟩
    · rcases (told.2.2.1 _ _ _ _ _ code).2 with taken | ⟨_, minus, _⟩
      · exact taken
      · cases minus
    · have ended := told.1.2 secondProc
      rw [reaped, if_pos zombie] at ended
      cases ended

/-- With the lock of a condition free, no process sleeps although the condition holds; a process that
evaluates it holds the lock and sleeps on nothing. -/
theorem no_lost_wakeup
    (run : Reach (kernelMachine (devices D)) (fun _ _ _ => True) (kCalls cond) (kStart x) y) :
    (y.shared.holder userLock = none → cond (y.shared.data .user) = true →
      ∀ p, ¬((y.shared.proc p).state = .sleeping ∧ (y.shared.proc p).chan = some userChan)) ∧
    ∀ p next, y.code (.proc p) = .act (.read .user) next →
      y.shared.runs p ≠ none ∧ y.shared.holder userLock = y.shared.runs p ∧ (y.shared.proc p).chan = none := by
  have holds := kReach_holds .any run
  have inv := holds.inv
  refine ⟨fun free true' p asleep => ?_, fun p next atRead => holds.owes atRead⟩
  obtain ⟨chan, eq, dozing⟩ := (inv.slot p).asleep asleep.1
  rw [asleep.2] at eq
  cases eq
  have awake := (inv.free (.mon .user) free).2 () true' p
  exact absurd dozing (of_decide_eq_false awake)

theorem no_lost_wakeup_waiting : ∃ y : KConfig Bool, (y.shared.proc initproc).state = .sleeping ∧
    y.shared.holder userLock = none ∧ ¬ (y.shared.data .user = true) := by
  obtain ⟨y, run, found⟩ := Option.map_eq_some_iff.mp endings.waited
  simp only [Prod.mk.injEq] at found
  obtain ⟨asleep, chan, free⟩ := found
  exact ⟨y, asleep, free, fun holds =>
    (no_lost_wakeup (drive_reach run)).1 free holds initproc ⟨asleep, chan⟩⟩

/-- With the lock of a pipe free, the ring is not overfull, and what was delivered and what is in the
ring is what was stored, as long as no copy to user space has failed. -/
theorem pipe_fifo
    (run : Reach (kernelMachine (devices D)) (fun _ _ _ => True) (kCalls cond) (kStart x) y) (k : Nat)
    (free : y.shared.holder (pipeLock k) = none) : Pipe.Fifo (y.shared.data (.pipe k)) :=
  ((kReach_holds .any run).inv.free (.mon (.pipe k)) free).1

theorem pipe_fifo_stored : ∃ y : KConfig Unit, Pipe.Fifo (y.shared.data (.pipe 0)) ∧
    Pipe.stored (y.shared.data (.pipe 0)) = [97, 98, 99] ∧
    Pipe.delivered (y.shared.data (.pipe 0)) = [97, 98] ∧
    Pipe.ring (y.shared.data (.pipe 0)) = [99] := by
  obtain ⟨y, run, found⟩ := Option.map_eq_some_iff.mp endings.stored
  simp only [Prod.mk.injEq] at found
  exact ⟨y, pipe_fifo (play_reach run) 0 found.1, found.2⟩

/-- Where no writer is found killed between storing bytes and waking the readers, nobody sleeps on a
pipe whose lock is free without reason. -/
theorem pipe_no_lost_wakeup
    (run : Reach (kernelMachine (devices D)) Rule.prompt.allowed (kCalls cond) (kStart x) y) (k : Nat)
    (free : y.shared.holder (pipeLock k) = none) (p : ProcId) (asleep : (y.shared.proc p).state = .sleeping) :
    ((y.shared.proc p).chan = some (nreadChan k) →
      Pipe.nread (y.shared.data (.pipe k)) = Pipe.nwrite (y.shared.data (.pipe k)) ∧
        Pipe.writeopen (y.shared.data (.pipe k)) = true) ∧
    ((y.shared.proc p).chan = some (nwriteChan k) →
      Pipe.nwrite (y.shared.data (.pipe k)) = Pipe.nread (y.shared.data (.pipe k)) + 512 ∧
        Pipe.readopen (y.shared.data (.pipe k)) = true) := by
  have inv := (kReach_holds .prompt run).inv
  have pipe := pipeFree_iff.mp (inv.free (.mon (.pipe k)) free)
  have dozes : ∀ chan, (y.shared.proc p).chan = some chan → y.shared.dozing p = some chan := by
    intro chan eq
    obtain ⟨chan', eq', dozing⟩ := (inv.slot p).asleep asleep
    rw [eq] at eq'
    cases eq'
    exact dozing
  constructor
  · intro eq
    have notDue : ¬ Pipe.due (y.shared.data (.pipe k)) .nread := fun due =>
      absurd (dozes _ eq) (of_decide_eq_false (pipe.nread rfl due p))
    unfold Pipe.due Pipe.empty at notDue
    simp only [not_or, Bool.not_eq_false, decide_eq_true_eq] at notDue
    exact notDue
  · intro eq
    have notDue : ¬ Pipe.due (y.shared.data (.pipe k)) .nwrite := fun due =>
      absurd (dozes _ eq) (of_decide_eq_false (pipe.nwrite due p))
    unfold Pipe.due Pipe.full at notDue
    simp only [not_or, Bool.not_eq_false, decide_eq_true_eq] at notDue
    exact notDue

theorem pipe_no_lost_wakeup_reader : ∃ y : KConfig Unit, (y.shared.proc secondProc).killed = true ∧
    Pipe.delivered (y.shared.data (.pipe 0)) = [97, 98] ∧ (y.shared.proc initproc).state = .sleeping ∧
    Pipe.nread (y.shared.data (.pipe 0)) = Pipe.nwrite (y.shared.data (.pipe 0)) ∧
    Pipe.writeopen (y.shared.data (.pipe 0)) = true := by
  obtain ⟨y, run, found⟩ := Option.map_eq_some_iff.mp endings.reading
  simp only [Prod.mk.injEq] at found
  obtain ⟨free, asleep, chan, killed, delivered⟩ := found
  exact ⟨y, killed, delivered, asleep, (pipe_no_lost_wakeup (play_reach run) 0 free initproc asleep).1 chan⟩

/-- A reader sleeps beside a byte in the ring. -/
theorem pipewrite_loses_wakeup : ∃ y : KConfig Unit,
    Reach (kernelMachine (devices Unit)) (fun _ _ _ => True) (kCalls fun _ => true) (kStart ()) y ∧
      y.shared.holder (pipeLock 0) = none ∧ (y.shared.proc initproc).state = .sleeping ∧
      (y.shared.proc initproc).chan = some (nreadChan 0) ∧
      Pipe.nread (y.shared.data (.pipe 0)) ≠ Pipe.nwrite (y.shared.data (.pipe 0)) := by
  obtain ⟨y, run, found⟩ := Option.map_eq_some_iff.mp endings.silent
  simp only [Prod.mk.injEq] at found
  refine ⟨y, play_reach run, found.1, found.2.1, found.2.2.1, ?_⟩
  rw [found.2.2.2.1, found.2.2.2.2]
  decide

/-- Where `kill` does not come to a free slot with the pid 0, a process is killed only by a call with its pid,
or by `setkilled`, made or under way since it came into being. -/
theorem kill_reaches_target
    (run : Reach (kernelMachine (devices D)) Rule.tidy.allowed (kCalls cond) (kStart x) y) :
    (∀ p, (y.shared.proc p).state ≠ .unused → pidOf y.shared.calls p = some (y.shared.proc p).pid ∧
      ((y.shared.proc p).killed = true → targeted y.shared.calls p = true)) ∧
    ∀ t p pid next, y.code t = .act (.leave p (.kill pid) 0) next →
      ∃ state, (y.shared.notes p).found = some (pid, state) ∧ state ≠ .unused := by
  have holds := kReach_holds .tidy run
  refine ⟨fun p live => ⟨(holds.inv.slot p).known live, ((holds.inv.slot p).tidy rfl).2⟩,
    fun t p pid next atLeave => ?_⟩
  have owed : t = .proc p ∧ ((0 : Int) = 0 → ∃ state, (y.shared.notes p).found = some (pid, state) ∧
      ((devTerms cond .tidy).tidy → state ≠ .unused)) := by
    have := holds.owes atLeave
    cases t <;> exact this
  obtain ⟨state, found, live⟩ := owed.2 rfl
  exact ⟨state, found, live rfl⟩

theorem kill_reaches_target_first : ∃ (y : KConfig Unit) (next : Unit → DevProg Unit Unit),
    y.code (.proc secondProc) = .act (.leave secondProc (.kill 1) 0) next ∧
      (y.shared.proc initproc).killed = true ∧ targeted y.shared.calls initproc = true ∧
      ∃ state, (y.shared.notes secondProc).found = some (1, state) ∧ state ≠ .unused := by
  obtain ⟨y, run, found⟩ := Option.map_eq_some_iff.mp endings.killed
  simp only [Prod.mk.injEq] at found
  obtain ⟨atLeave, running, killed⟩ := found
  obtain ⟨next, code⟩ := leaving_act atLeave
  have told := kill_reaches_target (play_reach run)
  exact ⟨y, next, code, killed, (told.1 initproc (by rw [running]; decide)).2 killed, told.2 _ _ _ _ code⟩

/-- A process is born killed. -/
theorem kill_strays : ∃ y : KConfig Unit,
    Reach (kernelMachine (devices Unit)) (fun _ _ _ => True) (kCalls fun _ => true) (kStart ()) y ∧
      (y.shared.proc secondProc).state ≠ .unused ∧ (y.shared.proc secondProc).killed = true ∧
      pidOf y.shared.calls secondProc = some 2 ∧ targeted y.shared.calls secondProc = false := by
  obtain ⟨y, run, found⟩ := Option.map_eq_some_iff.mp endings.stray
  simp only [Prod.mk.injEq] at found
  exact ⟨y, play_reach run, by rw [found.1]; decide, found.2⟩

/-- Where `kill` does not come between a process's finding itself not killed and its going to sleep, no
killed process sleeps in a loop that a kill is to end. -/
theorem killed_awake
    (run : Reach (kernelMachine (devices D)) Rule.wary.allowed (kCalls cond) (kStart x) y) (p : ProcId)
    (chan : Chan (devices D)) (interruptible : chan.interruptible)
    (killed : (y.shared.proc p).killed = true) :
    ¬((y.shared.proc p).state = .sleeping ∧ (y.shared.proc p).chan = some chan) := by
  rintro ⟨asleep, eq⟩
  have inv := (kReach_holds .wary run).inv
  rw [((inv.slot p).wary chan ⟨rfl, interruptible⟩).2 asleep eq] at killed
  cases killed

theorem killed_awake_first : ∃ y : KConfig Unit, (y.shared.proc initproc).killed = true ∧
    (y.shared.proc initproc).state = .runnable ∧ (y.shared.proc initproc).chan = some ticksChan ∧
    ¬((y.shared.proc initproc).state = .sleeping ∧ (y.shared.proc initproc).chan = some ticksChan) := by
  obtain ⟨y, run, found⟩ := Option.map_eq_some_iff.mp endings.awake
  simp only [Prod.mk.injEq] at found
  obtain ⟨killed, woken⟩ := found
  exact ⟨y, killed, woken.1, woken.2, killed_awake (play_reach run) initproc ticksChan trivial killed⟩

/-- A killed process goes to sleep. -/
theorem killed_sleeps : ∃ y : KConfig Unit,
    Reach (kernelMachine (devices Unit)) (fun _ _ _ => True) (kCalls fun _ => true) (kStart ()) y ∧
      (y.shared.proc initproc).killed = true ∧ (y.shared.proc initproc).state = .sleeping ∧
      (y.shared.proc initproc).chan = some (nreadChan 0) := by
  obtain ⟨y, run, found⟩ := Option.map_eq_some_iff.mp endings.late
  simp only [Prod.mk.injEq] at found
  exact ⟨y, play_reach run, found⟩

end Scheduling

end Xv6
