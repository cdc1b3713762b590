import Xv6.Proc.Machine
import Mathlib.Tactic.Set

namespace Xv6
open Threads Function

variable {M : Monitors}

/-- A process that may still run. -/
def ProcState.alive : ProcState → Bool
  | .sleeping | .runnable | .running => true
  | .unused | .used | .zombie => false

/-- The exit of each slot that no `wait` has taken note of, by the events so far, newest first. -/
def unreaped : List LifeEvent → ProcId → Option (Int × Int)
  | [], _ => none
  | .exited p pid status :: rest, q => if q = p then some (pid, status) else unreaped rest q
  | .reaped p _ _ _ :: rest, q => if q = p then none else unreaped rest q

/-- Every exit is taken note of at most once, with the pid and status of that exit. -/
def Sound : List LifeEvent → Prop
  | [] => True
  | .exited p _ _ :: rest => unreaped rest p = none ∧ Sound rest
  | .reaped p pid status _ :: rest => unreaped rest p = some (pid, status) ∧ Sound rest

/-- The pid of each process, by what has happened so far, newest first. -/
def pidOf : List CallEvent → ProcId → Option Int
  | [], _ => none
  | .born p pid :: earlier, q => if q = p then some pid else pidOf earlier q
  | _ :: earlier, q => pidOf earlier q

/-- The call that each process is in. -/
def asking : List CallEvent → ProcId → Option Request
  | [], _ => none
  | .born p _ :: earlier, q | .done p :: earlier, q => if q = p then none else asking earlier q
  | .called p request :: earlier, q => if q = p then some request else asking earlier q

/-- Whether `kill` was called with the pid of a process, or `setkilled` on the process, since it came into
being; a call that was under way then counts. -/
def targeted : List CallEvent → ProcId → Bool
  | [], _ => false
  | .born p pid :: earlier, q =>
    if q = p then decide (∃ r, asking earlier r = some (.kill pid)) else targeted earlier q
  | .called _ (.kill pid) :: earlier, q => decide (pidOf earlier q = some pid) || targeted earlier q
  | .called p .setkilled :: earlier, q => decide (q = p) || targeted earlier q
  | .called _ (.wait _) :: earlier, q | .done _ :: earlier, q => targeted earlier q

/-- A call of `kill` targets the processes of its pid for as long as it lasts. -/
theorem targeted_kill {calls : List CallEvent} {p q : ProcId} {pid : Int}
    (asks : asking calls p = some (.kill pid))
    (own : pidOf calls q = some pid) : targeted calls q = true := by
  induction calls with
  | nil => cases asks
  | cons e earlier ih =>
    cases e with
    | born r pid' =>
      simp only [asking] at asks
      simp only [pidOf] at own
      simp only [targeted]
      split at asks
      next => cases asks
      next =>
        split
        next same =>
          rw [if_pos same] at own
          cases own
          exact decide_eq_true ⟨p, asks⟩
        next other =>
          rw [if_neg other] at own
          exact ih asks own
    | called r request =>
      have earlierOwn : pidOf earlier q = some pid := own
      simp only [asking] at asks
      split at asks
      next =>
        cases asks
        simp [targeted, earlierOwn]
      next =>
        have before := ih asks earlierOwn
        cases request <;> simp [targeted, before]
    | done r =>
      simp only [asking] at asks
      split at asks
      next => cases asks
      next => exact ih asks own

theorem targeted_setkilled {calls : List CallEvent} {p : ProcId} (asks : asking calls p = some .setkilled) :
    targeted calls p = true := by
  induction calls with
  | nil => cases asks
  | cons e earlier ih =>
    cases e with
    | born r pid =>
      simp only [asking] at asks
      simp only [targeted]
      split at asks
      next => cases asks
      next other =>
        rw [if_neg other]
        exact ih asks
    | called r request =>
      simp only [asking] at asks
      split at asks
      next same =>
        cases asks
        simp [targeted, same]
      next =>
        have before := ih asks
        cases request <;> simp [targeted, before]
    | done r =>
      simp only [asking] at asks
      split at asks
      next => cases asks
      next => exact ih asks

/-- What `wait_lock` protects. -/
structure Family where
  parent : ProcId → Option ProcId
  history : List LifeEvent
  dozer : ProcId → Bool

/-- What a holder of a lock knows. -/
abbrev Info : Lock M → Type
  | .proc _ => Proc M × Option (Chan M)
  | .wait => Family
  | .mon m => M.Data m × (M.Chan m → ProcId → Bool)

/-- What a flow of control knows whatever the others do. -/
structure Mine (M : Monitors) where
  picked : Option ProcId
  chan : Option (Chan M)
  window : Option (Chan M)
  bed : Option (Lock M)
  made : ProcId → Option Bool
  leaving : Bool
  asking : Option Request
  notes : Notes

/-- What a flow of control relies on between its own steps. -/
@[ext] structure View (M : Monitors) where
  inside : Bool
  noff : Nat
  held : (l : Lock M) → Option (Info l)
  mine : Mine M

/-- The steps that are considered, what the data of a monitor satisfies while its lock is free, and
when nobody sleeps on one of its channels then. Where `kill` never finds a free slot, `tidy`, and where
it finds no process about to sleep on a channel, `wary`, more is claimed, and likewise where a writer
of a pipe that has bytes to announce is not found killed, `prompt`. -/
structure Terms (M : Monitors) where
  allowed : Tid → KAct M → Kernel M → Prop
  good : (m : M.Lock) → M.Data m → Prop
  due : (m : M.Lock) → M.Chan m → M.Data m → Prop
  tidy : Prop
  wary : Chan M → Prop
  prompt : Prop
  tidy_spec : tidy → ∀ {t p pid s}, allowed t (.killProc p pid) s → (s.proc p).state = .unused → pid ≠ 0
  wary_spec : ∀ {chan}, wary chan → ∀ {t p pid s}, allowed t (.killProc p pid) s → (s.proc p).pid = pid →
    s.window p ≠ some chan
  prompt_spec : prompt → ∀ {t p next s}, allowed t (.getKilled p next true) s → (s.proc p).killed = false

namespace Kernel

variable (s : Kernel M) (t : Tid)

/-- The processor a flow of control executes on, once it has returned from `swtch`. -/
def seat : Option Cpu := if s.inside t then s.cpu t else none

def info : (l : Lock M) → Info l
  | .proc p => (s.proc p, if t = .proc p then s.dozing p else none)
  | .wait => ⟨s.parent, s.history, fun p => s.dozing p = some (.proc p)⟩
  | .mon m => (s.data m, fun x p => s.dozing p = some (.mon m x))

def mine : Tid → Mine M
  | .cpu c => ⟨s.cpuProc c, none, none, none, fun _ => none, false, none, .blank⟩
  | .proc p => {
      picked := none
      chan := (s.proc p).chan
      window := s.window p
      bed := s.bed p
      made := fun q => if s.maker q = some p then some (s.parent q).isSome else none
      leaving := s.leaving p
      asking := Xv6.asking s.calls p
      notes := s.notes p }

def view : View M where
  inside := s.inside t
  noff := match s.seat t with
    | some c => s.noff c
    | none => 0
  held l := if s.seat t ≠ none ∧ s.holder l = s.seat t then some (s.info t l) else none
  mine := s.mine t

end Kernel

namespace Terms

variable (A : Terms M)

/-- What holds under a lock while it is free. -/
def Free : (l : Lock M) → Info l → Prop
  | .proc _, _ => True
  | .wait, f => ∀ q x, f.parent q = some x → unreaped f.history q ≠ none → f.dozer x = false
  | .mon m, i => A.good m i.1 ∧ ∀ x, A.due m x i.1 → ∀ p, i.2 x p = false

/-- What a process finds out about itself when it takes a lock. -/
def Own (v : Mine M) : Tid → (l : Lock M) → Info l → Prop
  | .proc p, .proc q, i => p = q →
      i.1.state = .running ∧ ∀ chan, A.wary chan → v.window = some chan → i.1.killed = false
  | .proc p, .wait, f => f.dozer p = false
  | .proc p, .mon _, i => ∀ x, i.2 x p = false
  | .cpu _, _, _ => True

end Terms

/-- The processors and who executes on them. -/
structure Seats (s : Kernel M) : Prop where
  alone : ∀ {p q c}, s.runs p = some c → s.runs q = some c → p = q
  cpuProc : ∀ {p c}, s.runs p = some c → s.cpuProc c = some p
  proc : ∀ {p}, s.inside (.proc p) = true → s.runs p ≠ none
  cpu : ∀ {c}, s.inside (.cpu c) = true → ∀ p, s.runs p ≠ some c
  handover : ∀ {c}, s.inside (.cpu c) = false → (∀ p, s.runs p = some c → s.inside (.proc p) = false) →
    s.noff c = 1 ∧ ∃ p, s.cpuProc c = some p ∧ ∀ l, s.holder l = some c ↔ l = .proc p

/-- The parent of a process is the one that made it, or `initproc` after that one is gone. -/
def Created (s : Kernel M) (p x : ProcId) : Prop :=
  (x = (s.creator p).1 ∧ s.exits x = (s.creator p).2) ∨
  (x = initproc ∧ ((s.creator p).2 < s.exits (s.creator p).1 ∨
    (s.creator p).2 = s.exits (s.creator p).1 ∧ s.leaving (s.creator p).1 = true))

/-- Who executes on the stack of a process, by its state and the holder of its lock. -/
structure Place (s : Kernel M) (p : ProcId) : Prop where
  entering : s.inside (.proc p) = false → s.runs p ≠ none → (s.proc p).state = .running
  running : s.inside (.proc p) = true → s.holder (.proc p) ≠ s.runs p → (s.proc p).state = .running
  seated : (s.proc p).state = .running → s.runs p ≠ none
  left : ∀ c, s.cpuProc c = some p → s.runs p ≠ some c →
    s.holder (.proc p) = some c ∧ (s.proc p).state ≠ .running

/-- Where a process sleeps. -/
structure Rest (s : Kernel M) (p : ProcId) : Prop where
  asleep : (s.proc p).state = .sleeping → ∃ chan, (s.proc p).chan = some chan ∧ s.dozing p = some chan
  bed : ∀ chan, s.dozing p = some chan → s.bed p = some chan.lock
  still : (s.proc p).state.alive = false → (s.proc p).chan = none

/-- The parent, the children and the end of a process. -/
structure Kin (s : Kernel M) (p : ProcId) : Prop where
  noParent : (s.proc p).state = .unused → s.parent p = none
  orphan : (s.proc p).state ≠ .unused → (s.proc p).state ≠ .used → p ≠ initproc → s.parent p ≠ none
  used : (s.proc p).state = .used ↔ s.maker p ≠ none
  children : ∀ q, s.parent q = some p → (s.proc p).state.alive = true
  ended : unreaped s.history p =
    if (s.proc p).state = .zombie then some ((s.proc p).pid, (s.proc p).xstate) else none
  created : ∀ x, s.parent p = some x → Created s p x
  leaving : s.leaving p = true → p ≠ initproc ∧ s.runs p ≠ none ∧ s.holder .wait = s.runs p
  init : p = initproc → (s.proc p).state.alive = true

/-- What the record of the calls says of a process. -/
structure Recorded (s : Kernel M) (p : ProcId) : Prop where
  known : (s.proc p).state ≠ .unused → pidOf s.calls p = some (s.proc p).pid
  mute : (s.proc p).state.alive = false → asking s.calls p = none
  caught : (asking s.calls p).any Request.waits = true → (s.notes p).caught = true → (s.proc p).killed = true

/-- Whom `kill` has reached. -/
structure Marks (A : Terms M) (s : Kernel M) (p : ProcId) : Prop where
  noPid : (s.proc p).state = .unused → (s.proc p).pid = 0
  tidy : A.tidy → ((s.proc p).state = .unused → (s.proc p).killed = false) ∧
    ((s.proc p).killed = true → targeted s.calls p = true)
  wary : ∀ chan, A.wary chan → (s.window p = some chan → (s.proc p).killed = false) ∧
    ((s.proc p).state = .sleeping → (s.proc p).chan = some chan → (s.proc p).killed = false)

/-- What holds of each slot of the process table. -/
structure Slot (A : Terms M) (s : Kernel M) (p : ProcId) : Prop extends
  Place s p, Rest s p, Kin s p, Recorded s p, Marks A s p

structure KInv (A : Terms M) (s : Kernel M) : Prop where
  seats : Seats s
  slot : ∀ p, Slot A s p
  free : ∀ l, s.holder l = none → A.Free l (s.info (.cpu 0) l)
  sound : Sound s.history

/-- A `wait` that has reaped no child has not been able to store a status, or it left behind no zombie among
its children, and there were none at all or it has been killed. -/
def Notes.Excuse (notes : Notes) (addr killed : Bool) : Prop :=
  addr = true ∧ notes.refused = true ∧ notes.zombies = true ∨
    notes.zombies = false ∧ (notes.children = false ∨ killed = true)

/-- What is owed before a step: who reaps a process and what that process is then, that nobody executes
on the stack of a process that is picked, what `wait`
returns, whom `kill` has found when it answers 0, and how a process finds itself when it evaluates the
condition of its loop. -/
def Owed (A : Terms M) (s : Kernel M) : Tid → KAct M → Prop
  | t, .reap q p addr => t = .proc p ∧ (s.proc q).state = .zombie ∧ s.runs q = none ∧ s.parent q = some p ∧
      (p = (s.creator q).1 ∧ s.exits p = (s.creator q).2 ∨
        p = initproc ∧ (s.creator q).2 < s.exits (s.creator q).1) ∧
      (addr = true → (s.notes p).stored = some (s.proc q).xstate) ∧ (s.notes p).taken = none
  | _, .pick p => (s.proc p).state = .runnable → s.runs p = none
  | .proc p, .read m => s.runs p ≠ none ∧ s.holder (.mon m) = s.runs p ∧ (s.proc p).chan = none
  | t, .leave p (.wait addr) value => t = .proc p ∧ value = (s.notes p).taken.getD (-1) ∧
      ((s.notes p).taken = none → (s.notes p).Excuse addr (s.proc p).killed)
  | t, .leave p (.kill pid) value =>
    t = .proc p ∧ (value = 0 → ∃ state, (s.notes p).found = some (pid, state) ∧
      (A.tidy → state ≠ .unused))
  | _, _ => True

def kOutline (A : Terms M) : Outline Tid (Kernel M) (View M) (KAct M) where
  inv := KInv A
  view t s := s.view t
  guar t before after := ∀ other, other ≠ t → after.view other = before.view other
  allowed := A.allowed
  owes t a s := Owed A s t a
  mayPanic _ _ _ _ := False

theorem kOutline_isolated (A : Terms M) : (kOutline A).Isolated := fun _ _ _ guar other different =>
  guar other different

/-- A step of one flow of control on its processor leaves alone what is held on the others. -/
structure Local (t : Tid) (c : Cpu) (s s' : Kernel M) : Prop where
  inside : ∀ other, other ≠ t → s'.inside other = s.inside other
  seat : ∀ other, other ≠ t → s'.seat other = s.seat other
  noff : ∀ c', c' ≠ c → s'.noff c' = s.noff c'
  holder : ∀ l c', c' ≠ c → (s'.holder l = some c' ↔ s.holder l = some c')
  info : ∀ other, other ≠ t → ∀ l c', c' ≠ c → s.holder l = some c' → s'.info other l = s.info other l
  mine : ∀ other, other ≠ t → s'.mine other = s.mine other

variable {A : Terms M} {s s' : Kernel M} {t other : Tid} {c : Cpu}

theorem Kernel.seat_proc {p : ProcId} (h : s.seat (.proc p) = some c) :
    s.inside (.proc p) = true ∧ s.runs p = some c := by
  unfold Kernel.seat Kernel.cpu at h
  split at h
  next inside => exact ⟨inside, h⟩
  next => cases h

theorem Kernel.seat_cpu {c' : Cpu} (h : s.seat (.cpu c') = some c) :
    s.inside (.cpu c') = true ∧ c' = c ∧ ∀ p, s.runs p ≠ some c := by
  unfold Kernel.seat Kernel.cpu at h
  split at h
  next inside =>
    simp only at h
    split at h
    next free => cases h; exact ⟨inside, rfl, free⟩
    next => cases h
  next => cases h

/-- A step that is no call keeps the record of a process that it neither makes nor frees. -/
theorem Recorded.keep {p : ProcId} (h : Recorded s p) (calls : s'.calls = s.calls)
    (notes : s'.notes p = s.notes p)
    (pid : (s'.proc p).pid = (s.proc p).pid) (killed : (s.proc p).killed = true → (s'.proc p).killed = true)
    (unused : (s'.proc p).state ≠ .unused → (s.proc p).state ≠ .unused)
    (alive : (s'.proc p).state.alive = false → (s.proc p).state.alive = false) : Recorded s' p where
  known live := by rw [calls, pid]; exact h.known (unused live)
  mute dead := by rw [calls]; exact h.mute (alive dead)
  caught := by rw [calls, notes]; exact fun asks caught => killed (h.caught asks caught)

/-- Two flows of control do not execute on one processor. -/
theorem Seats.apart (h : Seats s) (mine : s.seat t = some c) (theirs : s.seat other = some c) :
    other = t := by
  cases t with
  | cpu c₁ =>
    obtain ⟨_, rfl, free⟩ := Kernel.seat_cpu mine
    cases other with
    | cpu c₂ => rw [(Kernel.seat_cpu theirs).2.1]
    | proc q => exact absurd (Kernel.seat_proc theirs).2 (free q)
  | proc p =>
    cases other with
    | cpu c₂ => exact absurd (Kernel.seat_proc mine).2 ((Kernel.seat_cpu theirs).2.2 p)
    | proc q => rw [h.alone (Kernel.seat_proc theirs).2 (Kernel.seat_proc mine).2]

theorem Local.guar (h : Local t c s s') (seats : Seats s) (mine : s.seat t = some c) :
    ∀ other, other ≠ t → s'.view other = s.view other := by
  intro other different
  unfold Kernel.view
  rw [h.inside other different, h.seat other different, h.mine other different]
  cases theirs : s.seat other with
  | none => simp
  | some c' =>
    have apart : c' ≠ c := fun same => different (seats.apart mine (same ▸ theirs))
    congr 1
    · exact h.noff c' apart
    · funext l
      have same := h.holder l c' apart
      by_cases holds : s.holder l = some c'
      · rw [if_pos ⟨by simp, same.mpr holds⟩, if_pos ⟨by simp, holds⟩,
          h.info other different l c' apart holds]
      · rw [if_neg (fun both => holds (same.mp both.2)), if_neg (fun both => holds both.2)]

/-- A step is known by what it does where its flow of control is inside. -/
theorem kStep_wp {a : KAct M} {Q : a.Resp → View M → Prop} {v : View M} (inside : v.inside = true)
    (h : ∀ s c choice, KInv A s → s.view t = v → s.seat t = some c → Owed A s t a ∧
      (A.allowed t a s → (kOutline A).After t a s Q (s.act t c choice a))) :
    wp (kernelMachine M) (kOutline A) t a.run Q v := by
  refine wp_step fun s choice inv view => ?_
  have within : s.inside t = true := by rw [← inside, ← view]; rfl
  have seated : ∃ c, s.seat t = some c := by
    unfold Kernel.seat
    rw [if_pos within]
    cases t with
    | cpu c => exact ⟨c, if_pos (inv.seats.cpu within)⟩
    | proc p => exact Option.ne_none_iff_exists'.mp (inv.seats.proc within)
  obtain ⟨c, seat⟩ := seated
  have cpu : s.cpu t = some c := by
    unfold Kernel.seat at seat
    rwa [if_pos within] at seat
  obtain ⟨owed, step⟩ := h s c choice inv view seat
  refine ⟨owed, fun ok => ?_⟩
  simp only [kernelMachine, cpu]
  exact step ok

end Xv6
