import Mathlib.Data.Nat.Bitwise
import Xv6.Trace.Invariant

namespace Xv6.Trace
open Threads Function
open Ftable (Status)

variable {s s' : TrState} {t np : ProcId} {v : TrView}

section Rules

variable {mask : UInt32}

/-- A step that leaves the statuses, the masks, the numbers and the history alone. -/
theorem TrInv.still {a : TrAct} {answer : a.Resp} {Q : a.Resp → TrView → Prop} (inv : TrInv s)
    (view : s.view t = v)
    (status : s'.status = s.status) (traceMask : s'.traceMask = s.traceMask) (birth : s'.birth = s.birth)
    (births : s'.births = s.births) (log : s'.log = s.log) (post : Q answer v) :
    trOutline.After t a s Q (.ok answer s') := by
  have views := TrState.view_same status traceMask birth log
  refine ⟨inv.congr status traceMask birth births log, fun q _ => views q, ?_⟩
  rw [show trOutline.view t s' = s.view t from views t, view]
  exact post

theorem elsewhere_wp (running : v.running = true) :
    wp trMachine trOutline t TrAct.elsewhere.run (fun _ v' => v' = v) v :=
  trStep_wp running fun _ _ inv view _ => inv.still view rfl rfl rfl rfl rfl rfl

theorem alloc_wp (running : v.running = true) :
    wp trMachine trOutline t TrAct.alloc.run (fun _ v' => v' = v) v :=
  trStep_wp running fun _ _ inv view _ => inv.still view rfl rfl rfl rfl rfl rfl

theorem getPid_wp (running : v.running = true) :
    wp trMachine trOutline t (TrAct.getPid np).run (fun _ v' => v' = v) v :=
  trStep_wp running fun _ _ inv view _ => inv.still view rfl rfl rfl rfl rfl rfl

theorem setParent_wp (running : v.running = true) :
    wp trMachine trOutline t (TrAct.setParent np).run (fun _ v' => v' = v) v :=
  trStep_wp running fun _ _ inv view _ => inv.still view rfl rfl rfl rfl rfl rfl

theorem reparent_wp (running : v.running = true) :
    wp trMachine trOutline t TrAct.reparent.run (fun _ v' => v' = v) v :=
  trStep_wp running fun _ _ inv view _ => inv.still view rfl rfl rfl rfl rfl rfl

theorem self_wp (running : v.running = true) :
    wp trMachine trOutline t TrAct.self.run (fun answer v' => answer.2 = v.mask ∧ v' = v) v := by
  refine trStep_wp running fun s c inv view now => inv.still view rfl rfl rfl rfl rfl ⟨?_, rfl⟩
  rw [← view, TrState.view_of_running now]

/-- What a process records of itself leaves the others alone. -/
theorem TrInv.records {e : Event} (inv : TrInv s) (now : s.status t = .running)
    (target : e.target = some (s.birth t) ∨ e.target = none) (printed : Printed (e :: s.log)) :
    TrInv (s.record e) ∧ ∀ q, (q ≠ t → (s.record e).view q = s.view q) ∧
      ∀ r, s.status r = .used q → (s.record e).due r = s.due r := by
  have live : s.status t ≠ .unused := by
    rw [now]
    exact Status.noConfusion
  have apart : ∀ {p}, s.status p ≠ .unused → p ≠ t → e.target ≠ some (s.birth p) := fun here other =>
    inv.target_other live here other target
  have making : ∀ {q r}, s.status r = .used q → e.target ≠ some (s.birth r) := by
    intro q r used
    refine apart ?_ ?_
    · rw [used]
      exact Status.noConfusion
    · rintro rfl
      cases now.symm.trans used
  refine ⟨inv.record printed fun p ready => apart ?_ ?_,
    fun q => ⟨fun other => ?_, fun r used => TrState.due_record (making used)⟩⟩
  · rw [ready]
    exact Status.noConfusion
  · rintro rfl
    cases now.symm.trans ready
  · refine TrState.view_record (fun runs => apart ?_ other) fun p used => making used
    rw [runs]
    exact Status.noConfusion

/-- A system call begins: a call of `trace` settles which mask the process has to have from now on. -/
theorem enter_wp {num : Int} {arg : UInt32} (running : v.running = true) :
    wp trMachine trOutline t (TrAct.enter num arg).run
      (fun _ v' => v' = { v with due := if num = SYS_trace then arg else v.due }) v := by
  refine trStep_wp running fun s c inv view now => ?_
  have target : (Event.called (s.birth t) num arg).target = some (s.birth t) ∨
      (Event.called (s.birth t) num arg).target = none := by
    by_cases trace : num = SYS_trace
    · exact .inl (if_pos trace)
    · exact .inr (if_neg trace)
  obtain ⟨inv', others⟩ := inv.records now target inv.log
  have due : (s.record (.called (s.birth t) num arg)).due t = if num = SYS_trace then arg else s.due t :=
    if_congr (and_iff_right rfl) rfl rfl
  have now' : (s.record (.called (s.birth t) num arg)).status t = .running := now
  refine ⟨inv', fun q => (others q).1, (TrState.view_of_running now').trans ?_⟩
  rw [← view, TrState.view_of_running now]
  refine TrView.ext rfl rfl due (funext fun r => ?_)
  by_cases used : s.status r = .used t
  · exact (if_pos used).trans ((congrArg (fun m => some (s.traceMask r, m)) ((others t).2 r used)).trans
      (if_pos used).symm)
  · exact (if_neg used).trans (if_neg used).symm

/-- An event that settles no mask. -/
theorem TrState.view_plain {e : Event} (none : e.target = none) : (s.record e).view t = s.view t := by
  have apart : ∀ n, e.target ≠ some n := fun n same => by cases none.symm.trans same
  exact TrState.view_record (fun _ => apart _) fun _ _ => apart _

/-- Printing a line, or none, at a return. -/
theorem returned_wp {num : Nat} {line : Option Line} (settled : v.Settled)
    (right : line.isSome = true ↔ v.mask.toNat.testBit num = true) :
    wp trMachine trOutline t (TrAct.returned num line).run (fun _ v' => v' = v) v := by
  refine trStep_wp settled.running fun s c inv view now => ?_
  have own : v.mask = maskOf s.log (s.birth t) := by
    refine settled.mask.trans ?_
    rw [← view, TrState.view_of_running now]
    rfl
  obtain ⟨inv', others⟩ := inv.records (e := .returned (s.birth t) num line) now (.inr rfl)
    ⟨own ▸ right, inv.log⟩
  exact ⟨inv', fun q => (others q).1, (TrState.view_plain rfl).trans view⟩

theorem unknown_wp {num : Int} (running : v.running = true) :
    wp trMachine trOutline t (TrAct.unknown num).run (fun _ v' => v' = v) v := by
  refine trStep_wp running fun s c inv view now => ?_
  obtain ⟨inv', others⟩ := inv.records (e := .unknown (s.birth t) num) now (.inr rfl) inv.log
  exact ⟨inv', fun q => (others q).1, (TrState.view_plain rfl).trans view⟩

theorem setMask_wp (running : v.running = true) :
    wp trMachine trOutline t (TrAct.setMask mask).run (fun _ v' => v' = { v with mask }) v := by
  refine trStep_wp running fun s c inv view now => ?_
  have unready : s.status t ≠ .runnable := by
    rw [now]
    exact Status.noConfusion
  have apart : ∀ {q}, s.status t ≠ .used q := by
    rw [now]
    exact Status.noConfusion
  have now' : (s.setMask t mask).status t = .running := now
  refine ⟨inv.setMask unready, fun q other => TrState.view_setMask (fun _ => other) apart,
    (TrState.view_of_running now').trans ?_⟩
  rw [← view, TrState.view_of_running now]
  refine TrView.ext rfl (update_self ..) rfl (funext fun r => ?_)
  by_cases used : s.status r = .used t
  · have other : r ≠ t := by
      rintro rfl
      exact apart used
    have kept : (s.setMask t mask).traceMask r = s.traceMask r := update_of_ne other ..
    exact (if_pos used).trans ((congrArg (fun m => some (m, s.due r)) kept).trans (if_pos used).symm)
  · exact (if_neg used).trans (if_neg used).symm

/-- A slot is taken for a child, which has to have the mask that its maker has to have. -/
theorem findUnused_wp (running : v.running = true) :
    wp trMachine trOutline t TrAct.findUnused.run (fun answer v' => match answer with
      | none => v' = v
      | some np => ∃ mask, v' = { v with child := update v.child np (some (mask, v.due)) }) v := by
  refine trStep_wp running fun s c inv view now => ?_
  simp only [trMachine]
  split
  next found =>
    obtain ⟨-, free⟩ := Bool.and_eq_true .. |>.mp found
    replace free : s.status c.proc = .unused := of_decide_eq_true free
    have other : ∀ q, s.status q = .running → q ≠ c.proc := fun q runs same => by
      rw [same, free] at runs
      cases runs
    have unmade : ∀ q, s.status c.proc ≠ .used q := fun q => by
      rw [free]
      exact Status.noConfusion
    have own : ∀ q, s.status q = .running → (s.take t c.proc).due q = s.due q := fun q runs =>
      inv.due_take (by rw [runs]; exact Status.noConfusion) (other q runs)
    have child : ∀ q r, s.status r = .used q → (s.take t c.proc).due r = s.due r := fun q r used =>
      inv.due_take (by rw [used]; exact Status.noConfusion) fun same => unmade q (same ▸ used)
    refine ⟨inv.take now free, fun q apart => ?_, s.traceMask c.proc, ?_⟩
    · by_cases runs : s.status q = .running
      · refine TrState.view_congr ?_ (fun runs => ⟨rfl, own q runs⟩) (fun r => ?_) fun r used =>
          ⟨rfl, child q r used⟩
        · rw [TrState.take_ne (other q runs)]
        · by_cases same : r = c.proc
          · rw [same, TrState.take_self]
            refine iff_of_false ?_ (unmade q)
            rintro ⟨⟩
            exact apart rfl
          · rw [TrState.take_ne same]
      · refine (if_neg ?_).trans (if_neg runs).symm
        by_cases same : q = c.proc
        · rw [same, TrState.take_self]
          exact Status.noConfusion
        · rwa [TrState.take_ne same]
    · have now' : (s.take t c.proc).status t = .running := (TrState.take_ne (other t now)).trans now
      have due : v.due = s.due t := by rw [← view, TrState.view_of_running now]
      have here : (if (s.take t c.proc).status c.proc = .used t then
          some ((s.take t c.proc).traceMask c.proc, (s.take t c.proc).due c.proc) else none) =
          some (s.traceMask c.proc, v.due) := by
        rw [if_pos TrState.take_self, TrState.due_take_self, due]
        rfl
      refine (TrState.view_update now now' rfl (own t now) here fun r apart => ?_).trans (by rw [view])
      rw [TrState.take_ne apart]
      exact ⟨Iff.rfl, fun used => ⟨rfl, child t r used⟩⟩
  next => exact inv.still view rfl rfl rfl rfl rfl rfl

/-- A process writes the mask of a child that it is making. -/
theorem childMask_wp {a : TrAct} {answer : a.Resp} {old due : UInt32} (running : v.running = true)
    (child : v.child np = some (old, due))
    (step : ∀ s c, s.status t = .running → s.view t = v → trMachine t c a s =
      .ok answer (s.setMask np mask)) :
    wp trMachine trOutline t a.run (fun _ v' => v' =
      { v with child := update v.child np (some (mask, due)) }) v := by
  refine trStep_wp running fun s c inv view now => ?_
  obtain ⟨used, pair⟩ := TrState.view_child now view child (Option.some_ne_none _)
  obtain ⟨-, rfl⟩ := Prod.mk.inj (Option.some.inj pair)
  have unready : s.status np ≠ .runnable := by
    rw [used]
    exact Status.noConfusion
  rw [step s c now view]
  refine ⟨inv.setMask unready, fun q other => TrState.view_setMask (fun runs => ?_) ?_,
    (TrState.view_setMask_child now used).trans (by rw [view])⟩
  · rintro rfl
    cases runs.symm.trans used
  · rw [used]
    rintro ⟨⟩
    exact other rfl

theorem clearMask_wp {old due : UInt32} (running : v.running = true) (child : v.child np = some (old, due)) :
    wp trMachine trOutline t (TrAct.clearMask np).run
      (fun _ v' => v' = { v with child := update v.child np (some (0, due)) }) v :=
  childMask_wp running child fun _ _ _ _ => rfl

/-- The child gets the mask of its parent. -/
theorem copyMask_wp {old due : UInt32} (running : v.running = true) (child : v.child np = some (old, due)) :
    wp trMachine trOutline t (TrAct.copyMask np).run
      (fun _ v' => v' = { v with child := update v.child np (some (v.mask, due)) }) v := by
  refine childMask_wp running child fun s c now view => show trMachine t c (.copyMask np) s = .ok () _ from ?_
  have own : v.mask = s.traceMask t := by rw [← view, TrState.view_of_running now]
  rw [own]
  rfl

/-- A child is no longer in the making: it may run, or its slot is given up. -/
theorem release_wp {a : TrAct} {answer : a.Resp} {new : Status} {m due : UInt32} (running : v.running = true)
    (child : v.child np = some (m, due))
    (step : ∀ s c, ∃ s', trMachine t c a s = .ok answer s' ∧ s'.status = (s.setStatus np new).status ∧
      s'.traceMask = s.traceMask ∧ s'.birth = s.birth ∧ s'.births = s.births ∧ s'.log = s.log)
    (plain : ∀ q, new ≠ .used q) (stops : new ≠ .running) (made : new = .runnable → m = due) :
    wp trMachine trOutline t a.run (fun _ v' => v' = { v with child := update v.child np none }) v := by
  refine trStep_wp running fun s c inv view now => ?_
  obtain ⟨used, pair⟩ := TrState.view_child now view child (Option.some_ne_none _)
  obtain ⟨rfl, rfl⟩ := Prod.mk.inj (Option.some.inj pair)
  obtain ⟨s', eq, status, traceMask, birth, births, log⟩ := step s c
  have unrun : s.status np ≠ .running := by
    rw [used]
    exact Status.noConfusion
  have views := TrState.view_same (s := s.setStatus np new) status traceMask birth log
  rw [eq]
  refine ⟨TrInv.congr (inv.setStatus (.inr ?_) made (fun _ => inv.quiet np unrun) plain)
    status traceMask birth
    births log, fun q other => (views q).trans ?_, (views t).trans ?_⟩
  · rw [used]
    exact Status.noConfusion
  · refine TrState.view_setStatus (fun _ => iff_of_false stops unrun) plain fun own => ?_
    rw [used] at own
    cases own
    exact other rfl
  · refine (TrState.view_release now ?_ plain).trans (by rw [view])
    rintro rfl
    exact unrun now

theorem freeproc_wp {m due : UInt32} (running : v.running = true) (child : v.child np = some (m, due)) :
    wp trMachine trOutline t (TrAct.freeproc np).run
      (fun _ v' => v' = { v with child := update v.child np none }) v :=
  release_wp running child (fun s _ => ⟨s.freeproc np, rfl, rfl, rfl, rfl, rfl, rfl⟩)
    (fun _ => Status.noConfusion) Status.noConfusion Status.noConfusion

theorem setRunnable_wp {m : UInt32} (running : v.running = true) (child : v.child np = some (m, m)) :
    wp trMachine trOutline t (TrAct.setRunnable np).run
      (fun _ v' => v' = { v with child := update v.child np none }) v :=
  release_wp running child (fun s _ => ⟨s.setStatus np .runnable, rfl, rfl, rfl, rfl, rfl, rfl⟩)
    (fun _ => Status.noConfusion) Status.noConfusion fun _ => rfl

/-- `wait` takes the slot of a process that has stopped for good. -/
theorem reap_wp (running : v.running = true) :
    wp trMachine trOutline t TrAct.reap.run (fun _ v' => v' = v) v := by
  refine trStep_wp running fun s c inv view now => ?_
  simp only [trMachine]
  split
  next =>
    split
    next found =>
      obtain ⟨-, dead⟩ := found
      have unrun : s.status c.proc ≠ .running := by
        rw [dead]
        exact Status.noConfusion
      have views : ∀ q, (s.freeproc c.proc).view q = (s.setStatus c.proc .unused).view q :=
        TrState.view_same rfl rfl rfl rfl
      have kept : ∀ q, (s.setStatus c.proc .unused).view q = s.view q := fun q =>
        TrState.view_setStatus (fun _ => iff_of_false Status.noConfusion unrun)
          (fun _ => Status.noConfusion) (by
          rw [dead]
          exact Status.noConfusion)
      refine ⟨TrInv.congr (s := s.setStatus c.proc .unused) (inv.setStatus (.inl rfl) ?_
        (fun _ => inv.quiet _ unrun) fun _ => Status.noConfusion) rfl rfl rfl rfl rfl,
        fun q _ => (views q).trans (kept q), ((views t).trans (kept t)).trans view⟩
      exact Status.noConfusion
    next => trivial
  next => exact inv.still view rfl rfl rfl rfl rfl rfl

/-- The last step of `exit`. -/
theorem setZombie_wp (running : v.running = true) (clean : ∀ q, v.child q = none) :
    wp trMachine trOutline t TrAct.setZombie.run (fun _ v' => v' = .away) v := by
  refine trStep_wp running fun s c inv view now => ?_
  have childless : ∀ r, s.status r ≠ .used t := by
    intro r used
    have child := clean r
    rw [← view, TrState.view_of_running now] at child
    simp [used] at child
  refine ⟨inv.setStatus (.inr ?_) ?_ (fun _ => childless) fun _ => Status.noConfusion, fun q other => ?_, ?_⟩
  · rw [now]
    exact Status.noConfusion
  · exact Status.noConfusion
  · refine TrState.view_setStatus (fun same => absurd same other) (fun _ => Status.noConfusion) ?_
    rw [now]
    exact Status.noConfusion
  · refine if_neg ?_
    rw [TrState.setStatus_self]
    exact Status.noConfusion

/-- A new process begins to run with the mask that it was given. -/
theorem forkret_wp : wp trMachine trOutline t TrAct.forkret.run (fun _ v' => v'.Settled) .away := by
  refine wp_step fun s c inv view => ⟨trivial, fun _ => ?_⟩
  simp only [trMachine]
  split
  next ready =>
    have unrun : s.status t ≠ .running := by
      rw [ready]
      exact Status.noConfusion
    have childless := inv.quiet t unrun
    have now : (s.setStatus t .running).status t = .running := TrState.setStatus_self
    refine ⟨inv.setStatus (.inr ?_) Status.noConfusion (fun stops => absurd rfl stops)
      fun _ => Status.noConfusion, fun q other => ?_, ?_⟩
    · rw [ready]
      exact Status.noConfusion
    · refine TrState.view_setStatus (fun same => absurd same other) (fun _ => Status.noConfusion) ?_
      rw [ready]
      exact Status.noConfusion
    · rw [show trOutline.view t (s.setStatus t .running) = _ from TrState.view_of_running now]
      refine ⟨rfl, inv.mask t ready, fun q => if_neg ?_⟩
      by_cases same : q = t
      · rw [same, TrState.setStatus_self]
        exact Status.noConfusion
      · rw [TrState.setStatus_ne same]
        exact childless q
  next => trivial

end Rules

section Calls

/-- What a process starts from and comes back to with each entry. -/
def Idle (_ : ProcId) (v : TrView) : Prop := v.running = true → v.Settled

theorem away_idle : Idle t .away := fun running => by cases running

/-- A child in the making that is given up leaves the view as it was. -/
theorem TrView.Settled.restored (settled : v.Settled) (o : Option (UInt32 × UInt32)) :
    { v with child := update (update v.child np o) np none } = v := by
  have same : update (update v.child np o) np none = v.child := by
    rw [update_idem, ← settled.clean np, update_eq_self]
  rw [same]

theorem allocproc_wp (settled : v.Settled) :
    wp trMachine trOutline t allocproc (fun answer v' => match answer with
      | none => v' = v
      | some np => ∃ mask, v' = { v with child := update v.child np (some (mask, v.due)) }) v := by
  refine wp_seq (findUnused_wp settled.running) fun answer v₁ taken => ?_
  cases answer with
  | none => exact taken
  | some np =>
    obtain ⟨mask, rfl⟩ := taken
    have here : update v.child np (some (mask, v.due)) np = some (mask, v.due) := update_self ..
    have fails : wp trMachine trOutline t (do (TrAct.freeproc np).run; return none)
        (fun (answer : Option ProcId) v' => match answer with
          | none => v' = v
          | some np => ∃ mask, v' = { v with child := update v.child np (some (mask, v.due)) })
        { v with child := update v.child np (some (mask, v.due)) } := by
      refine wp_seq (freeproc_wp settled.running here) fun _ v₂ freed => ?_
      exact freed.trans (settled.restored _)
    refine wp_seq (alloc_wp settled.running) fun ok v₂ same => ?_
    subst same
    cases ok with
    | false => exact fails
    | true =>
      refine wp_seq (alloc_wp settled.running) fun ok v₃ same => ?_
      subst same
      cases ok with
      | false => exact fails
      | true =>
        refine wp_seq (clearMask_wp settled.running here) fun _ v₄ cleared => ⟨0, cleared.trans ?_⟩
        dsimp only
        rw [update_idem]

theorem fork_wp (settled : v.Settled) : wp trMachine trOutline t fork (fun _ v' => v' = v) v := by
  refine wp_seq (allocproc_wp settled) fun answer v₁ made => ?_
  cases answer with
  | none => exact made
  | some np =>
    obtain ⟨mask, rfl⟩ := made
    have here : update v.child np (some (mask, v.due)) np = some (mask, v.due) := update_self ..
    refine wp_seq (alloc_wp settled.running) fun ok v₂ same => ?_
    subst same
    cases ok with
    | false =>
      refine wp_seq (freeproc_wp settled.running here) fun _ v₃ freed => ?_
      exact freed.trans (settled.restored _)
    | true =>
      refine wp_seq (copyMask_wp settled.running here) fun _ v₃ copied => ?_
      -- the maker's mask is the one that the history gives it, and so the child's
      have due : v₃ = { v with child := update v.child np (some (v.due, v.due)) } := by
        rw [copied, update_idem, settled.mask]
      subst due
      refine wp_seq (getPid_wp settled.running) fun pid v₄ same => ?_
      subst same
      refine wp_seq (setParent_wp settled.running) fun _ v₅ same => ?_
      subst same
      refine wp_seq (setRunnable_wp settled.running (update_self ..)) fun _ v₆ released => ?_
      exact released.trans (settled.restored _)

theorem exit_wp {p : ProcId} (running : v.running = true) (clean : ∀ q, v.child q = none) :
    wp trMachine trOutline t (exit p) (fun _ v' => v' = .away) v := by
  have leaves : wp trMachine trOutline t (do TrAct.reparent.run; TrAct.setZombie.run)
    (fun _ v' => v' = .away) v := by
    refine wp_seq (reparent_wp running) fun _ v₁ same => ?_
    subst same
    exact setZombie_wp running clean
  unfold exit
  split
  next =>
    refine wp_seq (R := fun _ v' => v' = v) (fun s c _ _ => ⟨trivial, fun _ => rfl⟩) fun _ v₁ same => ?_
    subst same
    exact leaves
  next => exact leaves

theorem wait_wp (running : v.running = true) : wp trMachine trOutline t wait (fun _ v' => v' = v) v := by
  refine wp_seq (reap_wp running) fun answer v₁ same => ?_
  cases answer <;> exact same

theorem exec_wp (running : v.running = true) : wp trMachine trOutline t exec (fun _ v' => v' = v) v := by
  refine wp_seq (alloc_wp running) fun ok v₁ same => ?_
  subst same
  cases ok with
  | false => exact rfl
  | true => exact elsewhere_wp running

/-- A system call that returns leaves its process with the mask that the history gives it, `trace` by setting
it. -/
theorem syscalls_wp {p : ProcId} {num : Nat} {arg : UInt32} (settled : v.Settled) :
    wp trMachine trOutline t (syscalls p num arg) (fun answer v' => match answer with
      | none => v' = .away
      | some _ => v'.Settled) { v with due := if num = SYS_trace then arg else v.due } := by
  by_cases trace : num = SYS_trace
  · subst trace
    refine wp_seq (wp_seq (setMask_wp settled.running) fun _ _ set => ?_) fun _ _ done => done
    subst set
    have due : (if SYS_trace = SYS_trace then arg else v.due) = arg := if_pos rfl
    exact ⟨settled.running, due.symm, settled.clean⟩
  · rw [if_neg trace]
    unfold syscalls
    split
    next => exact wp_seq (fork_wp settled) fun _ _ same => same ▸ settled
    split
    next => exact wp_seq (exit_wp settled.running settled.clean) fun _ _ away => away
    split
    next => exact wp_seq (wait_wp settled.running) fun _ _ same => same ▸ settled
    split
    next => exact wp_seq (exec_wp settled.running) fun _ _ same => same ▸ settled
    exact wp_seq (elsewhere_wp settled.running) fun _ _ same => same ▸ settled

/-- `trace_mask & (1 << num)` tests the bit. -/
theorem and_shiftLeft {mask : UInt32} {num : Nat} (small : num < 32) :
    mask &&& (1 <<< UInt32.ofNat num) ≠ 0 ↔ mask.toNat.testBit num = true := by
  have value : (mask &&& (1 <<< UInt32.ofNat num)).toNat = mask.toNat &&& 2 ^ num := by
    have low : (2 : Nat) ^ num < 2 ^ 32 := Nat.pow_lt_pow_right (by omega) small
    have amount : num % 2 ^ 32 % 32 = num := by omega
    rw [UInt32.toNat_and, UInt32.toNat_shiftLeft, UInt32.toNat_ofNat', amount,
      UInt32.toNat_one, Nat.shiftLeft_eq,
      one_mul, Nat.mod_eq_of_lt low]
  rw [Ne, ← UInt32.toNat_inj, value, UInt32.toNat_zero, Nat.and_two_pow]
  cases mask.toNat.testBit num with
  | false => simp
  | true => simp

theorem syscall_wp {p : ProcId} {num : Int} {arg : UInt32} (settled : v.Settled) :
    wp trMachine trOutline t (syscall p num arg) (fun _ v' => Idle t v') v := by
  refine wp_seq (enter_wp settled.running) fun _ v₁ entered => ?_
  subst entered
  split
  next valid =>
    obtain ⟨n, rfl⟩ := Int.eq_ofNat_of_zero_le valid.1.le
    have due : (if (n : Int) = SYS_trace then arg else v.due) = if n = SYS_trace then arg else v.due :=
      if_congr Int.natCast_inj rfl rfl
    rw [due]
    refine wp_seq (syscalls_wp settled) fun answer v₂ done => ?_
    cases answer with
    | none =>
      obtain rfl : v₂ = .away := done
      exact away_idle (t := t)
    | some a0 =>
      have done : v₂.Settled := done
      refine wp_seq (self_wp done.running) fun own v₃ read => ?_
      obtain ⟨pid, mask⟩ := own
      obtain ⟨own, rfl⟩ := read
      replace own : mask = v₃.mask := own
      have test := @and_shiftLeft mask n (by unfold NSYSCALLS at valid; omega)
      have back : ∀ v₄, v₄ = v₃ → Idle t v₄ := fun _ same => same ▸ fun _ => done
      by_cases set : mask &&& (1 <<< UInt32.ofNat n) ≠ 0
      · show wp _ _ _ (ite _ _ _) _ _
        rw [Int.toNat_natCast, if_pos set]
        exact wp_mono (fun _ => back) (returned_wp done (iff_of_true rfl (own ▸ test.mp set)))
      · show wp _ _ _ (ite _ _ _) _ _
        rw [Int.toNat_natCast, if_neg set]
        exact wp_mono (fun _ => back) (returned_wp done (iff_of_false Bool.false_ne_true fun bit =>
          set (test.mpr (own ▸ bit))))
  next invalid =>
    have other : num ≠ SYS_trace := by
      rintro rfl
      exact invalid (by decide)
    rw [if_neg other]
    refine wp_mono (fun _ v₂ same => ?_) (unknown_wp settled.running)
    exact same ▸ fun _ => settled

theorem Entry.code_wp {call : ProcId × Entry} (idle : Idle t (s.view t)) (legal : trCalls.legal t s call) :
    wp trMachine trOutline t (trCalls.code call) (fun _ => Idle t) (s.view t) := by
  obtain ⟨p, entry⟩ := call
  obtain ⟨rfl, legal⟩ := legal
  cases entry with
  | syscall num arg =>
    have running := TrState.view_running.mpr legal
    exact syscall_wp (idle running)
  | killed =>
    have running := TrState.view_running.mpr legal
    refine wp_mono (fun _ v' away => ?_) (exit_wp running (idle running).clean)
    rw [away]
    exact away_idle
  | forkret =>
    have away : s.view p = .away := if_neg legal
    rw [away]
    exact wp_mono (fun _ _ settled _ => settled) forkret_wp

end Calls

variable {x : TrConfig}

theorem trReach_holds (run : Reach trMachine (fun _ _ _ => True) trCalls trStart x) :
    trOutline.Holds trMachine Idle x := by
  have first : ∀ p, boot.status p ≠ .unused → p = initproc := fun p live =>
    by_contra fun other => live (if_neg other)
  have unmade : ∀ q r, boot.status r ≠ .used q := by
    intro q r
    unfold boot
    simp only
    split <;> exact Status.noConfusion
  have inv : TrInv trStart.shared :=
    ⟨fun p _ => Nat.one_pos, fun p q liveP liveQ _ => (first p liveP).trans (first q liveQ).symm,
    fun p _ => rfl, fun q _ => unmade q, trivial⟩
  have start : trOutline.Holds trMachine Idle trStart := ⟨inv, fun t => ?_⟩
  · exact start.reach trOutline_isolated (fun t s call _ idle legal => Entry.code_wp idle legal) run
  refine wp_pure.mpr fun running => ?_
  have now : boot.status t = .running := TrState.view_running.mp running
  rw [show trOutline.view t trStart.shared = boot.view t from rfl, TrState.view_of_running now]
  exact ⟨rfl, rfl, fun q => if_neg (unmade t q)⟩

/-- In every run, at each return from a system call the trace line is printed exactly if the bit of the call
is set in the mask that the history gives the process. -/
theorem trace_follows (run : Reach trMachine (fun _ _ _ => True) trCalls trStart x)
    (later earlier : List Event)
    (p num : Nat) (line : Option Line) (history : x.shared.log = later ++ .returned p num line :: earlier) :
    line.isSome = true ↔ (maskOf earlier p).toNat.testBit num = true := by
  have printed : Printed x.shared.log := (trReach_holds run).inv.log
  rw [history] at printed
  exact printed.earlier.1

/-- The choice of a step that succeeds, with the slot after the first one. -/
def succeeds : TrChoice := ⟨true, ⟨1, one_lt_NPROC⟩, 0⟩

/-- The first process traces `fork`, forks and then traces nothing more, and the child forks in its turn. -/
def forkTraced : List (Move ProcId TrChoice (ProcId × Entry)) :=
  .call initproc (initproc, .syscall 22 0x2) :: List.replicate 4 (.act initproc succeeds) ++
    .call initproc (initproc, .syscall 1 0) :: List.replicate 12 (.act initproc succeeds) ++
    .call initproc (initproc, .syscall 22 0) :: List.replicate 4 (.act initproc succeeds) ++
    .call ⟨1, one_lt_NPROC⟩ (⟨1, one_lt_NPROC⟩, .forkret) :: .act ⟨1, one_lt_NPROC⟩ succeeds ::
    .call ⟨1, one_lt_NPROC⟩ (⟨1, one_lt_NPROC⟩, .syscall 1 0) ::
    List.replicate 4 (.act ⟨1, one_lt_NPROC⟩ ⟨false, initproc, 0⟩)

theorem trace_follows_forkTraced : ∃ x : TrConfig, ∃ earlier,
    x.shared.log = [] ++ .returned 1 1 (some ⟨2, "fork", -1⟩) :: earlier ∧
      ((some (⟨2, "fork", -1⟩ : Line)).isSome = true ↔ (maskOf earlier 1).toNat.testBit 1 = true) := by
  obtain ⟨x, run, found⟩ := Option.map_eq_some_iff.mp
    (show (drive trMachine (fun _ _ _ => True) trCalls forkTraced trStart).map (fun x => x.shared.log) =
      some [.returned 1 1 (some ⟨2, "fork", -1⟩), .called 1 1 0, .returned 0 22 none, .called 0 22 0,
        .returned 0 1 (some ⟨1, "fork", 2⟩), .made 0 1, .called 0 1 0, .returned 0 22 none, .called 0 22 2] by
      decide +kernel)
  exact ⟨x, _, found, trace_follows (drive_reach run) [] _ 1 1 _ found⟩

end Xv6.Trace
