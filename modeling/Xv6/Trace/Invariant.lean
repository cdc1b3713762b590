import Xv6.Trace.Machine

namespace Xv6.Trace
open Threads Function
open Ftable (Status)

/-- The process whose mask an event determines. -/
def Event.target : Event → Option Nat
  | .called p num _ => if num = SYS_trace then some p else none
  | .made _ child => some child
  | _ => none

theorem maskOf_other {e : Event} {p : Nat} (log : List Event) (other : e.target ≠ some p) :
    maskOf (e :: log) p = maskOf log p := by
  cases e with
  | called q num arg =>
    refine if_neg fun ⟨same, trace⟩ => other ?_
    exact (if_pos trace).trans (congrArg some same)
  | made parent child => exact if_neg fun same => other (congrArg some same)
  | returned => rfl
  | unknown => rfl

/-- Every line of the trace is printed for the right reason. -/
def Printed : List Event → Prop
  | [] => True
  | .returned p num line :: earlier =>
    (line.isSome = true ↔ (maskOf earlier p).toNat.testBit num = true) ∧ Printed earlier
  | _ :: earlier => Printed earlier

theorem Printed.earlier {later log : List Event} (printed : Printed (later ++ log)) : Printed log := by
  induction later with
  | nil => exact printed
  | cons e later ih =>
    cases e with
    | returned => exact ih printed.2
    | _ => exact ih printed

/-- The mask that the history gives a process. -/
def TrState.due (s : TrState) (p : ProcId) : UInt32 := maskOf s.log (s.birth p)

/-- What holds of the process table between any two steps: live processes have numbers of their own, and a
process that is to run has the mask that the history gives it. -/
structure TrInv (s : TrState) : Prop where
  births : ∀ p, s.status p ≠ .unused → s.birth p < s.births
  distinct : ∀ p q, s.status p ≠ .unused → s.status q ≠ .unused → s.birth p = s.birth q → p = q
  mask : ∀ p, s.status p = .runnable → s.traceMask p = s.due p
  quiet : ∀ q, s.status q ≠ .running → ∀ r, s.status r ≠ .used q
  log : Printed s.log

/-- What a running process may rely on between its steps: the mask that it has and the one that the history
gives it, and both of each child that it is making. -/
@[ext] structure TrView where
  running : Bool
  mask : UInt32
  due : UInt32
  child : ProcId → Option (UInt32 × UInt32)

/-- The view of a process that does not run. -/
def TrView.away : TrView := ⟨false, 0, 0, fun _ => none⟩

/-- A running process between two calls. -/
structure TrView.Settled (v : TrView) : Prop where
  running : v.running = true
  mask : v.mask = v.due
  clean : ∀ q, v.child q = none

def TrState.view (t : ProcId) (s : TrState) : TrView :=
  if s.status t = .running then
    ⟨true, s.traceMask t, s.due t, fun q => if s.status q = .used t then some (s.traceMask q,
      s.due q) else none⟩
  else .away

def trOutline : Outline ProcId TrState TrView TrAct where
  inv := TrInv
  view := TrState.view
  guar t before after := ∀ other, other ≠ t → after.view other = before.view other
  allowed _ _ _ := True
  owes _ _ _ := True
  mayPanic _ _ _ message := message = "init exiting"

theorem trOutline_isolated : trOutline.Isolated := fun _ _ _ h => h

variable {s s' : TrState} {t np : ProcId} {v : TrView}

theorem TrState.view_of_running (running : s.status t = .running) : s.view t =
    ⟨true, s.traceMask t, s.due t, fun q => if s.status q = .used t then some (s.traceMask q,
      s.due q) else none⟩ :=
  if_pos running

theorem TrState.view_running : (s.view t).running = true ↔ s.status t = .running := by
  unfold TrState.view
  split
  next running => exact iff_of_true rfl running
  next away => exact iff_of_false Bool.false_ne_true away

/-- A child in the making, as its maker sees it. -/
theorem TrState.view_child {o : Option (UInt32 × UInt32)} (running : s.status t = .running)
    (view : s.view t = v)
    (child : v.child np = o) (made : o ≠ none) : s.status np = .used t ∧
    o = some (s.traceMask np, s.due np) := by
  rw [← view, TrState.view_of_running running] at child
  by_cases used : s.status np = .used t
  · exact ⟨used, child.symm.trans (if_pos used)⟩
  · exact absurd (child.symm.trans (if_neg used)) made

/-- What another process relies on depends on its own masks and on the children that it is making. -/
theorem TrState.view_congr {q : ProcId} (runs : s'.status q = .running ↔ s.status q = .running)
    (own : s.status q = .running → s'.traceMask q = s.traceMask q ∧ s'.due q = s.due q)
    (used : ∀ r, s'.status r = .used q ↔ s.status r = .used q)
    (child : ∀ r, s.status r = .used q → s'.traceMask r = s.traceMask r ∧ s'.due r = s.due r) :
    s'.view q = s.view q := by
  by_cases running : s.status q = .running
  · obtain ⟨mask, due⟩ := own running
    rw [TrState.view_of_running running, TrState.view_of_running (runs.mpr running)]
    refine TrView.ext rfl mask due (funext fun r => ?_)
    by_cases making : s.status r = .used q
    · obtain ⟨mask', due'⟩ := child r making
      simp only [(used r).mpr making, making, if_true, mask', due']
    · have making' : ¬ s'.status r = .used q := fun made => making ((used r).mp made)
      simp only [making', making, if_false]
  · have away : ¬ s'.status q = .running := fun running' => running (runs.mp running')
    exact (if_neg away).trans (if_neg running).symm

/-- A step changes what its process sees of one child. -/
theorem TrState.view_update {o : Option (UInt32 × UInt32)} (running : s.status t = .running)
    (running' : s'.status t = .running) (mask : s'.traceMask t = s.traceMask t) (due : s'.due t = s.due t)
    (here : (if s'.status np = .used t then some (s'.traceMask np, s'.due np) else none) = o)
    (others : ∀ r, r ≠ np → (s'.status r = .used t ↔ s.status r = .used t) ∧
      (s.status r = .used t → s'.traceMask r = s.traceMask r ∧ s'.due r = s.due r)) :
    s'.view t = { s.view t with child := update (s.view t).child np o } := by
  have child : (s'.view t).child = update (s.view t).child np o := by
    rw [TrState.view_of_running running, TrState.view_of_running running']
    refine funext fun r => ?_
    by_cases same : r = np
    · subst same
      rw [update_self]
      exact here
    · rw [update_of_ne same]
      obtain ⟨used, child⟩ := others r same
      by_cases making : s.status r = .used t
      · obtain ⟨mask', due'⟩ := child making
        simp only [used.mpr making, making, if_true, mask', due']
      · have making' : ¬ s'.status r = .used t := fun made => making (used.mp made)
        simp only [making', making, if_false]
  rw [TrState.view_of_running running'] at child ⊢
  rw [TrState.view_of_running running] at child ⊢
  exact TrView.ext rfl mask due child

/-- The rule for one step of a running process. -/
theorem trStep_wp {a : TrAct} {Q : a.Resp → TrView → Prop} (running : v.running = true)
    (h : ∀ s c, TrInv s → s.view t = v → s.status t = .running →
      trOutline.After t a s Q (trMachine t c a s)) :
    wp trMachine trOutline t a.run Q v := by
  refine wp_step fun s c inv view => ⟨trivial, fun _ => ?_⟩
  have view : s.view t = v := view
  exact h s c inv view (TrState.view_running.mp (by rw [view]; exact running))

/-- The invariant and the views stand when only the parents and the pids change. -/
theorem TrInv.congr (h : TrInv s) (status : s'.status = s.status) (mask : s'.traceMask = s.traceMask)
    (birth : s'.birth = s.birth) (births : s'.births = s.births) (log : s'.log = s.log) : TrInv s' := by
  refine ⟨?_, ?_, ?_, ?_, ?_⟩ <;> simp only [TrState.due, status, mask, birth, births, log]
  exacts [h.births, h.distinct, h.mask, h.quiet, h.log]

theorem TrState.view_same (status : s'.status = s.status) (mask : s'.traceMask = s.traceMask)
    (birth : s'.birth = s.birth) (log : s'.log = s.log) (q : ProcId) : s'.view q = s.view q := by
  unfold TrState.view TrState.due
  simp only [status, mask, birth, log]

section Record

variable {e : Event} {p : ProcId} {mask : UInt32}

theorem TrState.due_record (other : e.target ≠ some (s.birth p)) : (s.record e).due p = s.due p :=
  maskOf_other _ other

theorem TrInv.record (h : TrInv s) (printed : Printed (e :: s.log))
    (target : ∀ p, s.status p = .runnable → e.target ≠ some (s.birth p)) : TrInv (s.record e) :=
  ⟨h.births, h.distinct, fun p made => (h.mask p made).trans (TrState.due_record (target p made)).symm,
    h.quiet, printed⟩

theorem TrState.view_record (own : s.status t = .running → e.target ≠ some (s.birth t))
    (target : ∀ p, s.status p = .used t → e.target ≠ some (s.birth p)) : (s.record e).view t = s.view t :=
  TrState.view_congr Iff.rfl (fun running => ⟨rfl, TrState.due_record (own running)⟩)
  (fun _ => Iff.rfl) fun p making =>
    ⟨rfl, TrState.due_record (target p making)⟩

/-- What is recorded of a process does not concern the others. -/
theorem TrInv.target_other (h : TrInv s) (live : s.status t ≠ .unused)
    (here : s.status p ≠ .unused) (other : p ≠ t)
    (target : e.target = some (s.birth t) ∨ e.target = none) : e.target ≠ some (s.birth p) := by
  intro same
  rcases target with own | none
  · exact other (h.distinct p t here live (Option.some.inj (same.symm.trans own)))
  · cases none.symm.trans same

theorem TrInv.setMask (h : TrInv s) (unready : s.status np ≠ .runnable) : TrInv (s.setMask np mask) := by
  refine ⟨h.births, h.distinct, fun p ready => ?_, h.quiet, h.log⟩
  have other : p ≠ np := by
    rintro rfl
    exact unready ready
  exact (update_of_ne other ..).trans (h.mask p ready)

theorem TrState.view_setMask (other : s.status t = .running → t ≠ np) (apart : s.status np ≠ .used t) :
    (s.setMask np mask).view t = s.view t := by
  refine TrState.view_congr Iff.rfl (fun running => ⟨update_of_ne (other running) .., rfl⟩) (fun _ => Iff.rfl)
    fun r making => ⟨update_of_ne ?_ .., rfl⟩
  rintro rfl
  exact apart making

/-- A process sets the mask of a child that it is making. -/
theorem TrState.view_setMask_child (running : s.status t = .running) (used : s.status np = .used t) :
    (s.setMask np mask).view t = { s.view t with
      child := update (s.view t).child np (some (mask, s.due np)) } := by
  have other : t ≠ np := by
    rintro rfl
    cases running.symm.trans used
  have here : (s.setMask np mask).traceMask np = mask := update_self ..
  refine TrState.view_update running running (update_of_ne other ..) rfl
    ((if_pos used).trans ?_) fun r apart =>
    ⟨Iff.rfl, fun _ => ⟨update_of_ne apart .., rfl⟩⟩
  rw [here]
  rfl

end Record

section Status

variable {p q : ProcId} {new : Status}

@[simp] theorem TrState.setStatus_self : (s.setStatus p new).status p = new := update_self ..

theorem TrState.setStatus_ne (other : q ≠ p) : (s.setStatus p new).status q = s.status q :=
  update_of_ne other ..

@[simp] theorem TrState.take_self : (s.take t p).status p = .used t := update_self ..

theorem TrState.take_ne (other : q ≠ p) : (s.take t p).status q = s.status q := update_of_ne other ..

/-- A process that is being made becomes runnable or goes, or another one begins to run or stops for good. -/
theorem TrInv.setStatus (h : TrInv s) (live : new = .unused ∨ s.status p ≠ .unused)
    (made : new = .runnable → s.traceMask p = s.due p) (idle : new ≠ .running → ∀ r, s.status r ≠ .used p)
    (plain : ∀ q, new ≠ .used q) : TrInv (s.setStatus p new) := by
  have before : ∀ q, (s.setStatus p new).status q ≠ .unused → s.status q ≠ .unused := by
    intro q now
    by_cases same : q = p
    · subst same
      have now : new ≠ .unused := by rwa [TrState.setStatus_self] at now
      exact live.resolve_left now
    · rwa [TrState.setStatus_ne same] at now
  refine ⟨fun q now => h.births q (before q now), fun q r nowQ nowR => h.distinct q r
    (before q nowQ) (before r nowR),
    fun q now => ?_, fun q now r => ?_, h.log⟩
  · by_cases same : q = p
    · subst same
      rw [TrState.setStatus_self] at now
      exact made now
    · rw [TrState.setStatus_ne same] at now
      exact h.mask q now
  · have unmade : s.status r ≠ .used q := by
      by_cases same : q = p
      · subst same
        rw [TrState.setStatus_self] at now
        exact idle now r
      · rw [TrState.setStatus_ne same] at now
        exact h.quiet q now r
    by_cases same : r = p
    · rw [same, TrState.setStatus_self]
      exact plain q
    · rwa [TrState.setStatus_ne same]

theorem TrState.view_setStatus (runs : q = p → (new = .running ↔ s.status p = .running))
    (plain : ∀ q, new ≠ .used q)
    (apart : s.status p ≠ .used q) : (s.setStatus p new).view q = s.view q := by
  refine TrState.view_congr ?_ (fun _ => ⟨rfl, rfl⟩) (fun r => ?_) fun _ _ => ⟨rfl, rfl⟩
  · by_cases same : q = p
    · rw [same, TrState.setStatus_self]
      exact runs same
    · rw [TrState.setStatus_ne same]
  · by_cases same : r = p
    · rw [same, TrState.setStatus_self]
      exact iff_of_false (plain q) apart
    · rw [TrState.setStatus_ne same]

/-- A child is no longer in the making. -/
theorem TrState.view_release (running : s.status t = .running) (other : p ≠ t) (plain : ∀ q, new ≠ .used q) :
    (s.setStatus p new).view t = { s.view t with child := update (s.view t).child p none } := by
  refine TrState.view_update running ((TrState.setStatus_ne other.symm).trans running) rfl rfl
    (if_neg ?_) fun r apart => ?_
  · rw [TrState.setStatus_self]
    exact plain t
  · rw [TrState.setStatus_ne apart]
    exact ⟨Iff.rfl, fun _ => ⟨rfl, rfl⟩⟩

/-- A process that is being made has to have the mask of its maker. -/
theorem TrState.due_take_self : (s.take t p).due p = s.due t := by
  have born : (s.take t p).birth p = s.births := update_self ..
  unfold TrState.due
  rw [born]
  exact if_pos rfl

theorem TrInv.due_take {r : ProcId} (h : TrInv s) (live : s.status r ≠ .unused) (other : r ≠ p) :
    (s.take t p).due r = s.due r := by
  have born : (s.take t p).birth r = s.birth r := update_of_ne other ..
  unfold TrState.due
  rw [born]
  exact if_neg (h.births r live).ne'

theorem TrInv.take (h : TrInv s) (running : s.status t = .running) (free : s.status p = .unused) :
    TrInv (s.take t p) := by
  have fresh : ∀ q, (s.take t p).status q ≠ .unused → q ≠ p → s.status q ≠ .unused := fun q now other => by
    rwa [TrState.take_ne other] at now
  have born : ∀ q, (s.take t p).birth q = if q = p then s.births else s.birth q := fun q => update_apply ..
  refine ⟨fun q now => ?_, fun q r nowQ nowR same => ?_, fun q now => ?_, fun q now r => ?_, h.log⟩
  · rw [born q, show (s.take t p).births = s.births + 1 from rfl]
    split
    next => omega
    next other => exact (h.births q (fresh q now other)).trans (Nat.lt_succ_self _)
  · rw [born, born] at same
    split at same
    next eqQ =>
      split at same
      next eqR => exact eqQ.trans eqR.symm
      next other => exact absurd same.symm (h.births r (fresh r nowR other)).ne
    next otherQ =>
      split at same
      next => exact absurd same (h.births q (fresh q nowQ otherQ)).ne
      next otherR => exact h.distinct q r (fresh q nowQ otherQ) (fresh r nowR otherR) same
  · by_cases same : q = p
    · subst same
      rw [TrState.take_self] at now
      cases now
    · have live := fresh q (by rw [now]; exact Status.noConfusion) same
      rw [TrState.take_ne same] at now
      exact (h.mask q now).trans (h.due_take live same).symm
  · have stopped : s.status q ≠ .running := by
      by_cases same : q = p
      · rw [same, free]
        exact Status.noConfusion
      · rwa [TrState.take_ne same] at now
    by_cases same : r = p
    · rw [same, TrState.take_self]
      rintro ⟨⟩
      exact stopped running
    · rw [TrState.take_ne same]
      exact h.quiet q stopped r

end Status

end Xv6.Trace
