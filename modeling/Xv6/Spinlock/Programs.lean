import Xv6.Spinlock.Switches
import Mathlib.Data.Set.Card

namespace Xv6.Spinlock
open Threads State
open Function (update)

section Counting

variable {α : Type} {S : Set α} {a : α} {n k : Nat}

/-- So many as there are members, and `k` more. -/
def Counts (n : Nat) (S : Set α) (k : Nat) : Prop := (n : ENat) = S.encard + k

theorem Counts.join (h : Counts n S k) (new : a ∉ S) : Counts (n + 1) (insert a S) k := by
  show ((n + 1 : Nat) : ENat) = (insert a S).encard + k
  rw [Nat.cast_succ, h, Set.encard_insert_of_notMem new, add_right_comm]

theorem Counts.leave (h : Counts n S k) (member : a ∈ S) : 0 < n ∧ Counts (n - 1) (S \ {a}) k := by
  have more : (n : ENat) = (S \ {a}).encard + k + 1 := by
    rw [h, ← Set.encard_sdiff_singleton_add_one member, add_right_comm]
  cases n with
  | zero => exact absurd more.symm (by simp)
  | succ n =>
    rw [Nat.cast_succ] at more
    exact ⟨Nat.succ_pos n, ENat.add_left_injective_of_ne_top (by simp) more⟩

theorem Counts.more (h : Counts n S k) : Counts (n + 1) S (k + 1) := by
  show ((n + 1 : Nat) : ENat) = S.encard + (k + 1 : Nat)
  rw [Nat.cast_succ, Nat.cast_succ, h, add_assoc]

theorem Counts.fewer (h : Counts n S k) (positive : 0 < k) : 0 < n ∧ Counts (n - 1) S (k - 1) := by
  obtain ⟨k, rfl⟩ := Nat.exists_eq_succ_of_ne_zero (Nat.ne_of_gt positive)
  have more : (n : ENat) = S.encard + k + 1 := by
    rw [h, Nat.succ_eq_add_one, Nat.cast_succ, add_assoc]
  cases n with
  | zero => exact absurd more.symm (by simp)
  | succ n =>
    rw [Nat.cast_succ] at more
    exact ⟨Nat.succ_pos n, ENat.add_left_injective_of_ne_top (by simp) more⟩

theorem Counts.zero (h : Counts 0 S k) : S = ∅ ∧ k = 0 := by
  have none : S.encard + k = 0 := h.symm
  rw [add_eq_zero] at none
  exact ⟨Set.encard_eq_zero.mp none.1, by simpa using none.2⟩

theorem Counts.one (h : Counts n {a} 0) : n = 1 := by
  have single : (n : ENat) = ((1 : Nat) : ENat) := by
    rw [h, Set.encard_singleton]
    simp
  exact_mod_cast single

end Counting

variable {L : Type} {t : Tid} {v : View L} {p : ProcId} {lk : Lock L}

/-- Between two calls on a processor: `noff` counts the locks held and the open `push_off`s, and `intena` is
how a process had the interrupts when it raised `noff` from 0. -/
structure Rest (t : Tid) (v : View L) : Prop where
  inside : v.inside = true
  counted : Counts v.core.noff {lk | v.held lk = some true} v.opens
  whole : ∀ lk, v.held lk ≠ some false
  off : 0 < v.core.noff → v.core.intr = false
  raised : ∀ p, t = .proc p → 0 < v.core.noff → v.raised = some v.core.intena
  picked : ∀ p, t = .proc p → v.picked = none

/-- Where `noff` is 0, nothing is held. -/
theorem Rest.zero (h : Rest t v) (noff : v.core.noff = 0) : v.held = (fun _ => none) ∧ v.opens = 0 := by
  have counted := h.counted
  rw [noff] at counted
  obtain ⟨none, opens⟩ := counted.zero
  refine ⟨funext fun lk => ?_, opens⟩
  cases held : v.held lk with
  | none => rfl
  | some mine =>
    cases mine with
    | false => exact absurd held (h.whole lk)
    | true => exact absurd held (Set.eq_empty_iff_forall_notMem.mp none lk)

theorem Rest.off_zero (h : Rest t v) (on : v.core.intr = true) : v.core.noff = 0 :=
  Nat.eq_zero_of_not_pos fun positive => by
    rw [h.off positive] at on
    cases on

/-- Whoever holds nothing and has nothing open is at rest. -/
theorem Rest.bare (inside : v.inside = true) (noff : v.core.noff = 0) (held : v.held = fun _ => none)
    (opens : v.opens = 0)
    (picked : ∀ p, t = .proc p → v.picked = none) : Rest t v where
  inside := inside
  counted := by
    have none : {lk | v.held lk = some true} = ∅ := by
      rw [held]
      simp
    rw [none, noff, opens, Counts, Set.encard_empty]
    rfl
  whole lk := by rw [held]; simp
  off positive := absurd noff (Nat.ne_of_gt positive)
  raised _ _ positive := absurd noff (Nat.ne_of_gt positive)
  picked := picked

/-- Between two calls, or with no processor and none to come back to. -/
def Idle (t : Tid) (v : View L) : Prop := Rest t v ∨ ∃ p, t = .proc p ∧ v = .away 0 none none

/-- What a call asks of the one that makes it. -/
def View.Legal (t : Tid) (v : View L) : Call L → Prop
  | .acquire lk => v.held lk ≠ some true
  | .release lk => v.held lk = some true
  | .pushOff => True
  | .popOff => 0 < v.opens
  | .intrOff | .intrOn => v.core.noff = 0
  | .sched p | .exit p => t = .proc p ∧ (∀ lk, v.held lk = some true ↔ lk = .proc p) ∧ v.opens = 0
  | .forkret _ => False
  | .schedulerSlot _ => (∃ c, t = .cpu c) ∧ v.core.noff = 0

/-- What `push_off` leaves. -/
def View.pushed (v : View L) : View L :=
  { v with
    core := ⟨false, v.core.noff + 1, if v.core.noff = 0 then v.core.intr else v.core.intena⟩
    raised := if v.core.noff = 0 then some v.core.intr else v.raised }

/-- What `pop_off` leaves. -/
def View.popped (v : View L) : View L :=
  { v with core := ⟨decide (v.core.noff = 1) && v.core.intena, v.core.noff - 1, v.core.intena⟩ }

theorem Rest.pushed_raised (h : Rest t v) (mine : t = .proc p) :
    v.pushed.raised = some v.pushed.core.intena := by
  show (if v.core.noff = 0 then some v.core.intr else v.raised) =
    some (if v.core.noff = 0 then v.core.intr else v.core.intena)
  split
  next => rfl
  next nonzero => exact h.raised p mine (Nat.pos_of_ne_zero nonzero)

theorem Rest.opened (h : Rest t v) : Rest t { v.pushed with opens := v.opens + 1 } where
  inside := h.inside
  counted := h.counted.more
  whole := h.whole
  off _ := rfl
  raised _ mine _ := h.pushed_raised mine
  picked := h.picked

/-- `intena` is how the interrupts were when `noff` was raised from 0. -/
theorem Rest.restores (h : Rest t v) (positive : 0 < v.core.noff) {before : Bool} (mine : t = .proc p)
    (raised : v.raised = some before) : v.core.intena = before :=
  Option.some.inj ((h.raised p mine positive).symm.trans raised)

theorem View.popped_off (lower : 0 < v.popped.core.noff) : v.popped.core.intr = false := by
  have more : v.core.noff ≠ 1 := fun last => by
    rw [View.popped, last] at lower
    exact Nat.lt_irrefl 0 lower
  rw [View.popped, decide_eq_false more, Bool.false_and]

theorem Rest.closed (h : Rest t v) (opens : 0 < v.opens) :
    0 < v.core.noff ∧ Rest t { v.popped with opens := v.opens - 1 } := by
  obtain ⟨positive, counted⟩ := h.counted.fewer opens
  exact ⟨positive, h.inside, counted, h.whole, View.popped_off, fun q mine _ =>
    h.raised q mine positive, h.picked⟩

variable [DecidableEq L]

theorem holding_held {s : State L} {c : Cpu} (inv : Inv s) : s.holding c lk = true ↔
    s.held c lk = some true := by
  rw [State.holding, State.held, Bool.and_eq_true, decide_eq_true_iff]
  constructor
  · rintro ⟨_, mine⟩
    simp [inv.locks.lkCpu mine, mine]
  · intro held
    split at held
    next own =>
      rw [inv.locks.locked, own]
      exact ⟨rfl, by simpa using held⟩
    next => cases held

theorem holding_iff {s : State L} {c : Cpu} (inv : Inv s) (seat : s.seat t = some c) :
    s.holding c lk = true ↔ (s.view t).held lk = some true := by
  rw [view_seat seat]
  exact holding_held inv

theorem legal_view {s : State L} {c : Cpu} {k : Call L} (inv : Inv s) (seat : s.seat t = some c)
    (legal : s.Legal t c k) :
    (s.view t).Legal t k := by
  have zero : (s.core c).noff = 0 → (s.view t).core.noff = 0 := by
    rw [view_seat seat]
    exact id
  have opens : (s.view t).opens = s.opens t := by rw [view_seat seat]
  cases k with
  | acquire lk => exact fun held => by rw [State.Legal, (holding_iff inv seat).mpr held] at legal; cases legal
  | release lk => exact (holding_iff inv seat).mp legal
  | pushOff => trivial
  | popOff =>
    show 0 < (s.view t).opens
    rw [opens]
    exact legal
  | sched p => exact ⟨legal.1, fun lk => (holding_iff inv seat).symm.trans (legal.2.1 lk),
      opens.trans legal.2.2⟩
  | exit p => exact ⟨legal.1, fun lk => (holding_iff inv seat).symm.trans (legal.2.1 lk),
      opens.trans legal.2.2⟩
  | intrOff => exact zero legal
  | intrOn => exact zero legal
  | forkret p => exact legal
  | schedulerSlot p => exact ⟨⟨c, legal.1⟩, zero legal.2⟩

/-- With the lock of a process held and no other, and no `push_off` open, `noff` is 1. -/
theorem Rest.one (h : Rest t v) (sole : ∀ lk, v.held lk = some true ↔ lk = .proc p) (opens : v.opens = 0) :
    v.core.noff = 1 ∧ v.held = only p := by
  have counted := h.counted
  have single : {lk | v.held lk = some true} = {.proc p} := Set.ext sole
  rw [single, opens] at counted
  refine ⟨counted.one, funext fun lk => ?_⟩
  cases held : v.held lk with
  | none =>
    have other : lk ≠ .proc p := fun same => by
      rw [(sole lk).mpr same] at held
      cases held
    exact (only_of_ne other).symm
  | some mine =>
    cases mine with
    | false => exact absurd held (h.whole lk)
    | true =>
      rw [(sole lk).mp held, only_self]

section Nesting

/-- Code that may run where interrupts are on leaves no trace but of the last time `noff` was raised. -/
def Harmless (t : Tid) (between : SProg L Unit) : Prop :=
  ∀ v : View L, Rest t v → v.core.intr = true → wp (spinMachine L) (outline L) t between
    (fun _ v' => ∃ intena raised, v' = { v with core := ⟨true, 0, intena⟩, raised := raised }) v

/-- `push_off` from where it has read whether interrupts are on. -/
theorem raise_wp {old : Bool} {Q : Unit → View L → Prop} (inside : v.inside = true)
    (same : v.core.noff = 0 → v.core.intr = old) (post : Q () v.pushed) :
    wp (spinMachine L) (outline L) t (do
      Act.raiseOff.run
      if (← Act.getNoff.run) = 0 then
        (Act.setIntena old).run
      Act.incNoff.run) Q v := by
  refine wp_bind (raiseOff_wp inside (wp_bind (getNoff_wp inside ?_)))
  dsimp only
  by_cases zero : v.core.noff = 0
  · rw [if_pos zero]
    refine wp_bind (setIntena_wp inside (fun _ => rfl) (incNoff_wp inside rfl ?_))
    rw [View.pushed, if_pos zero, if_pos zero, same zero] at post
    rw [if_pos zero, same zero]
    exact post
  · rw [if_neg zero]
    refine incNoff_wp inside rfl ?_
    rw [View.pushed, if_neg zero, if_neg zero] at post
    rw [if_neg zero]
    exact post

theorem pushOff_wp {between : SProg L Unit} {Q : Unit → View L → Prop}
    (harmless : Harmless t between) (rest : Rest t v)
    (post : Q () v.pushed) : wp (spinMachine L) (outline L) t (pushOff between) Q v := by
  refine wp_bind (intrGet_wp rest.inside ?_)
  cases on : v.core.intr with
  | false => exact raise_wp rest.inside (fun _ => on) post
  | true =>
    -- What runs before interrupts are off is forgotten once `noff` is raised from 0.
    have zero := rest.off_zero on
    refine wp_seq (harmless v rest on) ?_
    rintro _ _ ⟨intena, raised, rfl⟩
    refine raise_wp rest.inside (fun _ => rfl) ?_
    rw [View.pushed, zero, on] at post
    exact post

theorem popOff_wp {Q : Unit → View L → Prop} (inside : v.inside = true) (off : v.core.intr = false)
    (positive : 0 < v.core.noff)
    (same : ∀ p before, t = .proc p → v.raised = some before → v.core.noff = 1 → v.core.intena = before)
    (post : Q () v.popped) : wp (spinMachine L) (outline L) t popOff Q v := by
  refine wp_bind (intrGet_wp inside ?_)
  rw [if_neg (by simp [off])]
  refine wp_bind (getNoff_wp inside ?_)
  rw [if_neg (Nat.not_lt.mpr positive)]
  refine wp_bind (decNoff_wp inside off (wp_bind (getNoff_wp inside ?_)))
  dsimp only
  by_cases last : v.core.noff = 1
  · have zero : v.core.noff - 1 = 0 := by rw [last]
    have returned : v.popped = { v with core := ⟨v.core.intena, v.core.noff - 1, v.core.intena⟩ } := by
      rw [View.popped, decide_eq_true last, Bool.true_and]
    rw [if_pos zero]
    refine wp_bind (getIntena_wp inside ?_)
    dsimp only
    rw [returned] at post
    cases intena : v.core.intena with
    | true =>
      rw [if_pos rfl]
      refine wp_bind (intrOn_wp inside zero (returned_wp inside (fun p before mine raised _ => ?_) ?_))
      · exact intena.symm.trans (same p before mine raised last)
      · rw [intena] at post
        exact post
    | false =>
      rw [if_neg (by simp)]
      refine returned_wp inside (fun p before mine raised _ => ?_) ?_
      · exact off.trans (intena.symm.trans (same p before mine raised last))
      · rw [intena] at post
        rw [off]
        exact post
  · have nonzero : v.core.noff - 1 ≠ 0 := by omega
    rw [if_neg nonzero]
    refine returned_wp inside (fun p before mine raised zero => absurd zero nonzero) ?_
    rw [View.popped, decide_eq_false last, Bool.false_and] at post
    rw [off]
    exact post

/-- What `acquire` leaves. -/
def View.acquired (v : View L) (lk : Lock L) : View L :=
  { v.pushed with held := update v.held lk (some true) }

/-- What `release` leaves. -/
def View.released (v : View L) (lk : Lock L) : View L := { v.popped with held := update v.held lk none }

theorem acquire_wp {between : SProg L Unit} {Q : Unit → View L → Prop}
    (harmless : Harmless t between) (rest : Rest t v)
    (free : v.held lk ≠ some true) (post : Q () (v.acquired lk)) :
    wp (spinMachine L) (outline L) t (acquire between lk) Q v := by
  have free : ¬decide (v.pushed.held lk = some true) = true := by
    rw [decide_eq_true_iff]
    exact free
  refine wp_bind (pushOff_wp harmless rest (wp_bind (holding_wp rest.inside ?_)))
  rw [if_neg free]
  refine wp_bind (testAndSet_wp rest.inside (setCpu_wp rest.inside (Function.update_self ..) ?_))
  rw [View.acquired] at post
  rw [Function.update_idem]
  exact post

theorem release_wp {Q : Unit → View L → Prop} (inside : v.inside = true) (off : v.core.intr = false)
    (positive : 0 < v.core.noff) (held : v.held lk = some true)
    (same : ∀ p before, t = .proc p → v.raised = some before → v.core.noff = 1 → v.core.intena = before)
    (post : Q () (v.released lk)) : wp (spinMachine L) (outline L) t (release lk) Q v := by
  refine wp_bind (holding_wp inside ?_)
  rw [if_pos (by simpa using held)]
  refine wp_bind (clearCpu_wp inside held (wp_bind (unlock_wp inside (Function.update_self ..) ?_)))
  refine popOff_wp inside off positive same ?_
  rw [Function.update_idem]
  exact post

end Nesting

section Switching

/-- `sched` gets as far as the scheduler, with the lock of the process held and no other. -/
theorem leave_wp {last : Bool} {Q : Bool → View L → Prop} (rest : Rest (.proc p) v)
    (sole : ∀ lk, v.held lk = some true ↔ lk = .proc p) (opens : v.opens = 0)
    (post : Q v.core.intena (.away v.opens (if last then none else v.raised) none)) :
    wp (spinMachine L) (outline L) (.proc p) (leave p last) Q v := by
  obtain ⟨noff, held⟩ := rest.one sole opens
  have off : v.core.intr = false := rest.off (by rw [noff]; exact Nat.one_pos)
  refine wp_bind (holding_wp rest.inside ?_)
  rw [if_pos (by simp [held])]
  refine wp_bind (getNoff_wp rest.inside ?_)
  rw [if_neg (not_not.mpr noff)]
  refine wp_bind (intrGet_wp rest.inside ?_)
  rw [if_neg (by simp [off])]
  refine wp_bind (getIntena_wp rest.inside (wp_bind (swtch_wp rest.inside noff held ?_)))
  exact post

/-- `sched` comes back, maybe on another processor, with everything as it was. -/
theorem sched_wp {Q : Unit → View L → Prop} (rest : Rest (.proc p) v)
    (sole : ∀ lk, v.held lk = some true ↔ lk = .proc p) (opens : v.opens = 0) (post : Q () v) :
    wp (spinMachine L) (outline L) (.proc p) (sched p) Q v := by
  obtain ⟨noff, held⟩ := rest.one sole opens
  have off : v.core.intr = false := rest.off (by rw [noff]; exact Nat.one_pos)
  refine wp_bind (leave_wp rest sole opens (wp_bind (resume_wp (.inl rfl) fun intena => ?_)))
  refine setIntena_wp rfl (fun _ => rfl) ?_
  have back : (⟨true, ⟨false, 1, v.core.intena⟩, only p, v.opens, v.raised, none⟩ : View L) = v :=
    View.ext rest.inside.symm (Core.ext off.symm noff.symm rfl) held.symm rfl rfl (rest.picked p rfl).symm
  show Q () ⟨true, ⟨false, 1, v.core.intena⟩, only p, v.opens, v.raised, none⟩
  rw [back]
  exact post

theorem exit_wp {Q : Unit → View L → Prop} (rest : Rest (.proc p) v)
    (sole : ∀ lk, v.held lk = some true ↔ lk = .proc p) (opens : v.opens = 0)
    (post : Q () (.away 0 none none)) :
    wp (spinMachine L) (outline L) (.proc p) (exit p) Q v := by
  refine wp_bind (leave_wp rest sole opens ?_)
  rw [opens]
  exact post

/-- Giving back the one lock there was. -/
theorem release_only_wp {intena : Bool} {raised : Option Bool} {picked : Option ProcId}
    (same : ∀ q before, t = .proc q → raised = some before → intena = before)
    (none : ∀ q, t = .proc q → picked = none) :
    wp (spinMachine L) (outline L) t (release (.proc p)) (fun _ v => Rest t v)
      ⟨true, ⟨false, 1, intena⟩, only p, 0, raised, picked⟩ := by
  refine release_wp rfl rfl Nat.one_pos only_self (fun q before mine raised _ => same q before mine raised) ?_
  refine .bare rfl rfl ?_ rfl none
  show update (only p) (.proc p) Option.none = fun _ => Option.none
  rw [only, Function.update_idem, Function.update_eq_self]

/-- A new process is at rest once it has given back its lock. -/
theorem forkret_wp :
    wp (spinMachine L) (outline L) (.proc p) (forkret p) (fun _ v => Rest (.proc p) v)
    (.away 0 none none) := by
  refine wp_bind (resume_wp (.inl rfl) fun intena => ?_)
  exact release_only_wp (fun _ _ _ raised => by cases raised) fun _ _ => rfl

theorem schedulerSlot_wp {between : SProg L Unit} {c : Cpu} (harmless : Harmless (.cpu c) between)
    (rest : Rest (.cpu c) v)
    (noff : v.core.noff = 0) :
    wp (spinMachine L) (outline L) (.cpu c) (schedulerSlot between p) (fun _ v => Rest (.cpu c) v) v := by
  obtain ⟨held, opens⟩ := rest.zero noff
  have released : ∀ intena raised picked, wp (spinMachine L) (outline L) (.cpu c) (release (.proc p))
      (fun _ v => Rest (.cpu c) v) ⟨true, ⟨false, 1, intena⟩, only p, 0, raised, picked⟩ :=
    fun _ _ _ => release_only_wp (fun _ _ same => by cases same) fun _ same => by cases same
  have acquired : v.acquired (.proc p) = ⟨true, ⟨false, 1, v.core.intr⟩, only p, 0,
    some v.core.intr, v.picked⟩ := by
    rw [View.acquired, View.pushed, if_pos noff, if_pos noff, held, opens, noff, rest.inside]
    rfl
  refine wp_bind (acquire_wp harmless rest (by rw [held]; simp) ?_)
  rw [acquired]
  refine wp_bind (pick_wp rfl rfl rfl ?_ (released _ _ _))
  exact wp_bind (resume_wp (.inr rfl) fun intena => wp_bind (clearProc_wp rfl (released _ _ _)))

end Switching

section Keeping

theorem Rest.acquired (h : Rest t v) (free : v.held lk ≠ some true) : Rest t (v.acquired lk) where
  inside := h.inside
  counted := by
    have more : {l | (v.acquired lk).held l = some true} = insert lk {l | v.held l = some true} := by
      ext l
      by_cases same : l = lk <;> simp [View.acquired, same]
    rw [more]
    exact h.counted.join free
  whole l := by
    by_cases same : l = lk
    · simp [View.acquired, same]
    · simpa [View.acquired, same] using h.whole l
  off _ := rfl
  raised _ mine _ := h.pushed_raised mine
  picked := h.picked

theorem Rest.released (h : Rest t v) (held : v.held lk = some true) : 0 < v.core.noff ∧
    Rest t (v.released lk) := by
  have fewer : {l | (v.released lk).held l = some true} = {l | v.held l = some true} \ {lk} := by
    ext l
    by_cases same : l = lk <;> simp [View.released, same]
  obtain ⟨positive, counted⟩ := h.counted.leave (show lk ∈ {l | v.held l = some true} from held)
  refine ⟨positive, h.inside, fewer ▸ counted, fun l => ?_, View.popped_off, fun q mine _ =>
    h.raised q mine positive,
    h.picked⟩
  by_cases same : l = lk
  · simp [View.released, same]
  · simpa [View.released, same] using h.whole l

variable {between : SProg L Unit} {k : Call L}

/-- The calls that a handler makes too. -/
theorem handled_wp (harmless : Harmless t between) (rest : Rest t v) (legal : v.Legal t k)
    (handled : k.inHandler = true) :
    wp (spinMachine L) (outline L) t (callCode between k) (fun _ v' => Rest t v' ∧
      v'.picked = v.picked) v := by
  cases k with
  | acquire lk => exact acquire_wp harmless rest legal ⟨rest.acquired legal, rfl⟩
  | release lk =>
    obtain ⟨positive, after⟩ := rest.released legal
    exact release_wp rest.inside (rest.off positive) positive legal
      (fun _ _ mine raised _ => rest.restores positive mine raised) ⟨after, rfl⟩
  | pushOff => exact wp_bind (pushOff_wp harmless rest (opened_wp rest.inside ⟨rest.opened, rfl⟩))
  | popOff =>
    obtain ⟨positive, after⟩ := rest.closed legal
    exact wp_bind (closed_wp rest.inside (popOff_wp rest.inside (rest.off positive) positive
      (fun _ _ mine raised _ => rest.restores positive mine raised) ⟨after, rfl⟩))
  | sched p =>
    obtain ⟨rfl, sole, opens⟩ := legal
    exact sched_wp rest sole opens ⟨rest, rfl⟩
  | _ => cases handled

theorem call_wp (harmless : Harmless t between) (rest : Rest t v) (legal : v.Legal t k) :
    wp (spinMachine L) (outline L) t (callCode between k) (fun _ => Idle t) v := by
  cases handled : k.inHandler with
  | true => exact wp_mono (fun _ _ after => .inl after.1) (handled_wp harmless rest legal handled)
  | false =>
    have bare : v.core.noff = 0 → ∀ intr, Rest t { v with core := ⟨intr, v.core.noff, v.core.intena⟩ } :=
      fun noff _ =>
      .bare rest.inside noff (rest.zero noff).1 (rest.zero noff).2 rest.picked
    cases k with
    | intrOff => exact intrOff_wp rest.inside (.inl (bare legal false))
    | intrOn => exact intrOn_wp rest.inside legal (.inl (bare legal true))
    | exit p =>
      obtain ⟨rfl, sole, opens⟩ := legal
      exact exit_wp rest sole opens (.inr ⟨p, rfl, rfl⟩)
    | forkret p => exact legal.elim
    | schedulerSlot p =>
      obtain ⟨⟨c, rfl⟩, noff⟩ := legal
      exact wp_mono (fun _ _ after => .inl after) (schedulerSlot_wp harmless rest noff)
    | _ => cases handled

end Keeping

section Handlers

variable {code : Call L → SProg L Unit}

/-- A handler that makes such calls leaves nothing behind. -/
theorem handler_wp (each : ∀ k v, Rest t v → v.Legal t k → k.inHandler = true →
      wp (spinMachine L) (outline L) t (code k) (fun _ v' => Rest t v' ∧ v'.picked = v.picked) v) :
    Harmless t (handler code) := by
  intro v rest on
  have zero := rest.off_zero on
  obtain ⟨held, opens⟩ := rest.zero zero
  refine wp_bind (intrOff_wp rest.inside (wp_bind (choose_wp rest.inside fun n => ?_)))
  refine wp_seq (wp_forEach (J := fun _ v' => Rest t v' ∧ v'.picked = v.picked) (fun _ _ v' now => ?_) ?_)
    fun _ v' done => ?_
  · refine wp_bind (nextCall_wp now.1.inside fun k => wp_bind (begins_wp now.1.inside ?_))
    intro s c inv seat view handled legal
    have legal := legal_view inv seat legal
    rw [view] at legal
    exact wp_mono (fun _ _ after => ⟨after.1, after.2.trans now.2⟩) (each k v' now.1 legal handled)
  · exact ⟨.bare rest.inside zero held opens rest.picked, rfl⟩
  · obtain ⟨rest', picked⟩ := done
    refine wp_bind (settled_wp rest'.inside fun zero' => intrOn_wp rest'.inside zero' ?_)
    obtain ⟨held', opens'⟩ := rest'.zero zero'
    refine ⟨v'.core.intena, v'.raised, View.ext (rest'.inside.trans rest.inside.symm) ?_
      (held'.trans held.symm)
      (opens'.trans opens.symm) rfl picked⟩
    exact Core.ext rfl zero' rfl

theorem handlers_wp (harmless : Harmless t (handler code)) : Harmless t (handlers code) := by
  intro v rest on
  have zero := rest.off_zero on
  obtain ⟨held, opens⟩ := rest.zero zero
  refine wp_bind (choose_wp rest.inside fun n => ?_)
  refine wp_forEach (J := fun _ v' => ∃ intena raised,
    v' = { v with core := ⟨true, 0, intena⟩, raised := raised })
    (fun _ _ v' now => ?_) ?_
  · obtain ⟨intena, raised, rfl⟩ := now
    refine wp_mono (fun _ _ after => ?_) (harmless _ (.bare rest.inside rfl held opens rest.picked) rfl)
    obtain ⟨intena', raised', rfl⟩ := after
    exact ⟨intena', raised', rfl⟩
  · exact ⟨v.core.intena, v.raised, View.ext rfl (Core.ext on zero rfl) rfl rfl rfl rfl⟩

/-- However deep handlers are interrupted, they leave nothing behind. -/
theorem nested_wp (n : Nat) : ∀ k (v : View L), Rest t v → v.Legal t k →
    wp (spinMachine L) (outline L) t (nested n k) (fun _ => Idle t) v ∧
      (k.inHandler = true →
        wp (spinMachine L) (outline L) t (nested n k) (fun _ v' => Rest t v' ∧ v'.picked = v.picked) v) := by
  have both : ∀ {between : SProg L Unit}, Harmless t between → ∀ k (v : View L), Rest t v → v.Legal t k →
      wp (spinMachine L) (outline L) t (callCode between k) (fun _ => Idle t) v ∧
        (k.inHandler = true →
          wp (spinMachine L) (outline L) t (callCode between k) (fun _ v' => Rest t v' ∧
          v'.picked = v.picked) v) :=
    fun harmless _ _ rest legal => ⟨call_wp harmless rest legal, handled_wp harmless rest legal⟩
  induction n with
  | zero =>
    refine both fun v rest on => ?_
    exact ⟨v.core.intena, v.raised, View.ext rfl (Core.ext on (rest.off_zero on) rfl) rfl rfl rfl rfl⟩
  | succ n ih => exact both (handlers_wp (handler_wp fun k v rest legal => (ih k v rest legal).2))

end Handlers

end Xv6.Spinlock
