import Xv6.Ftable.Pages

namespace Xv6.Ftable
open Threads Function

variable {s : FtState} {t np : ProcId} {v : FtView} {fd : Fd} {f : FileId}

section Descriptors

theorem ofile_wp {Q : Option FileId → FtView → Prop} (running : v.running = true) (post : Q (v.ofile fd) v) :
    wp ftMachine ftOutline t (FtAct.ofile fd).run Q v := by
  refine ftStep_wp running fun s c inv view now => ⟨trivial, inv, fun _ _ => rfl, ?_⟩
  subst view
  rw [FtState.view_of_running now] at post
  show Q (s.ofile t fd) (FtState.view t s)
  rw [FtState.view_of_running now]
  exact post

/-- A process stores one of its own descriptors. -/
theorem FtState.setFd_after {a : FtAct} {Q : a.Resp → FtView → Prop} {answer : a.Resp} {new : Option FileId}
    (inv : FtInv s) (now : s.status t = .running)
    (post : Q answer { s.view t with ofile := update (s.view t).ofile fd new }) :
    ftOutline.After t a s Q (.ok answer (s.setFd t fd new)) := by
  have other : ∀ q, s.status q ≠ .running → (s.setFd t fd new).ofile q = s.ofile q :=
    fun q idle => update_of_ne (fun same : q = t => idle (same ▸ now)) ..
  refine ⟨⟨inv.toFileInv.congr rfl rfl rfl, inv.toPipeInv.congr rfl rfl rfl rfl rfl rfl rfl, fun q idle => ?_,
    fun q done => ?_, inv.quiet⟩, fun q different => ?_, ?_⟩
  · rw [other q idle]
    exact inv.slots q idle
  · rw [other q fun running => ?_]
    · exact inv.empty q done
    · rcases done with eq | eq <;> rw [show s.status q = _ from eq] at running <;> cases running
  · refine FtState.view_congr Iff.rfl (fun _ => rfl) (fun _ => Iff.rfl) (fun _ _ => Iff.rfl)
      (fun _ => Iff.rfl) rfl
      (update_of_ne different ..) (fun _ => Iff.rfl) fun r used => other r fun running => ?_
    rw [used] at running
    cases running
  · have eq : (s.setFd t fd new).view t = { s.view t with ofile := update (s.view t).ofile fd new } := by
      rw [FtState.view_of_running now]
      refine (FtState.view_of_running ?_).trans (FtView.ext rfl rfl rfl rfl rfl rfl ?_ (funext fun q => ?_))
      · exact now
      · exact update_self ..
      · show (if s.status q = _ then _ else _) = if s.status q = _ then _ else _
        split
        next used =>
          rw [other q fun running => ?_]
          rw [used] at running
          cases running
        next => rfl
    show Q answer (FtState.view t _)
    rw [eq]
    exact post

theorem clear_wp {Q : Unit → FtView → Prop} (running : v.running = true)
    (post : Q () { v with ofile := update v.ofile fd none }) :
    wp ftMachine ftOutline t (FtAct.clear fd).run Q v := by
  refine ftStep_wp running fun s c inv view now => ⟨trivial, ?_⟩
  subst view
  exact FtState.setFd_after inv now post

theorem fdalloc_wp {Q : Option Fd → FtView → Prop} (running : v.running = true) (full : Q none v)
    (found : ∀ fd, v.ofile fd = none → Q (some fd) { v with ofile := update v.ofile fd (some f) }) :
    wp ftMachine ftOutline t (FtAct.fdalloc f).run Q v := by
  refine ftStep_wp running fun s c inv view now => ⟨trivial, ?_⟩
  subst view
  simp only [ftMachine]
  cases free : s.freeFd t with
  | none => exact ⟨inv, fun _ _ => rfl, full⟩
  | some fd =>
    refine FtState.setFd_after inv now (found fd ?_)
    rw [FtState.view_of_running now]
    simpa using List.find?_some free

end Descriptors

section Processes

/-- The status of a process changes that its own thread does not see. -/
theorem FtState.setStatus_view {q : ProcId} {new : Status} (runs : new = .running ↔ s.status np = .running)
    (used : new = .used q ↔ s.status np = .used q) : (s.setStatus np new).view q = s.view q := by
  refine FtState.view_congr ?_ (fun _ => rfl) (fun _ => Iff.rfl) (fun _ _ => Iff.rfl)
    (fun _ => Iff.rfl) rfl rfl
    (fun r => ?_) fun _ _ => rfl
  · by_cases same : q = np
    · subst same
      simpa [FtState.setStatus] using runs
    · simp [FtState.setStatus, same]
  · by_cases same : r = np
    · subst same
      simpa [FtState.setStatus] using used
    · simp [FtState.setStatus, same]

/-- The own view of a process that changes the status of another one. -/
theorem FtState.setStatus_view_self {new : Status} (running : s.status t = .running) (different : np ≠ t) :
    (s.setStatus np new).view t = { s.view t with
      child := update (s.view t).child np (if new = .used t then some (s.ofile np) else none) } := by
  rw [FtState.view_of_running running]
  refine (FtState.view_of_running ?_).trans (FtView.ext rfl rfl rfl rfl rfl rfl rfl (funext fun q => ?_))
  · exact (update_of_ne different.symm ..).trans running
  · by_cases same : q = np
    · subst same
      simp [FtState.setStatus]
    · simp [FtState.setStatus, same]

/-- A process that does not run stays so. -/
theorem ProcInv.setStatus {new : Status} (h : ProcInv s) (idle : s.status np ≠ .running)
    (still : new ≠ .running)
    (empty : new = .unused ∨ new = .zombie → s.ofile np = fun _ => none)
    (creator : ∀ q, new = .used q → s.status q = .running) : ProcInv (s.setStatus np new) := by
  have runs : ∀ q, (s.setStatus np new).status q ≠ .running ↔ s.status q ≠ .running := by
    intro q
    by_cases same : q = np
    · subst same
      simp [FtState.setStatus, idle, still]
    · simp [FtState.setStatus, same]
  refine ⟨fun q => ?_, fun q done => ?_, fun q => ?_⟩
  · rw [runs]
    exact h.slots q
  · by_cases same : q = np
    · subst same
      exact empty (by simpa [FtState.setStatus] using done)
    · exact h.empty q (by simpa [FtState.setStatus, same] using done)
  · rw [runs]
    intro idle'
    obtain ⟨ops, makes, hands, owns, used⟩ := h.quiet q idle'
    refine ⟨ops, makes, hands, owns, fun r => ?_⟩
    by_cases same : r = np
    · subst same
      simp only [FtState.setStatus, update_self]
      exact fun eq => idle' (creator q eq)
    · simpa [FtState.setStatus, same] using used r

theorem FtInv.setStatus {new : Status} (h : FtInv s) (proc : ProcInv (s.setStatus np new)) :
    FtInv (s.setStatus np new) :=
  ⟨h.toFileInv.congr rfl rfl rfl, h.toPipeInv.congr rfl rfl rfl rfl rfl rfl rfl, proc⟩

theorem allocproc_wp {Q : Option ProcId → FtView → Prop} (running : v.running = true) (full : Q none v)
    (found : ∀ np, v.child np = none →
      Q (some np) { v with child := update v.child np (some fun _ => none) }) :
    wp ftMachine ftOutline t FtAct.allocproc.run Q v := by
  refine ftStep_wp running fun s c inv view now => ⟨trivial, ?_⟩
  subst view
  simp only [ftMachine]
  split
  next fresh =>
    have unused : s.status c.proc = .unused := by simp at fresh; exact fresh.2
    have different : c.proc ≠ t := by
      rintro same
      rw [same, now] at unused
      cases unused
    refine ⟨inv.setStatus (inv.toProcInv.setStatus (by rw [unused]; decide) (by simp) (by simp) ?_),
      fun other apart => FtState.setStatus_view (by rw [unused]; simp) ?_, ?_⟩
    · rintro q ⟨⟩
      exact now
    · rw [unused]
      simp only [Status.used.injEq, reduceCtorEq, iff_false]
      exact apart.symm
    · show Q _ (FtState.view t _)
      rw [FtState.setStatus_view_self now different, if_pos rfl, inv.empty _ (.inl unused)]
      refine found _ ?_
      rw [FtState.view_of_running now]
      simp [unused]
  next => exact ⟨inv, fun _ _ => rfl, full⟩

/-- What a process knows of a child it is making. -/
theorem FtState.view_child {ofile : Fd → Option FileId} (now : s.status t = .running)
    (child : (s.view t).child np = some ofile) : s.status np = .used t ∧ s.ofile np = ofile ∧ np ≠ t := by
  rw [FtState.view_of_running now] at child
  simp only [Option.ite_none_right_eq_some, Option.some.injEq] at child
  refine ⟨child.1, child.2, ?_⟩
  rintro rfl
  rw [now] at child
  cases child.1

theorem freeproc_wp {Q : Unit → FtView → Prop} (running : v.running = true)
    (child : v.child np = some fun _ => none) (post : Q () { v with child := update v.child np none }) :
    wp ftMachine ftOutline t (FtAct.freeproc np).run Q v := by
  refine ftStep_wp running fun s c inv view now => ⟨trivial, ?_⟩
  subst view
  obtain ⟨used, ofile, different⟩ := FtState.view_child now child
  refine ⟨inv.setStatus (inv.toProcInv.setStatus (by rw [used]; simp) (by simp) (fun _ => ofile) (by simp)),
    fun other apart => FtState.setStatus_view (by rw [used]; simp) ?_, ?_⟩
  · rw [used]
    simp only [Status.used.injEq, reduceCtorEq, false_iff]
    exact apart.symm
  · show Q _ (FtState.view t _)
    rw [FtState.setStatus_view_self now different, if_neg (by simp)]
    exact post

theorem setRunnable_wp {Q : Unit → FtView → Prop} {o : Fd → Option FileId} (running : v.running = true)
    (child : v.child np = some o) (post : Q () { v with child := update v.child np none }) :
    wp ftMachine ftOutline t (FtAct.setRunnable np).run Q v := by
  refine ftStep_wp running fun s c inv view now => ⟨trivial, ?_⟩
  subst view
  obtain ⟨used, _, different⟩ := FtState.view_child now child
  refine ⟨inv.setStatus (inv.toProcInv.setStatus (by rw [used]; simp) (by simp) (by simp) (by simp)),
    fun other apart => FtState.setStatus_view (by rw [used]; simp) ?_, ?_⟩
  · rw [used]
    simp only [Status.used.injEq, reduceCtorEq, false_iff]
    exact apart.symm
  · show Q _ (FtState.view t _)
    rw [FtState.setStatus_view_self now different, if_neg (by simp)]
    exact post

theorem setOfile_wp {Q : Unit → FtView → Prop} {o : Fd → Option FileId} (running : v.running = true)
    (child : v.child np = some o) (empty : o fd = none) (mine : 0 < v.mine f) (filled : v.blank f = false)
    (post : Q () { v with
      mine := update v.mine f (v.mine f - 1), child := update v.child np (some (update o fd (some f))) }) :
    wp ftMachine ftOutline t (FtAct.setOfile np fd f).run Q v := by
  refine ftStep_wp running fun s c inv view now => ⟨trivial, ?_⟩
  subst view
  have self := FtState.view_of_running now
  obtain ⟨used, same, different⟩ := FtState.view_child now child
  have member : t ∈ s.users f := by
    rw [self] at mine
    exact List.count_pos_iff.mp mine
  have noMaker : s.maker f = none := by
    cases made : s.maker f with
    | none => rfl
    | some q =>
      rw [(inv.blank f q made).1, List.mem_singleton] at member
      rw [self] at filled
      simp [made, member] at filled
  have counts : ∀ q, q ≠ np → q ≠ t → (np :: (s.users f).erase t).count q = (s.users f).count q := by
    intro q notNp notT
    rw [List.count_cons_of_ne notNp.symm, List.count_erase_of_ne notT]
  have stored : ∀ q, q ≠ np → (s.setFd np fd (some f)).ofile q = s.ofile q :=
    fun q apart => update_of_ne apart ..
  refine ⟨⟨⟨fun g => ?_, fun g => ?_, fun g q => ?_⟩, inv.toPipeInv.congr rfl rfl rfl rfl rfl rfl rfl,
    fun q idle g => ?_, fun q done => ?_, inv.quiet⟩, fun other apart => ?_, ?_⟩
  · by_cases at' : g = f
    · subst at'
      have positive := List.length_pos_of_mem member
      show (s.file g).ref = (update s.users g _ g).length
      rw [update_self, List.length_cons, List.length_erase_of_mem member, inv.refs]
      omega
    · simpa [at', FtState.setFd] using inv.refs g
  · by_cases at' : g = f
    · simp [at']
    · simpa [at', FtState.setFd] using inv.bare g
  · by_cases at' : g = f
    · subst at'
      show s.maker g = some q → _
      simp [noMaker]
    · simpa [at', FtState.setFd] using inv.blank g q
  · have notT : q ≠ t := fun eq => idle (eq ▸ now)
    have slots := inv.slots q idle g
    by_cases atNp : q = np
    · subst atNp
      have moved := fds_update (s.ofile q) fd (some f) g
      rw [same, empty] at moved
      rw [same] at slots
      simp only [reduceCtorEq, if_false, Nat.add_zero, Option.some.injEq] at moved
      show (update s.users f _ g).count q = fds (update s.ofile q _ q) g
      rw [update_self, same, moved, ← slots]
      by_cases at' : g = f
      · subst at'
        rw [update_self, List.count_cons_self, List.count_erase_of_ne notT, if_pos rfl]
      · rw [update_of_ne at', if_neg (Ne.symm at')]
        rfl
    · show (update s.users f _ g).count q = fds ((s.setFd np fd (some f)).ofile q) g
      rw [stored q atNp, ← slots]
      by_cases at' : g = f
      · subst at'
        rw [update_self, counts q atNp notT]
      · rw [update_of_ne at']
  · have notNp : q ≠ np := by
      rintro rfl
      rcases done with eq | eq <;> rw [show s.status q = _ from eq] at used <;> cases used
    exact (stored q notNp).trans (inv.empty q done)
  · by_cases atNp : other = np
    · subst atNp
      have idle : ¬ s.status other = .running := by rw [used]; simp
      unfold FtState.view
      rw [if_neg idle]
      exact if_neg idle
    · refine FtState.view_congr Iff.rfl (fun g => ?_) (fun _ => Iff.rfl) (fun _ _ => Iff.rfl)
        (fun _ => Iff.rfl) rfl
        (stored other atNp) (fun _ => Iff.rfl) fun r used' => stored r ?_
      · by_cases at' : g = f
        · subst at'
          show (update s.users g _ g).count other = _
          rw [update_self, counts other atNp apart]
        · simp [at']
      · rintro rfl
        rw [used] at used'
        exact apart (Status.used.inj used').symm
  · have eq : FtState.view t { s.setFd np fd (some f) with
          users := update s.users f (np :: (s.users f).erase t) } =
        { s.view t with
          mine := update (s.view t).mine f ((s.view t).mine f - 1)
          child := update (s.view t).child np (some (update o fd (some f))) } := by
      rw [self]
      refine (FtState.view_of_running ?_).trans (FtView.ext rfl (funext fun g => ?_) rfl rfl rfl rfl
        (stored t different.symm) (funext fun r => ?_))
      · exact now
      · by_cases at' : g = f
        · subst at'
          simp only [update_self, List.count_cons_of_ne different, List.count_erase_self]
        · simp only [update_of_ne at']
      · show (if s.status r = _ then some ((s.setFd np fd (some f)).ofile r) else none) = update
          (fun q => if s.status q = .used t then some (s.ofile q) else none) np
          (some (update o fd (some f))) r
        by_cases at' : r = np
        · subst at'
          rw [if_pos used, update_self, ← same]
          exact congrArg some (update_self ..)
        · rw [stored r at', update_of_ne at']
    show Q _ (FtState.view t _)
    rw [eq]
    exact post

/-- A process that has nothing in its hands but its descriptors. -/
structure FtView.Clean (v : FtView) : Prop where
  running : v.running = true
  refs : ∀ f, v.mine f = fds v.ofile f
  blank : ∀ f, v.blank f = false
  hand : ∀ k w, v.hand k w = false
  owns : ∀ k, v.owns k = false
  op : v.op = 0
  child : ∀ q, v.child q = none

theorem forkret_wp : wp ftMachine ftOutline t FtAct.forkret.run (fun _ v => v.Clean) .away := by
  refine wp_step fun s c inv view => ⟨trivial, fun _ => ?_⟩
  simp only [ftMachine]
  split
  next runnable =>
    have idle : s.status t ≠ .running := by rw [runnable]; decide
    obtain ⟨ops, makes, hands, owns, used⟩ := inv.quiet t idle
    have others : ∀ q, q ≠ t → (s.setStatus t .running).status q = s.status q :=
      fun q apart => update_of_ne apart ..
    refine ⟨inv.setStatus ⟨fun q still => ?_, fun q done => ?_, fun q still => ?_⟩,
      fun other different => ?_, ?_⟩
    · refine inv.slots q fun running => ?_
      by_cases same : q = t
      · exact idle (same ▸ running)
      · exact still ((others q same).trans running)
    · have apart : q ≠ t := by
        rintro rfl
        simp [FtState.setStatus] at done
      rw [others q apart] at done
      exact inv.empty q done
    · have apart : q ≠ t := by
        rintro rfl
        simp [FtState.setStatus] at still
      rw [others q apart] at still
      obtain ⟨ops, makes, hands, owns, used'⟩ := inv.quiet q still
      refine ⟨ops, makes, hands, owns, fun r => ?_⟩
      by_cases same : r = t
      · simp [FtState.setStatus, same]
      · rw [others r same]
        exact used' r
    · refine FtState.view_congr (by rw [others other different]) (fun _ => rfl) (fun _ => Iff.rfl)
        (fun _ _ => Iff.rfl) (fun _ => Iff.rfl) rfl rfl (fun r => ?_) fun _ _ => rfl
      by_cases same : r = t
      · subst same
        simp [FtState.setStatus, runnable]
      · rw [others r same]
    · show FtView.Clean (FtState.view t _)
      rw [FtState.view_of_running (s := s.setStatus t .running) (update_self ..)]
      refine ⟨rfl, inv.slots t idle, fun f => decide_eq_false (makes f),
        fun k w => decide_eq_false (hands k w),
        fun k => decide_eq_false (owns k), List.count_eq_zero.mpr ops, fun q => if_neg ?_⟩
      by_cases same : q = t
      · simp [FtState.setStatus, same]
      · rw [others q same]
        exact used q
  next => trivial

theorem setZombie_wp (clean : v.Clean) (closed : ∀ fd, v.ofile fd = none) :
    wp ftMachine ftOutline t FtAct.setZombie.run (fun _ v => v = .away) v := by
  refine ftStep_wp clean.running fun s c inv view now => ⟨trivial, ?_⟩
  subst view
  have self := FtState.view_of_running now
  rw [self] at clean closed
  obtain ⟨_, refs, blank, hand, owns, op, child⟩ := clean
  simp only [decide_eq_false_iff_not] at blank hand owns
  have others : ∀ q, q ≠ t → (s.setStatus t .zombie).status q = s.status q :=
    fun q apart => update_of_ne apart ..
  have used : ∀ r, s.status r ≠ .used t := by
    intro r eq
    have := child r
    simp [eq] at this
  refine ⟨inv.setStatus ⟨fun q still => ?_, fun q done => ?_, fun q still => ?_⟩,
    fun other different => ?_, ?_⟩
  · by_cases same : q = t
    · subst same
      exact refs
    · rw [others q same] at still
      exact inv.slots q still
  · by_cases same : q = t
    · subst same
      exact funext closed
    · rw [others q same] at done
      exact inv.empty q done
  · have quiet : q ∉ s.ops ∧ (∀ f, s.maker f ≠ some q) ∧ (∀ k w, s.ends k w ≠ .hand q) ∧
      (∀ k, s.owner k ≠ some q) ∧
        ∀ r, s.status r ≠ .used q := by
      by_cases same : q = t
      · subst same
        exact ⟨List.count_eq_zero.mp op, blank, hand, owns, used⟩
      · rw [others q same] at still
        exact inv.quiet q still
    obtain ⟨ops, makes, hands, owns, used⟩ := quiet
    refine ⟨ops, makes, hands, owns, fun r => ?_⟩
    by_cases same : r = t
    · simp [FtState.setStatus, same]
    · rw [others r same]
      exact used r
  · refine FtState.view_congr (by rw [others other different]) (fun _ => rfl) (fun _ => Iff.rfl)
      (fun _ _ => Iff.rfl) (fun _ => Iff.rfl) rfl rfl (fun r => ?_) fun _ _ => rfl
    by_cases same : r = t
    · subst same
      simp [FtState.setStatus, now]
    · rw [others r same]
  · show FtState.view t _ = _
    unfold FtState.view
    rw [if_neg (by simp [FtState.setStatus])]

theorem reap_wp (running : v.running = true) :
    wp ftMachine ftOutline t FtAct.reap.run (fun _ v' => v' = v) v := by
  refine ftStep_wp running fun s c inv view now => ⟨trivial, ?_⟩
  subst view
  simp only [ftMachine]
  split
  next zombie =>
    have different : c.proc ≠ t := by
      rintro same
      rw [same, now] at zombie
      cases zombie
    refine ⟨inv.setStatus (inv.toProcInv.setStatus (by rw [zombie]; decide) (by simp)
      (fun _ => inv.empty _ (.inr zombie)) (by simp)), fun other apart => ?_, ?_⟩
    · exact FtState.setStatus_view (by rw [zombie]; simp) (by rw [zombie]; simp)
    · exact FtState.setStatus_view (by rw [zombie]; simp) (by rw [zombie]; simp)
  next => trivial

end Processes

end Xv6.Ftable
