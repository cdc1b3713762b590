import Xv6.Spinlock.Steps

namespace Xv6.Spinlock
open Threads State
open Function (update)

variable {L : Type}

/-- The two ends of a switch on a processor: a process and the scheduler. -/
inductive Ends (c : Cpu) (p : ProcId) : Tid → Tid → Prop
  | leave : Ends c p (.proc p) (.cpu c)
  | pick : Ends c p (.cpu c) (.proc p)

/-- A switch to a flow of control that was nowhere. -/
structure Switch (c : Cpu) (p : ProcId) (t next : Tid) (s s' : State L) : Prop where
  ends : Ends c p t next
  out : s.place next = .out
  left : s'.place t = .out
  entering : s'.place next = .entering c
  rest : ∀ u, u ≠ t → u ≠ next → s'.place u = s.place u
  core : s'.core = s.core
  held : s'.held = s.held
  opens : s'.opens = s.opens
  raised : ∀ u, u ≠ t → s'.raised u = s.raised u
  cpuProc : s'.cpuProc c = some p
  others : ∀ c', c' ≠ c → s'.cpuProc c' = s.cpuProc c'

variable [DecidableEq L] {s s' : State L} {t u next : Tid} {c c' : Cpu} {v : View L} {p : ProcId}

/-- Nobody but the one switched to is on the processor now. -/
theorem Switch.origin (h : Switch c p t next s s') (inv : Inv s) (seat : s.seat t = some c)
    (at' : (s'.place u).cpu = some c') : u = next ∧ c' = c ∨ u ≠ next ∧ c' ≠ c ∧ s'.place u = s.place u := by
  by_cases mine : u = t
  · rw [mine, h.left] at at'
    cases at'
  by_cases new : u = next
  · rw [new, h.entering] at at'
    exact .inl ⟨new, (Option.some.inj at').symm⟩
  have same := h.rest u mine new
  refine .inr ⟨new, fun here => mine ?_, same⟩
  rw [same, here] at at'
  exact inv.alone at' (cpu_of_seat seat)

theorem Switch.inv (h : Switch c p t next s s') (inv : Inv s) (seat : s.seat t = some c)
    (handed : Handed s c p)
    (locks : Locks s') (restored : Restored s'.returns) : Inv s' where
  alone {u w c'} first second := by
    rcases h.origin inv seat first with ⟨rfl, rfl⟩ | ⟨_, apart, same⟩
    · rcases h.origin inv seat second with ⟨rfl, _⟩ | ⟨_, apart, _⟩
      · rfl
      · exact absurd rfl apart
    · rcases h.origin inv seat second with ⟨_, rfl⟩ | ⟨_, _, same'⟩
      · exact absurd rfl apart
      · rw [same] at first
        rw [same'] at second
        exact inv.alone first second
  home {c₁ c'} at' := by
    rcases h.origin inv seat at' with ⟨rfl, rfl⟩ | ⟨_, _, same⟩
    · cases h.ends
      rfl
    · rw [same] at at'
      exact inv.home at'
  cpuProc {q c'} at' := by
    rcases h.origin inv seat at' with ⟨rfl, rfl⟩ | ⟨_, apart, same⟩
    · cases h.ends
      exact h.cpuProc
    · rw [same] at at'
      rw [h.others c' apart]
      exact inv.cpuProc at'
  handed {u c'} entering := by
    rcases h.origin inv seat (by rw [entering]; rfl) with ⟨_, rfl⟩ | ⟨_, apart, same⟩
    · exact ⟨p, h.cpuProc, by rw [h.core, handed.noff], by rw [h.held, handed.held]⟩
    · rw [same] at entering
      obtain ⟨q, picked, handed'⟩ := inv.handed entering
      exact ⟨q, by rw [h.others c' apart, picked], by rw [h.core, handed'.noff], by rw [h.held, handed'.held]⟩
  off := by rw [h.core]; exact inv.off
  locks := locks
  restored := restored

theorem Switch.guar (h : Switch c p t next s s') (inv : Inv s) (seat : s.seat t = some c)
    (different : u ≠ t) :
    s'.view u = s.view u := by
  have seatEq : s'.seat u = s.seat u := by
    by_cases new : u = next
    · rw [State.seat, State.seat, new, h.entering, h.out]
    · rw [State.seat, State.seat, h.rest u different new]
  have pickedEq : s'.picked u = s.picked u := by
    cases u with
    | proc q => rfl
    | cpu c' =>
      by_cases here : c' = c
      · subst here
        -- The scheduler that is switched to had picked the process.
        cases h.ends with
        | leave => exact h.cpuProc.trans (inv.cpuProc (cpu_of_seat seat)).symm
        | pick => exact absurd rfl different
      · exact h.others c' here
  rw [State.view, State.view, seatEq, h.core, h.held, h.opens, h.raised u different, pickedEq]

theorem Switch.after {a : Act L} {answer : a.Resp} {Q : a.Resp → View L → Prop} (h : Switch c p t next s s')
    (inv : Inv s) (seat : s.seat t = some c) (handed : Handed s c p) (locks : Locks s')
    (restored : Restored s'.returns)
    (post : Q answer (.away (s'.opens t) (s'.raised t) (s'.picked t))) :
    (outline L).After t a s Q (.ok answer s') := by
  refine ⟨h.inv inv seat handed locks restored, fun other different => h.guar inv seat different, ?_⟩
  show Q answer (s'.view t)
  rw [view_away (seat_none.mpr fun c' at' => by rw [h.left] at at'; cases at')]
  exact post

/-- While a process executes on a processor, its scheduler is nowhere. -/
theorem Inv.scheduler_out (inv : Inv s) (seat : s.seat (.proc p) = some c) : s.place (.cpu c) = .out := by
  have away : (s.place (.cpu c)).cpu = none := by
    cases at' : (s.place (.cpu c)).cpu with
    | none => rfl
    | some c' =>
      have here := inv.home at'
      subst here
      cases inv.alone at' (cpu_of_seat seat)
  cases place : s.place (.cpu c) with
  | out => rfl
  | on c' => rw [place] at away; cases away
  | entering c' => rw [place] at away; cases away

theorem handed_of_view (seat : s.seat t = some c) (view : s.view t = v) (noff : v.core.noff = 1)
    (held : v.held = only p) : Handed s c p := by
  obtain ⟨coreEq, heldEq, _⟩ := fields seat view
  exact ⟨by rw [coreEq, noff], by rw [heldEq, held]⟩

/-- A process that leaves its processor hands it to the scheduler there. -/
theorem swtch_wp {last : Bool} {Q : Unit → View L → Prop} (inside : v.inside = true) (noff : v.core.noff = 1)
    (held : v.held = only p) (post : Q () (.away v.opens (if last then none else v.raised) none)) :
    wp (spinMachine L) (outline L) (.proc p) (Act.swtch p last).run Q v := by
  refine act_wp inside fun s c _ inv view seat _ => ?_
  have handed := handed_of_view seat view noff held
  obtain ⟨_, _, opensEq, raisedEq, _⟩ := fields seat view
  refine Switch.after (?_ : Switch c p (.proc p) (.cpu c) s _) inv seat handed
    ⟨inv.locks.locked, inv.locks.lkCpu⟩ inv.restored ?_
  · refine ⟨.leave, inv.scheduler_out seat, Function.update_self .., ?_, ?_, rfl, rfl, rfl, ?_,
      inv.cpuProc (cpu_of_seat seat), fun _ _ => rfl⟩
    · simp
    · exact fun u notMine notNew => by simp [notMine, notNew]
    · intro u different
      dsimp only
      split
      · exact Function.update_of_ne different ..
      · rfl
  · have raised : (if last then update s.raised (.proc p) none else s.raised) (.proc p) =
        if last then none else v.raised := by
      split
      · exact Function.update_self ..
      · exact raisedEq
    dsimp only
    rw [raised, opensEq]
    exact post

/-- The scheduler picks a process, or does not. -/
theorem pick_wp {Q : Bool → View L → Prop} (inside : v.inside = true) (noff : v.core.noff = 1)
    (held : v.held = only p)
    (yes : Q true (.away v.opens v.raised (some p))) (no : Q false v) :
    wp (spinMachine L) (outline L) (.cpu c) (Act.pick p).run Q v := by
  refine act_wp inside fun s c' choice inv view seat _ => ?_
  have here := inv.home (cpu_of_seat seat)
  subst here
  have handed := handed_of_view seat view noff held
  obtain ⟨_, _, opensEq, raisedEq, _⟩ := fields seat view
  simp only [State.act]
  split
  · exact stays inv view no
  split
  · trivial
  next out =>
    refine Switch.after (?_ : Switch c' p (.cpu c') (.proc p) s _) inv seat handed
      ⟨inv.locks.locked, inv.locks.lkCpu⟩ inv.restored ?_
    · refine ⟨.pick, not_not.mp out, Function.update_self .., ?_, ?_, rfl, rfl, rfl, fun _ _ => rfl,
        Function.update_self .., fun _ apart => Function.update_of_ne apart ..⟩
      · simp
      · exact fun u notMine notNew => by simp [notMine, notNew]
    · show Q true (.away (s.opens _) (s.raised _) (update s.cpuProc c' (some p) c'))
      rw [opensEq, raisedEq, Function.update_self]
      exact yes

/-- Whoever is switched to holds the lock of the process, whichever the processor. -/
theorem resume_wp {opens : Nat} {raised : Option Bool} {picked : Option ProcId} {Q : Unit → View L → Prop}
    (partner : t = .proc p ∨ picked = some p)
    (post : ∀ intena, Q () ⟨true, ⟨false, 1, intena⟩, only p, opens, raised, picked⟩) :
    wp (spinMachine L) (outline L) t Act.resume.run Q (.away opens raised picked) := by
  refine wp_step fun s _ inv view => ⟨trivial, fun _ => ?_⟩
  have inv : Inv s := inv
  have view : s.view t = .away opens raised picked := view
  simp only [spinMachine]
  cases place : s.place t with
  | on c =>
    rw [view_seat (seat_eq.mpr place)] at view
    cases congrArg View.inside view
  | out => trivial
  | entering c =>
    dsimp only
    have seat : s.seat t = none := seat_none.mpr fun c' at' => by rw [place] at at'; cases at'
    rw [view_away seat] at view
    have at' : (s.place t).cpu = some c := by rw [place]; rfl
    obtain ⟨p', picked', handed⟩ := inv.handed place
    have same : p' = p := by
      rcases partner with rfl | known
      · exact Option.some.inj (picked'.symm.trans (inv.cpuProc at'))
      · cases t with
        | proc q => cases known ▸ congrArg View.picked view
        | cpu c₁ =>
          have here := inv.home at'
          subst here
          have mine : s.cpuProc c = picked := congrArg View.picked view
          rw [picked', known] at mine
          exact Option.some.inj mine
    subst same
    have cpu : ∀ u, (update s.place t (.on c) u).cpu = (s.place u).cpu := by
      intro u
      by_cases mine : u = t
      · rw [mine, Function.update_self, at']
        rfl
      · rw [Function.update_of_ne mine]
    refine ⟨⟨?_, ?_, ?_, fun {u c'} entering => ?_, inv.off,
      ⟨inv.locks.locked, inv.locks.lkCpu⟩, inv.restored⟩,
      fun u different => ?_, ?_⟩
    · intro u w c' first second
      rw [cpu] at first second
      exact inv.alone first second
    · intro c₁ c' at'
      rw [cpu] at at'
      exact inv.home at'
    · intro q c' at'
      rw [cpu] at at'
      exact inv.cpuProc at'
    · have entering : update s.place t (.on c) u = .entering c' := entering
      by_cases mine : u = t
      · rw [mine, Function.update_self] at entering
        cases entering
      · rw [Function.update_of_ne mine] at entering
        obtain ⟨q, picked, handed⟩ := inv.handed entering
        exact ⟨q, picked, handed.noff, handed.held⟩
    · have there : update s.place t (.on c) u = s.place u := Function.update_of_ne different ..
      have seat' : State.seat { s with place := update s.place t (.on c) } u = s.seat u := by
        unfold State.seat
        rw [← there]
      show State.view { s with place := update s.place t (.on c) } u = s.view u
      rw [State.view, State.view, seat']
      rfl
    · show Q () (State.view _ t)
      rw [view_seat (seat_eq.mpr (Function.update_self ..))]
      have core : s.core c = ⟨false, 1, (s.core c).intena⟩ :=
        Core.ext (inv.off c (by rw [handed.noff]; exact Nat.one_pos)) handed.noff rfl
      have known := post (s.core c).intena
      rw [← core, ← handed.held] at known
      cases view
      exact known

end Xv6.Spinlock
