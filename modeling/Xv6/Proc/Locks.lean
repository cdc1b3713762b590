import Xv6.Proc.Invariant

namespace Xv6
open Threads Function

variable {M : Monitors} {A : Terms M} {s s' : Kernel M} {t other : Tid} {c : Cpu} {v : View M}

/-- A process that takes a lock no longer sleeps under it, and one that takes its own has gone past
the point where it found itself not killed. -/
def Mine.closed (b : Mine M) : Tid → Lock M → Mine M
  | .proc p, l => { b with
      window := if l = .proc p then none else b.window
      bed := if b.bed = some l then none else b.bed }
  | .cpu _, _ => b

namespace View

def lock (v : View M) (t : Tid) (l : Lock M) (i : Info l) : View M :=
  { v with noff := v.noff + 1, held := update v.held l (some i), mine := v.mine.closed t l }

def unlock (v : View M) (l : Lock M) : View M :=
  { v with noff := v.noff - 1, held := update v.held l none }

def set (v : View M) (l : Lock M) (i : Info l) : View M := { v with held := update v.held l (some i) }

end View

namespace Kernel

theorem view_held {l : Lock M} (seat : s.seat t = some c) :
    (s.view t).held l = if s.holder l = some c then some (s.info t l) else none := by
  simp [view, seat]

theorem view_noff (seat : s.seat t = some c) : (s.view t).noff = s.noff c := by
  simp [view, seat]

theorem held_none {l : Lock M} (seat : s.seat t = some c) (h : (s.view t).held l = none) :
    s.holder l ≠ some c := by
  rw [view_held seat] at h
  intro holds
  simp [holds] at h

theorem held_some {l : Lock M} {i : Info l} (seat : s.seat t = some c) (h : (s.view t).held l = some i) :
    s.holder l = some c ∧ s.info t l = i := by
  rw [view_held seat] at h
  split at h
  next holds => cases h; exact ⟨holds, rfl⟩
  next => cases h

theorem lock_dozing (l : Lock M) (p : ProcId) : (s.lock t c l).dozing p =
    if t = .proc p ∧ (s.dozing p).map Chan.lock = some l then none else s.dozing p := rfl

/-- A process that takes the lock of a channel does not sleep on that channel. -/
theorem lock_awake {p : ProcId} {chan : Chan M} {l : Lock M} (same : chan.lock = l) :
    (s.lock (.proc p) c l).dozing p ≠ some chan := by
  rw [lock_dozing]
  split
  next => exact fun eq => (by cases eq)
  next awake =>
    intro asleep
    exact awake ⟨rfl, by rw [asleep, ← same]; rfl⟩

/-- Taking a lock changes what is known under the others at most about the own process. -/
theorem lock_info {l l' : Lock M} (different : l' ≠ l)
    (apart : ∀ p, t = .proc p → other = t → l' ≠ .proc p) :
    (s.lock t c l).info other l' = s.info other l' := by
  cases l' with
  | proc q =>
    simp only [info]
    refine congrArg (Prod.mk _) ?_
    split
    next same =>
      rw [lock_dozing, if_neg]
      rintro ⟨rfl, _⟩
      exact apart q rfl same rfl
    next => rfl
  | wait =>
    simp only [info, lock_dozing]
    refine congrArg (Family.mk _ _) (funext fun p => decide_eq_decide.mpr ?_)
    split
    next cleared =>
      refine ⟨fun h => (by cases h), fun h => ?_⟩
      rw [h] at cleared
      exact absurd (Option.some.inj cleared.2) different
    next => rfl
  | mon m =>
    simp only [info, lock_dozing]
    refine congrArg (Prod.mk _) (funext fun x => funext fun p => decide_eq_decide.mpr ?_)
    split
    next cleared =>
      refine ⟨fun h => (by cases h), fun h => ?_⟩
      rw [h] at cleared
      exact absurd (Option.some.inj cleared.2) different
    next => rfl

theorem lock_mine (l : Lock M) : (s.lock t c l).mine t = (s.mine t).closed t l := by
  cases t with
  | cpu c' => rfl
  | proc p => by_cases bed : s.bed p = some l <;> simp [mine, lock, Mine.closed, bed]

theorem lock_mine_other (l : Lock M) (different : other ≠ t) :
    (s.lock t c l).mine other = s.mine other := by
  cases other with
  | cpu c' => rfl
  | proc q => simp [mine, lock, Ne.symm different]

end Kernel

theorem Kernel.lock_local {l : Lock M} (free : s.holder l = none) : Local t c s (s.lock t c l) where
  inside _ _ := rfl
  seat _ _ := rfl
  noff c' apart := update_of_ne apart _ _
  holder l' c' apart := by
    by_cases same : l' = l
    · subst same
      simp [Kernel.lock, free, Ne.symm apart]
    · simp [Kernel.lock, update_of_ne same]
  info other different l' c' apart holds := by
    refine Kernel.lock_info (fun same => ?_) fun p _ same => absurd same different
    rw [same, free] at holds
    cases holds
  mine other different := Kernel.lock_mine_other l different

/-- While the others' processors are left alone, a processor with nobody inside stays handed over. -/
theorem Seats.keep (h : Seats s) (mine : s.seat t = some c) (locality : Local t c s s')
    (runs : s'.runs = s.runs) (inside : s'.inside = s.inside)
    (cpuProc : ∀ c', (c' ≠ c ∨ ∃ p, s.runs p = some c') → s'.cpuProc c' = s.cpuProc c') : Seats s' where
  alone := by rw [runs]; exact h.alone
  cpuProc {p c'} at' := by
    rw [runs] at at'
    rw [cpuProc c' (.inr ⟨p, at'⟩)]
    exact h.cpuProc at'
  proc := by rw [runs, inside]; exact h.proc
  cpu := by rw [runs, inside]; exact h.cpu
  handover {c'} out alone := by
    rw [inside] at out
    rw [runs, inside] at alone
    have apart : c' ≠ c := by
      rintro rfl
      cases t with
      | cpu c₁ =>
        obtain ⟨within, rfl, _⟩ := Kernel.seat_cpu mine
        rw [within] at out
        cases out
      | proc p =>
        obtain ⟨within, at'⟩ := Kernel.seat_proc mine
        rw [alone p at'] at within
        cases within
    obtain ⟨noff, p, atProc, held⟩ := h.handover out alone
    refine ⟨by rw [locality.noff c' apart, noff], p, by rw [cpuProc c' (.inl apart), atProc], fun l => ?_⟩
    rw [locality.holder l c' apart, held]

/-- What holds under a lock holds with fewer processes asleep. -/
theorem Terms.Free.fewer {l : Lock M} {t t' : Tid} (h : A.Free l (s.info t l)) (parent : s'.parent = s.parent)
    (history : s'.history = s.history) (data : s'.data = s.data)
    (dozing : ∀ p chan, chan.lock = l → s'.dozing p = some chan → s.dozing p = some chan) :
    A.Free l (s'.info t' l) := by
  cases l with
  | proc p => trivial
  | wait =>
    intro q x child zombie
    simp only [Kernel.info, parent, history] at child zombie ⊢
    have awake := h q x child zombie
    simp only [Kernel.info, decide_eq_false_iff_not] at awake ⊢
    exact fun asleep => awake (dozing _ _ rfl asleep)
  | mon m =>
    simp only [Terms.Free, Kernel.info, data, decide_eq_false_iff_not] at h ⊢
    exact ⟨h.1, fun x due p asleep => h.2 x due p (dozing _ _ rfl asleep)⟩

section Acquire

variable {l : Lock M}

theorem Slot.lock {p : ProcId} (h : Slot A s p) (seats : Seats s) (free : s.holder l = none)
    (awake : t = .proc p → (s.proc p).state ≠ .sleeping) : Slot A (s.lock t c l) p where
  entering := h.entering
  running inside other := by
    by_cases same : l = .proc p
    · subst same
      exact h.running inside fun eq => seats.proc inside (eq ▸ free)
    · refine h.running inside ?_
      simpa [Kernel.lock, update_of_ne (Ne.symm same)] using other
  seated := h.seated
  left c' at' away := by
    obtain ⟨holds, idle⟩ := h.left c' at' away
    refine ⟨?_, idle⟩
    have different : Lock.proc p ≠ l := fun same => by rw [same, free] at holds; cases holds
    simpa [Kernel.lock, update_of_ne different] using holds
  asleep sleeping := by
    obtain ⟨chan, eq, asleep⟩ := h.asleep sleeping
    refine ⟨chan, eq, ?_⟩
    rw [Kernel.lock_dozing, if_neg, asleep]
    rintro ⟨rfl, _⟩
    exact awake rfl sleeping
  bed chan asleep := by
    rw [Kernel.lock_dozing] at asleep
    split at asleep
    next => cases asleep
    next awake =>
      have same := h.bed chan asleep
      simp only [Kernel.lock, same]
      refine if_neg fun both => awake ⟨both.1, ?_⟩
      rw [asleep]
      exact both.2
  still := h.still
  noPid := h.noPid
  noParent := h.noParent
  orphan := h.orphan
  used := h.used
  children := h.children
  ended := h.ended
  created := h.created
  leaving leaves := by
    obtain ⟨notInit, runs, holds⟩ := h.leaving leaves
    refine ⟨notInit, runs, ?_⟩
    have different : Lock.wait ≠ l := fun same => runs (by rw [← holds, same, free])
    simpa [Kernel.lock, update_of_ne different] using holds
  init := h.init
  known := h.known
  mute := h.mute
  caught := h.caught
  tidy := h.tidy
  wary chan wary := by
    refine ⟨fun window => (h.wary chan wary).1 ?_, (h.wary chan wary).2⟩
    simp only [Kernel.lock] at window
    split at window
    next => cases window
    next => exact window

theorem acquire_wp {Q : Unit → View M → Prop} (inside : v.inside = true) (free : v.held l = none)
    (own : ∀ p, t = .proc p → v.held (.proc p) = none)
    (post : ∀ i, A.Free l i → A.Own v.mine t l i → Q () (v.lock t l i)) :
    wp (kernelMachine M) (kOutline A) t (KAct.acquire l).run Q v := by
  refine kStep_wp inside fun s c _ inv view seat => ⟨trivial, fun _ => ?_⟩
  subst view
  simp only [Kernel.act, if_neg (Kernel.held_none seat free)]
  split
  next => trivial
  next idle =>
    have idle : s.holder l = none := by simpa using idle
    have locality : Local t c s (s.lock t c l) := Kernel.lock_local idle
    -- A process that does not hold its own lock runs.
    have running : ∀ p, t = .proc p → (s.proc p).state = .running := by
      rintro p rfl
      obtain ⟨within, at'⟩ := Kernel.seat_proc seat
      exact (inv.slot p).running within (by rw [at']; exact Kernel.held_none seat (own p rfl))
    have fewer : ∀ p chan, (s.lock t c l).dozing p = some chan → s.dozing p = some chan := by
      intro p chan asleep
      rw [Kernel.lock_dozing] at asleep
      split at asleep
      next => cases asleep
      next => exact asleep
    have free' : ∀ l', s.holder l' = none → ∀ t', A.Free l' ((s.lock t c l).info t' l') :=
      fun l' none t' => (inv.free l' none).fewer rfl rfl rfl fun p chan _ => fewer p chan
    refine ⟨⟨?_, fun p => ?_, fun l' none => ?_, inv.sound⟩, locality.guar inv.seats seat, ?_⟩
    · exact inv.seats.keep seat locality rfl rfl fun _ _ => rfl
    · exact (inv.slot p).lock inv.seats idle fun same => by rw [running p same]; decide
    · refine free' l' ?_ _
      by_cases same : l' = l
      · rw [same, idle]
      · simpa [Kernel.lock, update_of_ne same] using none
    · have viewEq : (s.lock t c l).view t = (s.view t).lock t l ((s.lock t c l).info t l) := by
        have seat' : (s.lock t c l).seat t = some c := seat
        unfold View.lock
        rw [Kernel.view_noff seat]
        have held : ((s.lock t c l).view t).held =
            update (s.view t).held l (some ((s.lock t c l).info t l)) := by
          funext l'
          rw [Kernel.view_held seat']
          by_cases same : l' = l
          · subst same
            simp [Kernel.lock]
          · rw [update_of_ne same, Kernel.view_held seat]
            simp only [Kernel.lock, update_of_ne same]
            split
            next holds =>
              refine congrArg some (Kernel.lock_info same fun p mine _ own' => ?_)
              subst own'
              exact Kernel.held_none seat (own p mine) holds
            next => rfl
        have noff : ((s.lock t c l).view t).noff = s.noff c + 1 := by
          rw [Kernel.view_noff seat']
          simp [Kernel.lock]
        have mine : ((s.lock t c l).view t).mine = (s.view t).mine.closed t l := Kernel.lock_mine l
        rw [← held, ← noff, ← mine]
        rfl
      show Q () ((s.lock t c l).view t)
      rw [viewEq]
      refine post _ (free' l idle t) ?_
      cases t with
      | cpu c' => trivial
      | proc p =>
        cases l with
        | proc q =>
          rintro rfl
          refine ⟨running p rfl, fun chan wary window => ?_⟩
          exact ((inv.slot p).wary chan wary).1 window
        | wait => exact decide_eq_false (Kernel.lock_awake rfl)
        | mon m => exact fun x => decide_eq_false (Kernel.lock_awake rfl)

end Acquire

section Release

variable {l : Lock M} {i : Info l}

theorem Kernel.unlock_local (held : s.holder l = some c) : Local t c s (s.unlock c l) where
  inside _ _ := rfl
  seat _ _ := rfl
  noff c' apart := update_of_ne apart _ _
  holder l' c' apart := by
    by_cases same : l' = l
    · subst same
      simp [Kernel.unlock, held, Ne.symm apart]
    · simp [Kernel.unlock, update_of_ne same]
  info _ _ l' _ _ _ := by cases l' <;> rfl
  mine other _ := by cases other <;> rfl

theorem Slot.unlock {p : ProcId} (h : Slot A s p) (seats : Seats s) (seat : s.seat t = some c)
    (held : s.holder l = some c) (running : t = .proc p → l = .proc p → (s.proc p).state = .running)
    (picked : t = .cpu c → l = .proc p → s.cpuProc c ≠ some p)
    (leaving : t = .proc p → l = .wait → s.leaving p = false) : Slot A (s.unlock c l) p where
  entering := h.entering
  running inside other := by
    by_cases same : l = .proc p
    · by_cases own : t = .proc p
      · exact running own same
      · refine h.running inside fun eq => own ?_
        have theirs : s.seat (.proc p) = some c := by
          unfold Kernel.seat
          rw [if_pos (show s.inside (.proc p) = true from inside)]
          exact eq.symm.trans (same ▸ held)
        exact (seats.apart seat theirs).symm
    · refine h.running inside ?_
      simpa [Kernel.unlock, update_of_ne (Ne.symm same)] using other
  seated := h.seated
  left c' at' away := by
    obtain ⟨holds, idle⟩ := h.left c' at' away
    refine ⟨?_, idle⟩
    have different : Lock.proc p ≠ l := by
      rintro rfl
      rw [held] at holds
      cases holds
      cases t with
      | cpu c₁ =>
        obtain ⟨_, rfl, _⟩ := Kernel.seat_cpu seat
        exact picked rfl rfl at'
      | proc q =>
        have runs := (Kernel.seat_proc seat).2
        have same : q = p := Option.some.inj ((seats.cpuProc runs).symm.trans at')
        exact away (same ▸ runs)
    simpa [Kernel.unlock, update_of_ne different] using holds
  asleep := h.asleep
  bed := h.bed
  still := h.still
  noPid := h.noPid
  noParent := h.noParent
  orphan := h.orphan
  used := h.used
  children := h.children
  ended := h.ended
  created := h.created
  leaving leaves := by
    obtain ⟨notInit, runs, holds⟩ := h.leaving leaves
    refine ⟨notInit, runs, ?_⟩
    have different : Lock.wait ≠ l := by
      rintro rfl
      rw [held] at holds
      have same : t = .proc p := by
        cases t with
        | cpu c₁ => exact absurd holds.symm ((Kernel.seat_cpu seat).2.2 p)
        | proc q => rw [seats.alone (Kernel.seat_proc seat).2 holds.symm]
      exact absurd leaves (by simp [Kernel.unlock, leaving same rfl])
    simpa [Kernel.unlock, update_of_ne different] using holds
  init := h.init
  known := h.known
  mute := h.mute
  caught := h.caught
  tidy := h.tidy
  wary := h.wary

/-- Giving back a lock changes what its holder sees of the others not at all. -/
theorem Kernel.unlock_view (seat : s.seat t = some c) (l : Lock M) :
    (s.unlock c l).view t = (s.view t).unlock l := by
  have seat' : (s.unlock c l).seat t = some c := seat
  unfold View.unlock
  rw [Kernel.view_noff seat]
  have held : ((s.unlock c l).view t).held = update (s.view t).held l none := by
    funext l'
    rw [Kernel.view_held seat']
    by_cases same : l' = l
    · subst same
      simp [Kernel.unlock]
    · rw [update_of_ne same, Kernel.view_held seat]
      simp only [Kernel.unlock, update_of_ne same]
      split
      next => cases l' <;> rfl
      next => rfl
  have noff : ((s.unlock c l).view t).noff = s.noff c - 1 := by
    rw [Kernel.view_noff seat']
    simp [Kernel.unlock]
  have mine : ((s.unlock c l).view t).mine = (s.view t).mine := by cases t <;> rfl
  rw [← held, ← noff, ← mine]
  rfl

/-- The lock of another kind than `wait_lock` is given back without a look at the children. -/
theorem Kernel.look_other (h : l ≠ .wait) : s.look t l = s := by
  cases t <;> cases l <;> first | rfl | exact absurd rfl h

/-- New notes leave the rest of the kernel as it was. -/
theorem KInv.noted {p : ProcId} {notes : Notes} (inv : KInv A s)
    (caught : (asking s.calls p).any Request.waits = true → notes.caught = true → (s.proc p).killed = true) :
    KInv A { s with notes := update s.notes p notes } where
  seats := ⟨inv.seats.alone, inv.seats.cpuProc, inv.seats.proc, inv.seats.cpu, inv.seats.handover⟩
  slot q := by
    refine { inv.slot q with caught := ?_ }
    show (asking s.calls q).any Request.waits = true → (update s.notes p notes q).caught = true → _
    by_cases same : q = p
    · subst same
      rw [update_self]
      exact caught
    · rw [update_of_ne same]
      exact (inv.slot q).caught
  free l none := by
    have free := inv.free l none
    cases l <;> exact free
  sound := inv.sound

theorem Kernel.noted_local {p : ProcId} {notes : Notes} :
    Local (.proc p) c s { s with notes := update s.notes p notes } where
  inside _ _ := rfl
  seat _ _ := rfl
  noff _ _ := rfl
  holder _ _ _ := Iff.rfl
  info _ _ l _ _ _ := by cases l <;> rfl
  mine other different := by
    cases other with
    | cpu c' => rfl
    | proc q =>
      have apart : q ≠ p := fun same => different (same ▸ rfl)
      simp only [Kernel.mine, update_of_ne apart]

theorem Kernel.noted_view {p : ProcId} {notes : Notes} :
    Kernel.view { s with notes := update s.notes p notes } (.proc p) =
      { s.view (.proc p) with mine := { (s.view (.proc p)).mine with notes := notes } } := by
  refine View.ext rfl rfl (funext fun l => ?_) ?_
  · cases l <;> rfl
  · simp only [Kernel.view, Kernel.mine, update_self]

/-- A step that writes only the notes of its own process. -/
theorem After.noted {p : ProcId} {a : KAct M} {Q : a.Resp → View M → Prop} {answer : a.Resp} {notes : Notes}
    (inv : KInv A s) (seat : s.seat (.proc p) = some c)
    (caught : (asking s.calls p).any Request.waits = true → notes.caught = true → (s.proc p).killed = true)
    (post : Q answer { s.view (.proc p) with mine := { (s.view (.proc p)).mine with notes } }) :
    (kOutline A).After (.proc p) a s Q (.ok answer { s with notes := update s.notes p notes }) := by
  refine ⟨inv.noted caught, Kernel.noted_local.guar inv.seats seat, ?_⟩
  exact (congrArg (Q answer) Kernel.noted_view).mpr post

theorem KInv.unlock (inv : KInv A s) (seat : s.seat t = some c) (held : s.holder l = some c)
    (free : A.Free l (s.info t l)) (running : ∀ p, t = .proc p → l = .proc p → (s.proc p).state = .running)
    (picked : ∀ p, t = .cpu c → l = .proc p → s.cpuProc c ≠ some p)
    (leaving : ∀ p, t = .proc p → l = .wait → s.leaving p = false) : KInv A (s.unlock c l) where
  seats := inv.seats.keep seat (Kernel.unlock_local held) rfl rfl fun _ _ => rfl
  slot p := (inv.slot p).unlock inv.seats seat held (running p) (picked p) (leaving p)
  free l' none := by
    by_cases same : l' = l
    · subst same
      exact free.fewer rfl rfl rfl fun _ _ _ asleep => asleep
    · refine (inv.free l' ?_).fewer rfl rfl rfl fun _ _ _ asleep => asleep
      simpa [Kernel.unlock, update_of_ne same] using none
  sound := inv.sound

theorem release_wp {Q : Unit → View M → Prop} (inside : v.inside = true) (held : v.held l = some i)
    (free : A.Free l i) (notWait : l ≠ .wait) (running : ∀ p, t = .proc p → l = .proc p → ∀ j,
      v.held (.proc p) = some j → j.1.state = .running)
    (picked : ∀ p, l = .proc p → v.mine.picked ≠ some p) (post : Q () (v.unlock l)) :
    wp (kernelMachine M) (kOutline A) t (KAct.release l).run Q v := by
  refine kStep_wp inside fun s c _ inv view seat => ⟨trivial, fun _ => ?_⟩
  subst view
  obtain ⟨holds, rfl⟩ := Kernel.held_some seat held
  simp only [Kernel.act, if_neg (not_not.mpr holds), Kernel.look_other notWait]
  refine ⟨inv.unlock seat holds free ?_ ?_ fun _ _ same => absurd same notWait,
    (Kernel.unlock_local holds).guar inv.seats seat, ?_⟩
  · rintro p rfl rfl
    exact running p rfl rfl _ held
  · rintro p rfl rfl
    exact picked p rfl
  · show Q () ((s.unlock c l).view t)
    rw [Kernel.unlock_view seat]
    exact post

/-- A process that gives back `wait_lock` knows what children it leaves behind. -/
def Family.look (f : Family) (p : ProcId) (notes : Notes) : Notes :=
  { notes with
    children := decide (∃ q, f.parent q = some p)
    zombies := decide (∃ q, f.parent q = some p ∧ unreaped f.history q ≠ none) }

theorem KInv.zombie_iff (inv : KInv A s) (q : ProcId) :
    (s.proc q).state = .zombie ↔ unreaped s.history q ≠ none := by
  rw [(inv.slot q).ended]
  split <;> simp [*]

theorem releaseWait_wp {Q : Unit → View M → Prop} {p : ProcId} {f : Family} (inside : v.inside = true)
    (held : v.held .wait = some f) (free : A.Free .wait f) (leaving : v.mine.leaving = false)
    (post : Q () { v.unlock .wait with mine := { v.mine with notes := f.look p v.mine.notes } }) :
    wp (kernelMachine M) (kOutline A) (.proc p) (KAct.release .wait).run Q v := by
  refine kStep_wp inside fun s c _ inv view seat => ⟨trivial, fun _ => ?_⟩
  subst view
  obtain ⟨holds, rfl⟩ := Kernel.held_some (l := .wait) seat held
  simp only [Kernel.act, if_neg (not_not.mpr holds)]
  have unlocked : KInv A (s.unlock c .wait) := by
    refine inv.unlock seat holds free (fun _ _ same => (by cases same)) (fun _ same => (by cases same)) ?_
    rintro _ ⟨⟩ -
    exact leaving
  have unlockedLocal : Local (.proc p) c s (s.unlock c .wait) := Kernel.unlock_local holds
  refine ⟨unlocked.noted ((inv.slot p).caught), fun other different => ?_, ?_⟩
  · have noted : ((s.unlock c .wait).look (.proc p) .wait).view other = (s.unlock c .wait).view other :=
      Kernel.noted_local.guar unlocked.seats seat other different
    exact noted.trans (unlockedLocal.guar inv.seats seat other different)
  · show Q () (Kernel.view ((s.unlock c .wait).look (.proc p) .wait) (.proc p))
    have notes : (s.info (.proc p) .wait : Family).look p (s.view (.proc p)).mine.notes =
        { s.notes p with
          children := decide (∃ q, s.parent q = some p)
          zombies := decide (∃ q, s.parent q = some p ∧ (s.proc q).state = .zombie) } := by
      simp only [Family.look, inv.zombie_iff]
      rfl
    rw [notes] at post
    rw [← Kernel.unlock_view seat] at post
    exact (congrArg (Q ()) Kernel.noted_view).mpr post

theorem releaseProc_wp {Q : Unit → View M → Prop} {q : ProcId} {j : Info (.proc q)} (inside : v.inside = true)
    (held : v.held (.proc q) = some j) (running : t = .proc q → j.1.state = .running)
    (picked : v.mine.picked ≠ some q) (post : Q () (v.unlock (.proc q))) :
    wp (kernelMachine M) (kOutline A) t (KAct.release (.proc q)).run Q v := by
  refine release_wp inside held trivial (fun same => (by cases same)) (fun p own same j' held' => ?_)
    (fun p same => ?_) post
  · cases same
    rw [held] at held'
    cases held'
    exact running own
  · cases same
    exact picked

/-- What a lock's holder knows once a process has gone to sleep on a channel of it. -/
def Info.doze : {l : Lock M} → Info l → Chan M → ProcId → Info l
  | .proc _, i, _, _ => i
  | .wait, f, chan, p => { f with dozer := update f.dozer p (decide (chan = .proc p)) }
  | .mon m, i, chan, p => (i.1, fun x => update (i.2 x) p (decide (chan = .mon m x)))

theorem sleepRelease_wp {Q : Unit → View M → Prop} {p : ProcId} {chan : Chan M} {j : Info (.proc p)}
    (inside : v.inside = true) (held : v.held l = some i) (own : v.held (.proc p) = some j)
    (guard : chan.lock = l) (free : A.Free l (i.doze chan p)) (running : j.1.state = .running)
    (bed : v.mine.bed = none) (leaving : v.mine.leaving = false)
    (post : Q () { (v.unlock l).set (.proc p) (j.1, some chan) with
      mine := { v.mine with bed := some l } }) :
    wp (kernelMachine M) (kOutline A) (.proc p) (KAct.sleepRelease p l chan).run Q v := by
  refine kStep_wp inside fun s c _ inv view seat => ⟨trivial, fun _ => ?_⟩
  subst view
  obtain ⟨holds, rfl⟩ := Kernel.held_some seat held
  obtain ⟨ownHolds, rfl⟩ := Kernel.held_some seat own
  have awake : s.dozing p = none := by
    cases asleep : s.dozing p with
    | none => rfl
    | some old =>
      have := (inv.slot p).bed old asleep
      rw [show s.bed p = none from bed] at this
      cases this
  have notOwn : l ≠ .proc p := by
    rintro rfl
    cases chan <;> cases guard
  simp only [Kernel.act, if_neg (not_not.mpr holds)]
  set s' : Kernel M := { s.unlock c l with
    dozing := update s.dozing p (some chan), bed := update s.bed p (some l) } with hs'
  have dozing : ∀ q, s'.dozing q = if q = p then some chan else s.dozing q := fun q => by
    simp only [hs', update_apply]
  have elsewhere : ∀ q old, old.lock ≠ l → (s'.dozing q = some old ↔ s.dozing q = some old) := by
    intro q old different
    rw [dozing]
    split
    next same =>
      subst same
      rw [awake]
      refine ⟨fun eq => ?_, fun eq => (by cases eq)⟩
      cases eq
      exact absurd guard different
    next => rfl
  have unlocked : Local (.proc p) c s (s.unlock c l) := Kernel.unlock_local holds
  have info : ∀ t' l', l' ≠ l → (t' = .proc p → l' ≠ .proc p) → s'.info t' l' = s.info t' l' := by
    intro t' l' different notMine
    cases l' with
    | proc q =>
      refine congrArg (Prod.mk _) ?_
      split
      next same =>
        subst same
        rw [dozing, if_neg]
        rintro rfl
        exact notMine rfl rfl
      next => rfl
    | wait =>
      refine congrArg (Family.mk _ _) (funext fun q => decide_eq_decide.mpr ?_)
      exact elsewhere q _ different
    | mon m =>
      refine congrArg (Prod.mk _) (funext fun x => funext fun q => decide_eq_decide.mpr ?_)
      exact elsewhere q _ different
  have locality : Local (.proc p) c s s' := by
    refine ⟨unlocked.inside, unlocked.seat, unlocked.noff, unlocked.holder, ?_, ?_⟩
    · intro other different l' c' apart theirs
      refine info other l' ?_ fun same => absurd same different
      rintro rfl
      rw [holds] at theirs
      exact apart (Option.some.inj theirs).symm
    · intro other different
      cases other with
      | cpu c' => rfl
      | proc q =>
        have apart : q ≠ p := fun same => different (same ▸ rfl)
        simp [Kernel.mine, hs', Kernel.unlock, update_of_ne apart]
  refine ⟨⟨inv.seats.keep seat locality rfl rfl fun _ _ => rfl, fun q => ?_, fun l' none => ?_, inv.sound⟩,
    locality.guar inv.seats seat, ?_⟩
  · have slot : Slot A (s.unlock c l) q := by
      refine (inv.slot q).unlock inv.seats seat holds ?_ (fun same => (by cases same)) ?_
      · rintro _ rfl
        cases chan <;> cases guard
      · rintro same -
        cases same
        exact leaving
    refine { slot with asleep := fun sleeping => ?_, bed := fun old asleep => ?_ }
    · obtain ⟨old, eq, asleep⟩ := (inv.slot q).asleep sleeping
      refine ⟨old, eq, ?_⟩
      rw [dozing, if_neg, asleep]
      rintro rfl
      rw [show (s'.proc q).state = .running from running] at sleeping
      cases sleeping
    · rw [dozing] at asleep
      split at asleep
      next same =>
        subst same
        cases asleep
        simp [hs', guard]
      next different => simpa [hs', update_of_ne different] using (inv.slot q).bed old asleep
  · by_cases same : l' = l
    · subst same
      have eq : s'.info (.cpu 0) l' = (s.info (.proc p) l').doze chan p := by
        cases l' with
        | proc q => cases chan <;> cases guard
        | wait =>
          refine congrArg (Family.mk _ _) (funext fun q => ?_)
          by_cases same : q = p
          · subst same; simp [dozing]
          · simp [Kernel.info, dozing, same]
        | mon m =>
          refine congrArg (Prod.mk _) (funext fun x => funext fun q => ?_)
          by_cases same : q = p
          · subst same; simp [dozing]
          · simp [Kernel.info, dozing, same]
      rw [eq]
      exact free
    · refine (inv.free l' ?_).fewer rfl rfl rfl fun q old under asleep => ?_
      · simpa [hs', Kernel.unlock, update_of_ne same] using none
      · exact (elsewhere q old (under ▸ same)).mp asleep
  · show Q () (s'.view (.proc p))
    have seat' : s'.seat (.proc p) = some c := seat
    have viewEq : s'.view (.proc p) = { ((s.view (.proc p)).unlock l).set (.proc p)
        ((s.info (.proc p) (.proc p)).1, some chan) with
        mine := { (s.view (.proc p)).mine with bed := some l } } := by
      have heldEq : (s'.view (.proc p)).held = update (update (s.view (.proc p)).held l none) (.proc p)
          (some ((s.info (.proc p) (.proc p)).1, some chan)) := by
        funext l'
        rw [Kernel.view_held seat']
        by_cases mine : l' = .proc p
        · subst mine
          have holds' : s'.holder (.proc p) = some c := by
            simp [hs', Kernel.unlock, update_of_ne notOwn.symm, ownHolds]
          rw [if_pos holds', update_self]
          simp [Kernel.info, hs', Kernel.unlock]
        · rw [update_of_ne mine]
          by_cases same : l' = l
          · subst same
            simp [hs', Kernel.unlock]
          · rw [update_of_ne same, Kernel.view_held seat, info _ l' same fun _ => mine]
            simp [hs', Kernel.unlock, update_of_ne same]
      have noffEq : (s'.view (.proc p)).noff = (s.view (.proc p)).noff - 1 := by
        rw [Kernel.view_noff seat', Kernel.view_noff seat]
        simp [hs', Kernel.unlock]
      have mineEq : (s'.view (.proc p)).mine = { (s.view (.proc p)).mine with bed := some l } := by
        simp [Kernel.view, Kernel.mine, hs', Kernel.unlock]
      unfold View.set View.unlock
      rw [← heldEq, ← noffEq, ← mineEq]
      rfl
    rw [viewEq]
    exact post

end Release

end Xv6
