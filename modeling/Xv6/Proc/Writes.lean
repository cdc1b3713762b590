import Xv6.Proc.Switches

namespace Xv6
open Threads Function

variable {M : Monitors} {A : Terms M} {s s' : Kernel M} {t other : Tid} {c : Cpu} {v : View M} {p q : ProcId}

/-- Fields were written, and nothing was locked or switched. -/
structure Kept (s s' : Kernel M) : Prop where
  holder : s'.holder = s.holder
  noff : s'.noff = s.noff
  runs : s'.runs = s.runs
  inside : s'.inside = s.inside
  cpuProc : s'.cpuProc = s.cpuProc

theorem Kept.seat (h : Kept s s') (other : Tid) : s'.seat other = s.seat other := by
  unfold Kernel.seat
  rw [h.inside]
  cases other <;> simp only [Kernel.cpu, h.runs]

/-- A step that writes fields keeps the invariant where it keeps what it says of each slot and of
the locks that are held elsewhere or free. -/
theorem After.write {a : KAct M} {Q : a.Resp → View M → Prop} {answer : a.Resp} (inv : KInv A s)
    (seat : s.seat t = some c) (kept : Kept s s')
    (info : ∀ other, other ≠ t → ∀ l, s.holder l ≠ some c → s'.info other l = s.info other l)
    (mine : ∀ other, other ≠ t → s'.mine other = s.mine other)
    (slot : ∀ p, Slot A s' p) (sound : Sound s'.history) (post : Q answer (s'.view t)) :
    (kOutline A).After t a s Q (.ok answer s') := by
  have locality : Local t c s s' := by
    refine ⟨fun _ _ => by rw [kept.inside], fun other _ => kept.seat other, fun _ _ => by rw [kept.noff],
      fun _ _ _ => by rw [kept.holder], fun other different l c' apart theirs => ?_, mine⟩
    refine info other different l ?_
    rw [theirs]
    exact fun same => apart (Option.some.inj same)
  refine ⟨⟨inv.seats.keep seat locality kept.runs kept.inside fun _ _ => by rw [kept.cpuProc], slot,
    fun l none => ?_, sound⟩, locality.guar inv.seats seat, post⟩
  rw [kept.holder] at none
  -- Any flow of control but `t` sees the lock as it was.
  obtain ⟨other, different⟩ : ∃ other, other ≠ t := by
    cases t with
    | cpu c' => exact ⟨.proc initproc, by simp⟩
    | proc p => exact ⟨.cpu 0, by simp⟩
  have same := info other different l (by rw [none]; simp)
  have free := inv.free l none
  cases l with
  | proc q => trivial
  | wait =>
    have eq : s'.info (.cpu 0) .wait = s.info (.cpu 0) .wait := same
    rw [eq]
    exact free
  | mon m =>
    have eq : s'.info (.cpu 0) (.mon m) = s.info (.cpu 0) (.mon m) := same
    rw [eq]
    exact free

theorem Kept.view_held (kept : Kept s s') (seat : s.seat t = some c) (l : Lock M) :
    (s'.view t).held l = if s.holder l = some c then some (s'.info t l) else none := by
  rw [Kernel.view_held ((kept.seat t).trans seat), kept.holder]

theorem Kept.view_noff (kept : Kept s s') (seat : s.seat t = some c) : (s'.view t).noff = (s.view t).noff := by
  rw [Kernel.view_noff ((kept.seat t).trans seat), Kernel.view_noff seat, kept.noff]

theorem Kept.view_inside (kept : Kept s s') : (s'.view t).inside = (s.view t).inside := by
  show s'.inside t = s.inside t
  rw [kept.inside]

theorem Kept.view (kept : Kept s s') (seat : s.seat t = some c)
    (info : ∀ l, s.holder l = some c → s'.info t l = s.info t l) :
    s'.view t = { s.view t with mine := s'.mine t } := by
  refine View.ext kept.view_inside (kept.view_noff seat) (funext fun l => ?_) rfl
  rw [kept.view_held seat]
  simp only
  rw [Kernel.view_held seat]
  split
  next holds => rw [info l holds]
  next => rfl

theorem Kept.view_set (kept : Kept s s') (seat : s.seat t = some c) {l : Lock M} (holds : s.holder l = some c)
    (info : ∀ l', l' ≠ l → s.holder l' = some c → s'.info t l' = s.info t l') :
    s'.view t = { (s.view t).set l (s'.info t l) with mine := s'.mine t } := by
  refine View.ext kept.view_inside (kept.view_noff seat) (funext fun l' => ?_) rfl
  rw [kept.view_held seat]
  simp only [View.set]
  by_cases same : l' = l
  · subst same
    rw [update_self, if_pos holds]
  · rw [update_of_ne same, Kernel.view_held seat]
    split
    next holds' => rw [info l' same holds']
    next => rfl

theorem Kept.view_set₂ (kept : Kept s s') (seat : s.seat t = some c) {l₁ l₂ : Lock M}
    (first : s.holder l₁ = some c) (second : s.holder l₂ = some c)
    (info : ∀ l', l' ≠ l₁ → l' ≠ l₂ → s.holder l' = some c → s'.info t l' = s.info t l') :
    s'.view t = { ((s.view t).set l₁ (s'.info t l₁)).set l₂ (s'.info t l₂) with mine := s'.mine t } := by
  refine View.ext kept.view_inside (kept.view_noff seat) (funext fun l' => ?_) rfl
  rw [kept.view_held seat]
  simp only [View.set]
  by_cases same₂ : l' = l₂
  · subst same₂
    rw [update_self, if_pos second]
  · rw [update_of_ne same₂]
    by_cases same₁ : l' = l₁
    · subst same₁
      rw [update_self, if_pos first]
    · rw [update_of_ne same₁, Kernel.view_held seat]
      split
      next holds' => rw [info l' same₁ same₂ holds']
      next => rfl

/-- A holder of the lock of a process writes its state. -/
theorem Place.write (inv : KInv A s) (seat : s.seat t = some c) (kept : Kept s s')
    (holds : s.holder (.proc p) = some c) (state : (s'.proc p).state = (s.proc p).state ∨
      (s'.proc p).state ≠ .running ∧ (t = .proc p ∨ (s.proc p).state ≠ .running)) : Place s' p := by
  have place := (inv.slot p).toPlace
  rcases state with same | ⟨stopped, own⟩
  · constructor
    · rw [same, kept.inside, kept.runs]; exact place.entering
    · rw [same, kept.inside, kept.runs, kept.holder]; exact place.running
    · rw [same, kept.runs]; exact place.seated
    · rw [same, kept.runs, kept.cpuProc, kept.holder]; exact place.left
  · by_cases mine : t = .proc p
    · subst mine
      obtain ⟨within, runs⟩ := Kernel.seat_proc seat
      constructor
      · rw [kept.inside, within]
        exact fun out => (by cases out)
      · rw [kept.holder, kept.runs, runs, holds]
        exact fun _ absurd => (absurd rfl).elim
      · exact fun running => (stopped running).elim
      · rw [kept.cpuProc, kept.runs, kept.holder]
        exact fun c' at' away => ⟨(place.left c' at' away).1, stopped⟩
    · obtain ⟨idle, out⟩ := inv.idle seat mine holds (own.resolve_left mine)
      constructor
      · rw [kept.runs, idle]
        exact fun _ absurd => (absurd rfl).elim
      · rw [kept.inside, out]
        exact fun in' => (by cases in')
      · exact fun running => (stopped running).elim
      · rw [kept.cpuProc, kept.runs, kept.holder]
        exact fun c' at' away => ⟨(place.left c' at' away).1, stopped⟩

/-- A step that leaves a process's own fields alone. -/
structure Aside (s s' : Kernel M) (q : ProcId) : Prop where
  proc : s'.proc q = s.proc q
  dozing : s'.dozing q = s.dozing q
  bed : s'.bed q = s.bed q
  parent : s'.parent q = s.parent q
  children : ∀ r, s'.parent r = some q → s.parent r = some q
  maker : s'.maker q = s.maker q
  unreaped : unreaped s'.history q = unreaped s.history q
  leaving : s'.leaving q = s.leaving q
  pid : pidOf s'.calls q = pidOf s.calls q
  asking : asking s'.calls q = asking s.calls q
  targeted : targeted s.calls q = true → targeted s'.calls q = true
  caught : (s'.notes q).caught = (s.notes q).caught
  window : s'.window q = s.window q

theorem Slot.aside (h : Slot A s q) (kept : Kept s s') (aside : Aside s s' q)
    (created : ∀ x, s.parent q = some x → Created s q x → Created s' q x) : Slot A s' q := by
  obtain ⟨proc, dozing, bed, parent, children, maker, ended, leaving, pid, asking, targeted,
    caught, window⟩ := aside
  refine ⟨⟨?_, ?_, ?_, ?_⟩, ⟨?_, ?_, ?_⟩, ⟨?_, ?_, ?_, ?_, ?_, ?_, ?_, ?_⟩, ⟨?_, ?_, ?_⟩, ⟨?_, ?_, ?_⟩⟩
  · rw [proc, kept.inside, kept.runs]; exact h.entering
  · rw [proc, kept.inside, kept.runs, kept.holder]; exact h.running
  · rw [proc, kept.runs]; exact h.seated
  · rw [proc, kept.runs, kept.cpuProc, kept.holder]; exact h.left
  · rw [proc, dozing]; exact h.asleep
  · rw [dozing, bed]; exact h.bed
  · rw [proc]; exact h.still
  · rw [proc, parent]; exact h.noParent
  · rw [proc, parent]; exact h.orphan
  · rw [proc, maker]; exact h.used
  · rw [proc]; exact fun r child => h.children r (children r child)
  · rw [proc, ended]; exact h.ended
  · rw [parent]; exact fun x child => created x child (h.created x child)
  · rw [leaving, kept.runs, kept.holder]; exact h.leaving
  · rw [proc]; exact h.init
  · rw [proc, pid]; exact h.known
  · rw [proc, asking]; exact h.mute
  · rw [proc, asking, caught]; exact h.caught
  · rw [proc]; exact h.noPid
  · rw [proc]
    exact fun tidy => ⟨(h.tidy tidy).1, fun killed => targeted ((h.tidy tidy).2 killed)⟩
  · rw [proc, window]; exact h.wary

theorem ProcState.alive.live {state : ProcState} (alive : state.alive = true) : state ≠ .unused := by
  rintro rfl
  cases alive

theorem Recorded.alive (h : Recorded s p) (before : (s.proc p).state.alive = true)
    (after : (s'.proc p).state.alive = true) (calls : s'.calls = s.calls) (notes : s'.notes p = s.notes p)
    (pid : (s'.proc p).pid = (s.proc p).pid) (killed : (s.proc p).killed = true → (s'.proc p).killed = true) :
    Recorded s' p :=
  h.keep calls notes pid killed (fun _ => ProcState.alive.live before) fun dead => by
    rw [after] at dead; cases dead

/-- A process that may run before and after a step stays in its family. -/
theorem Kin.alive (h : Kin s p) (kept : Kept s s') (before : (s.proc p).state.alive = true)
    (after : (s'.proc p).state.alive = true) (parent : s'.parent = s.parent) (maker : s'.maker p = s.maker p)
    (history : s'.history = s.history) (creator : s'.creator = s.creator) (exits : s'.exits = s.exits)
    (leaving : s'.leaving = s.leaving) : Kin s' p := by
  have unused : ∀ {state : ProcState}, state.alive = true → state ≠ .unused ∧ state ≠ .used ∧
    state ≠ .zombie := by
    intro state alive
    cases state <;> simp_all [ProcState.alive]
  obtain ⟨notUnused, notUsed, notZombie⟩ := unused before
  obtain ⟨notUnused', notUsed', notZombie'⟩ := unused after
  constructor
  · exact fun eq => absurd eq notUnused'
  · rw [parent]
    exact fun _ _ => h.orphan notUnused notUsed
  · rw [maker]
    exact ⟨fun eq => absurd eq notUsed', fun made => absurd (h.used.mpr made) notUsed⟩
  · exact fun _ _ => after
  · have := h.ended
    rw [if_neg notZombie] at this
    rw [if_neg notZombie', history]
    exact this
  · unfold Created
    rw [parent, creator, exits, leaving]
    exact h.created
  · rw [leaving, kept.runs, kept.holder]
    exact h.leaving
  · exact fun _ => after

section Process

variable {new : Proc M}

theorem Kernel.kept_setProc : Kept s (s.setProc p new) := ⟨rfl, rfl, rfl, rfl, rfl⟩

theorem Kernel.setProc_self : (s.setProc p new).proc p = new := update_self ..

theorem Kernel.setProc_other (h : q ≠ p) : (s.setProc p new).proc q = s.proc q := update_of_ne h ..

theorem Kernel.setProc_info {l : Lock M} (h : l ≠ .proc p) :
    (s.setProc p new).info other l = s.info other l := by
  cases l with
  | proc q =>
    have different : q ≠ p := fun same => h (same ▸ rfl)
    simp only [Kernel.info, Kernel.setProc_other different]
    rfl
  | wait => rfl
  | mon m => rfl

theorem Kernel.setProc_mine (h : other = .proc p → new.chan = (s.proc p).chan) :
    (s.setProc p new).mine other = s.mine other := by
  cases other with
  | cpu c => rfl
  | proc q =>
    by_cases same : q = p
    · subst same
      simp only [Kernel.mine, Kernel.setProc_self, h rfl]
      rfl
    · simp only [Kernel.mine, Kernel.setProc_other same]
      rfl

theorem Kernel.aside_setProc (h : q ≠ p) : Aside s (s.setProc p new) q :=
  ⟨Kernel.setProc_other h, rfl, rfl, rfl, fun _ => id, rfl, rfl, rfl, rfl, rfl, id, rfl, rfl⟩

/-- A process writes its own state and channel. -/
theorem ownWrite_wp {a : KAct M} {Q : a.Resp → View M → Prop} {j : Info (.proc p)} {f : Proc M → Proc M}
    (answer : a.Resp) (inside : v.inside = true) (held : v.held (.proc p) = some j)
    (before : j.1.state.alive = true) (after : (f j.1).state.alive = true)
    (stopped : (f j.1).state = j.1.state ∨ (f j.1).state ≠ .running)
    (asleep : (f j.1).state = .sleeping → ∃ chan, (f j.1).chan = some chan ∧ j.2 = some chan)
    (killed : (f j.1).killed = j.1.killed) (pid : (f j.1).pid = j.1.pid)
    (wary : ∀ chan, A.wary chan → (f j.1).state = .sleeping → (f j.1).chan = some chan → j.1.killed = false)
    (act : ∀ (s : Kernel M) c choice, s.act (.proc p) c choice a = .ok answer (s.setProc p (f (s.proc p))))
    (owed : ∀ s, Owed A s (.proc p) a)
    (post : j.1.chan = v.mine.chan →
      Q answer { v.set (.proc p) (f j.1, j.2) with mine := { v.mine with chan := (f j.1).chan } }) :
    wp (kernelMachine M) (kOutline A) (.proc p) a.run Q v := by
  refine kStep_wp inside fun s c choice inv view seat => ⟨owed s, fun _ => ?_⟩
  subst view
  obtain ⟨holds, rfl⟩ := Kernel.held_some seat held
  rw [act]
  have kept : Kept s (s.setProc p (f (s.proc p))) := Kernel.kept_setProc
  refine After.write inv seat kept ?_ ?_ (fun q => ?_) inv.sound ?_
  · intro other _ l notMine
    exact Kernel.setProc_info fun same => notMine (same ▸ holds)
  · exact fun other different => Kernel.setProc_mine fun same => absurd same different
  · by_cases same : q = p
    · subst same
      have slot := inv.slot q
      have self : (s.setProc q (f (s.proc q))).proc q = f (s.proc q) := Kernel.setProc_self
      refine {
        toPlace := Place.write inv seat kept holds ?_
        toRest := ⟨?_, slot.bed, ?_⟩
        toKin := slot.toKin.alive kept before (by rw [self]; exact after) rfl rfl rfl rfl rfl rfl
        toRecorded := slot.toRecorded.alive before (by rw [self]; exact after) rfl rfl (by rw [self]; exact pid)
          (by rw [self, show (f (s.proc q)).killed = (s.proc q).killed from killed]; exact id)
        toMarks := ⟨?_, ?_, ?_⟩ }
      · rw [self]
        exact stopped.imp_right fun ne => ⟨ne, .inl rfl⟩
      · rw [self]
        intro sleeping
        obtain ⟨chan, eq, doze⟩ := asleep sleeping
        have doze : s.dozing q = some chan := by simpa [Kernel.info] using doze
        exact ⟨chan, eq, doze⟩
      · rw [self]
        intro dead
        rw [show (f (s.proc q)).state.alive = true from after] at dead
        cases dead
      · rw [self]
        intro unused
        have : (f (s.proc q)).state.alive = true := after
        rw [unused] at this
        cases this
      · rw [self, show (f (s.proc q)).killed = (s.proc q).killed from killed]
        intro tidy
        refine ⟨fun unused => ?_, (slot.tidy tidy).2⟩
        have : (f (s.proc q)).state.alive = true := after
        rw [unused] at this
        cases this
      · rw [self, show (f (s.proc q)).killed = (s.proc q).killed from killed]
        exact fun chan careful => ⟨(slot.wary chan careful).1, wary chan careful⟩
    · exact (inv.slot q).aside kept (Kernel.aside_setProc same) fun _ _ => id
  · rw [kept.view_set seat holds fun l' different _ => Kernel.setProc_info different]
    have info : (s.setProc p (f (s.proc p))).info (.proc p) (.proc p) =
        (f (s.info (.proc p) (.proc p)).1, (s.info (.proc p) (.proc p)).2) := by
      simp only [Kernel.info, Kernel.setProc_self]
      rfl
    have mine : (s.setProc p (f (s.proc p))).mine (.proc p) =
        { (s.view (.proc p)).mine with chan := (f (s.info (.proc p) (.proc p)).1).chan } := by
      simp only [Kernel.mine, Kernel.setProc_self]
      rfl
    rw [info, mine]
    exact post rfl

theorem setSleeping_wp {Q : Unit → View M → Prop} {j : Info (.proc p)} {chan : Chan M}
    (inside : v.inside = true)
    (held : v.held (.proc p) = some j) (running : j.1.state = .running) (doze : j.2 = some chan)
    (wary : A.wary chan → j.1.killed = false)
    (post : Q () { v.set (.proc p) ({ j.1 with chan := some chan, state := .sleeping }, j.2) with
      mine := { v.mine with chan := some chan } }) :
    wp (kernelMachine M) (kOutline A) (.proc p) (KAct.setSleeping p chan).run Q v :=
  ownWrite_wp (f := fun old => { old with chan := some chan, state := .sleeping }) () inside held
    (by rw [running]; rfl) rfl (.inr fun eq => (by cases eq)) (fun _ => ⟨chan, rfl, doze⟩) rfl rfl
    (fun chan' careful _ same => by cases same; exact wary careful) (fun _ _ _ => rfl)
    (fun _ => trivial) fun _ => post

theorem clearChan_wp {Q : Unit → View M → Prop} {j : Info (.proc p)} (inside : v.inside = true)
    (held : v.held (.proc p) = some j) (running : j.1.state = .running)
    (post : Q () { v.set (.proc p) ({ j.1 with chan := none }, j.2) with
      mine := { v.mine with chan := none } }) :
    wp (kernelMachine M) (kOutline A) (.proc p) (KAct.clearChan p).run Q v :=
  ownWrite_wp (f := fun old => { old with chan := none }) () inside held (by rw [running]; rfl)
    (by simp only [running]; rfl) (.inl rfl) (fun sleeping => by simp [running] at sleeping) rfl rfl
    (fun _ _ sleeping => by simp [running] at sleeping) (fun _ _ _ => rfl) (fun _ => trivial) fun _ => post

theorem setYield_wp {Q : Unit → View M → Prop} {j : Info (.proc p)} (inside : v.inside = true)
    (held : v.held (.proc p) = some j) (running : j.1.state = .running)
    (post : Q () (v.set (.proc p) ({ j.1 with state := .runnable }, j.2))) :
    wp (kernelMachine M) (kOutline A) (.proc p) (KAct.setYield p).run Q v :=
  ownWrite_wp (f := fun old => { old with state := .runnable }) () inside held (by rw [running]; rfl)
    rfl (.inr fun eq => (by cases eq)) (fun sleeping => (by cases sleeping)) rfl rfl
      (fun _ _ sleeping => (by cases sleeping))
    (fun _ _ _ => rfl) (fun _ => trivial) fun same => by
      have mine : ({ v.mine with chan := j.1.chan } : Mine M) = v.mine := by rw [same]
      show Q () { v.set (.proc p) ({ j.1 with state := .runnable }, j.2) with
        mine := { v.mine with chan := j.1.chan } }
      rw [mine]
      exact post

end Process

/-- A step that changes nothing. -/
theorem look_wp {a : KAct M} {Q : a.Resp → View M → Prop} (inside : v.inside = true)
    (look : ∀ s c choice, KInv A s → s.view t = v → s.seat t = some c → Owed A s t a ∧
      ∃ answer, s.act t c choice a = .ok answer s ∧ Q answer v) :
    wp (kernelMachine M) (kOutline A) t a.run Q v := by
  refine kStep_wp inside fun s c choice inv view seat => ?_
  obtain ⟨owed, answer, eq, post⟩ := look s c choice inv view seat
  refine ⟨owed, fun _ => ?_⟩
  rw [eq]
  refine ⟨inv, fun _ _ => rfl, ?_⟩
  show Q answer (s.view t)
  rw [view]
  exact post

theorem choose_wp {Q : Nat → View M → Prop} (inside : v.inside = true) (post : ∀ n, Q n v) :
    wp (kernelMachine M) (kOutline A) t (KAct.run .choose) Q v :=
  look_wp inside fun _ _ choice _ _ _ => ⟨trivial, choice, rfl, post choice⟩

theorem stuck_wp {Q : Empty → View M → Prop} (inside : v.inside = true) :
    wp (kernelMachine M) (kOutline A) t (KAct.run .stuck) Q v :=
  kStep_wp inside fun _ _ _ _ _ _ => ⟨trivial, fun _ => trivial⟩

theorem isUnused_wp {Q : Bool → View M → Prop} {j : Info (.proc q)} (inside : v.inside = true)
    (held : v.held (.proc q) = some j) (post : Q (decide (j.1.state = .unused)) v) :
    wp (kernelMachine M) (kOutline A) t (KAct.isUnused q).run Q v := by
  refine look_wp inside fun s c _ _ view seat => ⟨trivial, _, rfl, ?_⟩
  subst view
  obtain ⟨_, rfl⟩ := Kernel.held_some seat held
  exact post

theorem getPid_wp {Q : Int → View M → Prop} {j : Info (.proc q)} (inside : v.inside = true)
    (held : v.held (.proc q) = some j) (post : Q j.1.pid v) :
    wp (kernelMachine M) (kOutline A) t (KAct.getPid q).run Q v := by
  refine look_wp inside fun s c _ _ view seat => ⟨trivial, _, rfl, ?_⟩
  subst view
  obtain ⟨_, rfl⟩ := Kernel.held_some seat held
  exact post

theorem getParent_wp {Q : Option ProcId → View M → Prop} {f : Family} (inside : v.inside = true)
    (held : v.held .wait = some f) (post : Q (f.parent q) v) :
    wp (kernelMachine M) (kOutline A) t (KAct.getParent q).run Q v := by
  refine look_wp inside fun s c _ _ view seat => ⟨trivial, _, rfl, ?_⟩
  subst view
  obtain ⟨_, rfl⟩ := Kernel.held_some (l := Lock.wait) seat held
  exact post

/-- A process is found a zombie exactly when its exit has not been taken note of. -/
theorem zombieChild_wp {Q : Option (Int × Int) → View M → Prop} {j : Info (.proc q)} {f : Family}
    (inside : v.inside = true) (held : v.held (.proc q) = some j) (wait : v.held .wait = some f)
    (post : unreaped f.history q = (if j.1.state = .zombie then some (j.1.pid, j.1.xstate) else none) →
      Q (unreaped f.history q) v) :
    wp (kernelMachine M) (kOutline A) t (KAct.zombieChild q).run Q v := by
  refine look_wp inside fun s c _ inv view seat => ⟨trivial, _, rfl, ?_⟩
  subst view
  obtain ⟨_, rfl⟩ := Kernel.held_some seat held
  obtain ⟨_, rfl⟩ := Kernel.held_some (l := Lock.wait) seat wait
  have ended := (inv.slot q).ended
  have := post ended
  rwa [show unreaped (s.info t .wait).history q = _ from ended] at this

theorem read_wp {m : M.Lock} {Q : M.Data m → View M → Prop} {i : Info (.mon m)} (inside : v.inside = true)
    (held : v.held (.mon m) = some i) (awake : v.mine.chan = none) (post : Q i.1 v) :
    wp (kernelMachine M) (kOutline A) t (KAct.read m).run Q v := by
  refine look_wp inside fun s c _ inv view seat => ⟨?_, _, rfl, ?_⟩
  · subst view
    obtain ⟨holds, _⟩ := Kernel.held_some (l := .mon m) seat held
    cases t with
    | cpu c' => trivial
    | proc p =>
      have runs := (Kernel.seat_proc seat).2
      exact ⟨by rw [runs]; simp, by rw [runs, holds], awake⟩
  · subst view
    obtain ⟨_, rfl⟩ := Kernel.held_some (l := .mon m) seat held
    exact post

end Xv6
