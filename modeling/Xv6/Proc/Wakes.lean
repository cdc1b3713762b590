import Xv6.Proc.Writes

namespace Xv6
open Threads Function

variable {M : Monitors} {A : Terms M} {s s' : Kernel M} {t other : Tid} {c : Cpu} {v : View M} {p q : ProcId}

/-- What a lock's holder knows once a process has been woken on a channel of it. -/
def Info.wake : {l : Lock M} → Info l → Chan M → ProcId → Info l
  | .proc _, i, _, _ => i
  | .wait, f, chan, q => { f with dozer := fun r => f.dozer r && !decide (r = q ∧ chan = .proc r) }
  | .mon m, i, chan, q => (i.1, fun x r => i.2 x r && !decide (r = q ∧ chan = .mon m x))

theorem Kernel.wakeProc_dozing_other {chan : Chan M} {r : ProcId} (different : r ≠ q) :
    (s.wakeProc q chan).dozing r = s.dozing r := by
  unfold Kernel.wakeProc
  dsimp only
  split
  next => exact update_of_ne different ..
  next => rfl

theorem Kernel.wakeProc_dozing {chan old : Chan M} {r : ProcId} : (s.wakeProc q chan).dozing r = some old ↔
    s.dozing r = some old ∧ ¬(r = q ∧ chan = old) := by
  by_cases same : r = q
  · subst same
    unfold Kernel.wakeProc
    by_cases asleep : s.dozing r = some chan
    · simp [asleep]
    · simp only [if_neg asleep, true_and]
      constructor
      · intro eq
        exact ⟨eq, fun same => asleep (same ▸ eq)⟩
      · exact And.left
  · rw [Kernel.wakeProc_dozing_other same]
    simp [same]

theorem Kernel.wakeProc_proc {chan : Chan M} (different : p ≠ q) : (s.wakeProc q chan).proc p = s.proc p := by
  unfold Kernel.wakeProc
  dsimp only
  split
  next => exact update_of_ne different ..
  next => rfl

theorem Kernel.wakeProc_cases (chan : Chan M) :
    ((s.proc q).state = .sleeping ∧ (s.proc q).chan = some chan ∧
      (s.wakeProc q chan).proc q = { s.proc q with state := .runnable }) ∨
    (¬((s.proc q).state = .sleeping ∧ (s.proc q).chan = some chan) ∧
      (s.wakeProc q chan).proc q = s.proc q) := by
  unfold Kernel.wakeProc
  by_cases asleep : (s.proc q).state = .sleeping ∧ (s.proc q).chan = some chan
  · exact .inl ⟨asleep.1, asleep.2, by simp only [if_pos asleep]; exact update_self ..⟩
  · exact .inr ⟨asleep, by simp only [if_neg asleep]⟩

theorem Slot.wake {chan : Chan M} (inv : KInv A s) (seat : s.seat t = some c)
    (holds : s.holder (.proc q) = some c) :
    Slot A (s.wakeProc q chan) q := by
  have slot := inv.slot q
  have kept : Kept s (s.wakeProc q chan) := ⟨rfl, rfl, rfl, rfl, rfl⟩
  have bed : ∀ old, (s.wakeProc q chan).dozing q = some old → s.bed q = some old.lock :=
    fun old asleep => slot.bed old (Kernel.wakeProc_dozing.mp asleep).1
  rcases Kernel.wakeProc_cases (s := s) (q := q) chan with ⟨sleeping, onChan, woken⟩ | ⟨not, same⟩
  · have stopped : (s.proc q).state ≠ .running := by rw [sleeping]; decide
    refine ⟨Place.write inv seat kept holds
      (.inr ⟨by rw [woken]; exact fun eq => (by cases eq), .inr stopped⟩), ⟨?_, bed, ?_⟩,
      slot.toKin.alive kept (by rw [sleeping]; rfl) (by rw [woken]; rfl) rfl rfl rfl rfl rfl rfl,
      slot.toRecorded.alive (by rw [sleeping]; rfl) (by rw [woken]; rfl) rfl rfl (by rw [woken])
      (by rw [woken]; exact id),
      ⟨?_, ?_, ?_⟩⟩
    · rw [woken]; exact fun eq => (by cases eq)
    · rw [woken]; exact fun eq => (by cases eq)
    · rw [woken]; exact fun eq => (by cases eq)
    · rw [woken]; exact fun tidy => ⟨fun eq => (by cases eq), (slot.tidy tidy).2⟩
    · rw [woken]; exact fun chan wary => ⟨(slot.wary chan wary).1, fun eq => (by cases eq)⟩
  · refine ⟨Place.write inv seat kept holds (.inl (by rw [same])), ⟨?_, bed, ?_⟩,
      ⟨?_, ?_, ?_, ?_, ?_, slot.created, slot.leaving, ?_⟩,
      slot.toRecorded.keep rfl rfl (by rw [same]) (by rw [same]; exact id) (by rw [same]; exact id)
      (by rw [same]; exact id),
      ⟨?_, ?_, ?_⟩⟩
    · rw [same]
      intro sleeping
      obtain ⟨old, eq, asleep⟩ := slot.asleep sleeping
      refine ⟨old, eq, Kernel.wakeProc_dozing.mpr ⟨asleep, ?_⟩⟩
      rintro ⟨_, rfl⟩
      exact not ⟨sleeping, eq⟩
    · rw [same]; exact slot.still
    · rw [same]; exact slot.noParent
    · rw [same]; exact slot.orphan
    · rw [same]; exact slot.used
    · rw [same]; exact slot.children
    · rw [same]; exact slot.ended
    · rw [same]; exact slot.init
    · rw [same]; exact slot.noPid
    · rw [same]; exact slot.tidy
    · rw [same]; exact slot.wary

theorem wakeProc_wp {Q : Unit → View M → Prop} {chan : Chan M} {i : Info chan.lock} {j : Info (.proc q)}
    (inside : v.inside = true) (held : v.held (.proc q) = some j) (under : v.held chan.lock = some i)
    (post : ∀ j', Q () ((v.set (.proc q) j').set chan.lock (i.wake chan q))) :
    wp (kernelMachine M) (kOutline A) t (KAct.wakeProc q chan).run Q v := by
  refine kStep_wp inside fun s c _ inv view seat => ⟨trivial, fun _ => ?_⟩
  subst view
  obtain ⟨holds, rfl⟩ := Kernel.held_some seat held
  obtain ⟨holdsUnder, rfl⟩ := Kernel.held_some seat under
  have kept : Kept s (s.wakeProc q chan) := ⟨rfl, rfl, rfl, rfl, rfl⟩
  -- Only the sleepers on the channel itself are seen otherwise.
  have elsewhere : ∀ r old, old.lock ≠ chan.lock →
      ((s.wakeProc q chan).dozing r = some old ↔ s.dozing r = some old) := by
    intro r old different
    rw [Kernel.wakeProc_dozing]
    exact ⟨And.left, fun asleep => ⟨asleep, fun both => different (both.2 ▸ rfl)⟩⟩
  have info : ∀ other l, l ≠ .proc q → l ≠ chan.lock →
      (s.wakeProc q chan).info other l = s.info other l := by
    intro other l notProc notChan
    cases l with
    | proc r =>
      have different : r ≠ q := fun same => notProc (same ▸ rfl)
      simp only [Kernel.info, Kernel.wakeProc_proc different, Kernel.wakeProc_dozing_other different]
    | wait => exact congrArg (Family.mk _ _) (funext fun r => decide_eq_decide.mpr (elsewhere r _ notChan))
    | mon m =>
      exact congrArg (Prod.mk _)
        (funext fun x => funext fun r => decide_eq_decide.mpr (elsewhere r (.mon m x) notChan))
  have mine : ∀ other, (s.wakeProc q chan).mine other = s.mine other := by
    intro other
    cases other with
    | cpu c' => rfl
    | proc r =>
      have eq : ((s.wakeProc q chan).proc r).chan = (s.proc r).chan := by
        by_cases same : r = q
        · subst same
          rcases Kernel.wakeProc_cases (s := s) (q := r) chan with ⟨_, _, woken⟩ | ⟨_, same⟩
          · rw [woken]
          · rw [same]
        · rw [Kernel.wakeProc_proc same]
      simp only [Kernel.mine, eq]
      rfl
  refine After.write inv seat kept ?_ (fun other _ => mine other) (fun r => ?_) inv.sound ?_
  · intro other _ l notMine
    exact info other l (fun same => notMine (same ▸ holds)) fun same => notMine (same ▸ holdsUnder)
  · by_cases same : r = q
    · subst same
      exact Slot.wake inv seat holds
    · exact (inv.slot r).aside kept ⟨Kernel.wakeProc_proc same, Kernel.wakeProc_dozing_other same, rfl, rfl,
        fun _ => id, rfl, rfl, rfl, rfl, rfl, id, rfl, rfl⟩ fun _ _ => id
  · rw [kept.view_set₂ seat holds holdsUnder fun l notProc notChan _ => info t l notProc notChan, mine]
    have eq : (s.wakeProc q chan).info t chan.lock = (s.info t chan.lock).wake chan q := by
      cases chan with
      | proc x =>
        refine congrArg (Family.mk _ _) (funext fun r => ?_)
        rw [Bool.eq_iff_iff]
        simp only [decide_eq_true_eq, Kernel.wakeProc_dozing, Bool.and_eq_true, Bool.not_eq_true',
          decide_eq_false_iff_not]
        exact and_congr_left' decide_eq_true_iff.symm
      | mon m x =>
        refine congrArg (Prod.mk _) (funext fun y => funext fun r => ?_)
        rw [Bool.eq_iff_iff]
        simp only [decide_eq_true_eq, Kernel.wakeProc_dozing, Bool.and_eq_true, Bool.not_eq_true',
          decide_eq_false_iff_not]
        exact and_congr_left' decide_eq_true_iff.symm
    rw [eq]
    exact post _

/-- A process that `kill` has found: it does not sleep any more. -/
def Proc.kill (old : Proc M) : Proc M :=
  { old with killed := true, state := if old.state = .sleeping then .runnable else old.state }

theorem Proc.kill_state (old : Proc M) : (old.state = .sleeping ∧ old.kill.state = .runnable) ∨
    (old.state ≠ .sleeping ∧ old.kill.state = old.state) := by
  unfold Proc.kill
  by_cases asleep : old.state = .sleeping
  · exact .inl ⟨asleep, by simp [asleep]⟩
  · exact .inr ⟨asleep, by simp [asleep]⟩

theorem killProc_wp {Q : Bool → View M → Prop} {pid : Int} {j : Info (.proc q)} (inside : v.inside = true)
    (held : v.held (.proc q) = some j) (asks : v.mine.asking = some (.kill pid))
    (yes : ∀ state, (A.tidy → state ≠ .unused) → Q true { v.set (.proc q) (j.1.kill, j.2) with
      mine := { v.mine with notes := { v.mine.notes with found := some (pid, state) } } }) (no : Q false v) :
    wp (kernelMachine M) (kOutline A) (.proc p) (KAct.killProc q pid).run Q v := by
  refine kStep_wp inside fun s c _ inv view seat => ⟨trivial, fun allowed => ?_⟩
  subst view
  obtain ⟨holds, rfl⟩ := Kernel.held_some seat held
  simp only [Kernel.act]
  split
  next found =>
    set s' := s.killProc (.proc p) q with hs'
    have kept : Kept s s' := ⟨rfl, rfl, rfl, rfl, rfl⟩
    have self : s'.proc q = (s.proc q).kill := update_self ..
    have proc' : ∀ r, r ≠ q → s'.proc r = s.proc r := fun r different => update_of_ne different ..
    have live : A.tidy → (s.proc q).state ≠ .unused := fun tidy unused =>
      A.tidy_spec tidy allowed unused (found ▸ (inv.slot q).noPid unused)
    have caught : ∀ r, (s'.notes r).caught = (s.notes r).caught := by
      intro r
      show (update s.notes p { s.notes p with found := _ } r).caught = _
      by_cases same : r = p
      · rw [same, update_self]
      · rw [update_of_ne same]
    have hit : (s.proc q).state ≠ .unused → targeted s.calls q = true := fun live =>
      targeted_kill asks (found ▸ (inv.slot q).known live)
    have info : ∀ other l, l ≠ .proc q → s'.info other l = s.info other l := by
      intro other l different
      cases l with
      | proc r =>
        have apart : r ≠ q := fun same => different (same ▸ rfl)
        simp only [Kernel.info, proc' r apart]
        rfl
      | wait => rfl
      | mon m => rfl
    have chan : ∀ r, (s'.proc r).chan = (s.proc r).chan := by
      intro r
      by_cases same : r = q
      · subst same; rw [self]; rfl
      · rw [proc' r same]
    refine After.write inv seat kept ?_ ?_ (fun r => ?_) inv.sound ?_
    · exact fun other _ l notMine => info other l fun same => notMine (same ▸ holds)
    · intro other different
      cases other with
      | cpu c' => rfl
      | proc r =>
        have apart : r ≠ p := fun same => different (same ▸ rfl)
        have notes : s'.notes r = s.notes r := update_of_ne apart ..
        simp only [Kernel.mine, chan, notes]
        rfl
    · by_cases same : r = q
      · subst same
        have slot := inv.slot r
        have marks : Marks A s' r := by
          constructor
          · rw [self]
            rcases (s.proc r).kill_state with ⟨_, woken⟩ | ⟨_, same⟩
            · rw [woken]; exact fun eq => (by cases eq)
            · rw [same]; exact slot.noPid
          · intro tidy
            refine ⟨fun unused => ?_, fun _ => hit (live tidy)⟩
            rw [self] at unused
            rcases (s.proc r).kill_state with ⟨_, woken⟩ | ⟨_, same⟩
            · rw [woken] at unused; cases unused
            · exact absurd (same ▸ unused) (live tidy)
          · intro old wary
            refine ⟨fun window => absurd (show s.window r = some old from window)
              (A.wary_spec wary allowed found), fun sleeping => ?_⟩
            rw [self] at sleeping
            rcases (s.proc r).kill_state with ⟨_, woken⟩ | ⟨awake, same⟩
            · rw [woken] at sleeping; cases sleeping
            · exact absurd (same ▸ sleeping) awake
        have recorded : Recorded s' r := by
          refine ⟨fun live => ?_, fun dead => slot.mute ?_, fun _ _ => by rw [self]; rfl⟩
          · rw [self] at live ⊢
            refine slot.known fun unused => live ?_
            rcases (s.proc r).kill_state with ⟨sleeping, _⟩ | ⟨_, same⟩
            · rw [unused] at sleeping; cases sleeping
            · exact same.trans unused
          · rw [self] at dead
            rcases (s.proc r).kill_state with ⟨_, woken⟩ | ⟨_, same⟩
            · rw [woken] at dead; cases dead
            · rwa [same] at dead
        rcases (s.proc r).kill_state with ⟨sleeping, woken⟩ | ⟨awake, same⟩
        · have stopped : (s.proc r).state ≠ .running := by rw [sleeping]; decide
          refine ⟨Place.write inv seat kept holds (.inr ⟨by rw [self, woken]; decide, .inr stopped⟩),
            ⟨?_, slot.bed, ?_⟩, slot.toKin.alive kept (by rw [sleeping]; rfl) (by rw [self, woken]; rfl)
              rfl rfl rfl rfl rfl rfl, recorded, marks⟩
          · rw [self, woken]; exact fun eq => (by cases eq)
          · rw [self, woken]; exact fun eq => (by cases eq)
        · refine ⟨Place.write inv seat kept holds (.inl (by rw [self, same])), ⟨?_, slot.bed, ?_⟩,
            ⟨?_, ?_, ?_, ?_, ?_, slot.created, slot.leaving, ?_⟩, recorded, marks⟩
          · rw [self, same]; exact fun eq => absurd eq awake
          · rw [self, same]; exact slot.still
          · rw [self, same]; exact slot.noParent
          · rw [self, same]; exact slot.orphan
          · rw [self, same]; exact slot.used
          · rw [self, same]; exact slot.children
          · rw [self, same]; exact slot.ended
          · rw [self, same]; exact slot.init
      · exact (inv.slot r).aside kept ⟨proc' r same, rfl, rfl, rfl, fun _ => id, rfl, rfl, rfl, rfl, rfl, id,
          caught r, rfl⟩ fun _ _ => id
    · rw [kept.view_set seat holds fun l different _ => info _ l different]
      have infoEq : s'.info (.proc p) (.proc q) =
          ((s.info (.proc p) (.proc q)).1.kill, (s.info (.proc p) (.proc q)).2) := by
        simp only [Kernel.info, self]
        rfl
      have mineEq : s'.mine (.proc p) =
          { (s.view (.proc p)).mine with notes := { (s.view (.proc p)).mine.notes with
            found := some (pid, (s.proc q).state) } } := by
        have notes : s'.notes p = { s.notes p with found := some ((s.proc q).pid, (s.proc q).state) } :=
          update_self ..
        simp only [Kernel.mine, chan, notes, found]
        rfl
      rw [infoEq, mineEq]
      exact yes _ live
  next =>
    exact ⟨inv, fun _ _ => rfl, no⟩

theorem setKilled_wp {Q : Unit → View M → Prop} {j : Info (.proc p)} (inside : v.inside = true)
    (held : v.held (.proc p) = some j) (running : j.1.state = .running) (window : v.mine.window = none)
    (asks : v.mine.asking = some .setkilled)
    (post : Q () (v.set (.proc p) ({ j.1 with killed := true }, j.2))) :
    wp (kernelMachine M) (kOutline A) (.proc p) (KAct.setKilled p).run Q v := by
  refine kStep_wp inside fun s c _ inv view seat => ⟨trivial, fun _ => ?_⟩
  subst view
  obtain ⟨holds, rfl⟩ := Kernel.held_some seat held
  have running : (s.proc p).state = .running := running
  have window : s.window p = none := window
  simp only [Kernel.act]
  set s' : Kernel M := s.setProc p { s.proc p with killed := true } with hs'
  have kept : Kept s s' := ⟨rfl, rfl, rfl, rfl, rfl⟩
  have self : s'.proc p = { s.proc p with killed := true } := update_self ..
  have hit : targeted s.calls p = true := targeted_setkilled asks
  have info : ∀ other l, l ≠ .proc p → s'.info other l = s.info other l :=
    fun other l different => Kernel.setProc_info different
  have mine : ∀ other, s'.mine other = s.mine other := fun other => Kernel.setProc_mine fun _ => rfl
  refine After.write inv seat kept ?_ (fun other _ => mine other) (fun r => ?_) inv.sound ?_
  · exact fun other _ l notMine => info other l fun same => notMine (same ▸ holds)
  · by_cases same : r = p
    · subst same
      have slot := inv.slot r
      refine ⟨Place.write inv seat kept holds (.inl (by rw [self])), ⟨?_, slot.bed, ?_⟩,
        slot.toKin.alive kept (by rw [running]; rfl) (by rw [self]; simp [running, ProcState.alive])
          rfl rfl rfl rfl rfl rfl,
        slot.toRecorded.alive (by rw [running]; rfl) (by rw [self]; simp [running, ProcState.alive]) rfl rfl
          (by rw [self]) (by rw [self]; exact fun _ => rfl), ⟨?_, ?_, ?_⟩⟩
      · rw [self]; exact slot.asleep
      · rw [self]; exact slot.still
      · rw [self]; exact slot.noPid
      · intro _
        refine ⟨fun unused => ?_, fun _ => hit⟩
        rw [self] at unused
        exact absurd (running.symm.trans unused) (by decide)
      · intro chan _
        have windowEq : s'.window r = none := window
        rw [self, windowEq]
        refine ⟨fun eq => (by cases eq), fun sleeping => ?_⟩
        exact absurd (running.symm.trans sleeping) (by decide)
    · exact (inv.slot r).aside kept (Kernel.aside_setProc same) fun _ _ => id
  · rw [kept.view_set seat holds fun l different _ => info _ l different, mine]
    have infoEq : s'.info (.proc p) (.proc p) =
        ({ (s.info (.proc p) (.proc p)).1 with killed := true }, (s.info (.proc p) (.proc p)).2) := by
      simp only [Kernel.info, self]
      rfl
    rw [infoEq]
    exact post

/-- A process that finds itself killed where it was to sleep in `wait` notes it. -/
def Notes.catch (notes : Notes) (p : ProcId) (next : Option (Chan M)) : Notes :=
  if next = some (.proc p) then { notes with caught := true } else notes

theorem getKilled_wp {Q : Bool → View M → Prop} {next : Option (Chan M)} {unannounced : Bool}
    {j : Info (.proc p)}
    (inside : v.inside = true) (held : v.held (.proc p) = some j)
    (yes : (A.prompt → unannounced = false) → Q true { v with mine := { v.mine with
      notes := v.mine.notes.catch p next } })
    (no : Q false { v with mine := { v.mine with window := next } }) :
    wp (kernelMachine M) (kOutline A) (.proc p) (KAct.getKilled p next unannounced).run Q v := by
  refine kStep_wp inside fun s c choice inv view seat => ⟨trivial, fun allowed => ?_⟩
  subst view
  obtain ⟨holds, rfl⟩ := Kernel.held_some seat held
  simp only [Kernel.act]
  cases killed : (s.proc p).killed with
  | true =>
    rw [if_pos rfl]
    have announced : A.prompt → unannounced = false := by
      intro prompt
      cases unannounced with
      | false => rfl
      | true =>
        have := A.prompt_spec prompt allowed
        rw [killed] at this
        cases this
    have eq : (if next = some (.proc p) then update s.notes p { s.notes p with
        caught := true } else s.notes) =
        update s.notes p ((s.notes p).catch p next) := by
      unfold Notes.catch
      split
      next => rfl
      next => exact (update_eq_self ..).symm
    rw [eq]
    exact After.noted inv seat (fun _ _ => killed) (yes announced)
  | false =>
    rw [if_neg (by simp)]
    set s' : Kernel M := { s with window := update s.window p next } with hs'
    have kept : Kept s s' := ⟨rfl, rfl, rfl, rfl, rfl⟩
    have info : ∀ other l, s'.info other l = s.info other l := by
      intro other l; cases l <;> rfl
    refine After.write inv seat kept (fun other _ l _ => info other l) ?_ (fun r => ?_) inv.sound ?_
    · intro other different
      cases other with
      | cpu c' => rfl
      | proc r =>
        have apart : r ≠ p := fun same => different (same ▸ rfl)
        have windowEq : s'.window r = s.window r := update_of_ne apart ..
        simp only [Kernel.mine, windowEq]
        rfl
    · by_cases same : r = p
      · subst same
        have slot := inv.slot r
        refine { slot with wary := fun chan wary => ⟨fun _ => killed, (slot.wary chan wary).2⟩ }
      · refine (inv.slot r).aside kept ⟨rfl, rfl, rfl, rfl, fun _ => id, rfl, rfl, rfl, rfl, rfl, id, rfl, ?_⟩
          fun _ _ => id
        exact update_of_ne same ..
    · rw [kept.view seat fun l _ => info _ l]
      have mineEq : s'.mine (.proc p) = { (s.view (.proc p)).mine with window := next } := by
        have windowEq : s'.window p = next := update_self ..
        simp only [Kernel.mine, windowEq]
        rfl
      rw [mineEq]
      exact no

end Xv6
