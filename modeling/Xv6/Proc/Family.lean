import Xv6.Proc.Wakes

namespace Xv6
open Threads Function

variable {M : Monitors} {A : Terms M} {s s' : Kernel M} {t other : Tid} {c : Cpu} {v : View M} {p q : ProcId}

theorem copyout_wp {Q : Bool → View M → Prop} {value : Int} (inside : v.inside = true)
    (no : Q false { v with mine := { v.mine with notes := { v.mine.notes with refused := true } } })
    (yes : Q true { v with mine := { v.mine with notes := { v.mine.notes with stored := some value } } }) :
    wp (kernelMachine M) (kOutline A) (.proc p) (KAct.copyout p value).run Q v := by
  refine kStep_wp inside fun s c choice inv view seat => ⟨trivial, fun _ => ?_⟩
  subst view
  simp only [Kernel.act]
  split
  next => exact After.noted inv seat (inv.slot p).caught no
  next => exact After.noted inv seat (inv.slot p).caught yes

/-- A process begins or ends a call. -/
theorem call_wp {a : KAct M} {Q : a.Resp → View M → Prop} {answer : a.Resp}
    {calls : List CallEvent} {notes : Notes}
    (inv : KInv A s) (seat : s.seat (.proc p) = some c) (own : (s.view (.proc p)).held (.proc p) = none)
    (pid : ∀ q, pidOf calls q = pidOf s.calls q) (others : ∀ q, q ≠ p → asking calls q = asking s.calls q)
    (targeted : ∀ q, targeted s.calls q = true → targeted calls q = true)
    (caught : (asking calls p).any Request.waits = true → notes.caught = true → (s.proc p).killed = true)
    (post : Q answer { s.view (.proc p) with mine := { (s.view (.proc p)).mine with
      asking := asking calls p, notes } }) :
    (kOutline A).After (.proc p) a s Q (.ok answer { s with calls, notes := update s.notes p notes }) := by
  obtain ⟨within, runs⟩ := Kernel.seat_proc seat
  have running : (s.proc p).state = .running :=
    (inv.slot p).running within (by rw [runs]; exact Kernel.held_none seat own)
  set s' : Kernel M := { s with calls, notes := update s.notes p notes } with hs'
  have kept : Kept s s' := ⟨rfl, rfl, rfl, rfl, rfl⟩
  have info : ∀ other l, s'.info other l = s.info other l := fun other l => by cases l <;> rfl
  have notes' : ∀ q, q ≠ p → s'.notes q = s.notes q := fun q different => update_of_ne different ..
  refine After.write inv seat kept (fun other _ l _ => info other l) ?_ (fun q => ?_) inv.sound ?_
  · intro other different
    cases other with
    | cpu c' => rfl
    | proc q =>
      have apart : q ≠ p := fun same => different (same ▸ rfl)
      simp only [Kernel.mine, hs', update_of_ne apart, others q apart]
  · by_cases same : q = p
    · subst same
      have slot := inv.slot q
      refine { slot with
        known := fun live => (pid q).trans (slot.known live)
        mute := fun dead => ?_
        caught := ?_
        tidy := fun tidy => ⟨(slot.tidy tidy).1, fun killed => targeted q ((slot.tidy tidy).2 killed)⟩ }
      · have dead : (s.proc q).state.alive = false := dead
        rw [running] at dead
        cases dead
      · show (asking calls q).any Request.waits = true → (update s.notes q notes q).caught = true → _
        rw [update_self]
        exact caught
    · exact (inv.slot q).aside kept ⟨rfl, rfl, rfl, rfl, fun _ => id, rfl, rfl, rfl, pid q,
        others q same, targeted q,
        by rw [notes' q same], rfl⟩ fun _ _ => id
  · rw [kept.view seat fun l _ => info _ l]
    have mineEq : s'.mine (.proc p) = { (s.view (.proc p)).mine with asking := asking calls p, notes } := by
      simp only [Kernel.mine, hs', update_self]
      rfl
    rw [mineEq]
    exact post

theorem enter_wp {Q : Unit → View M → Prop} {request : Request} (inside : v.inside = true)
    (own : v.held (.proc p) = none)
    (post : Q () { v with mine := { v.mine with asking := some request, notes := .blank } }) :
    wp (kernelMachine M) (kOutline A) (.proc p) (KAct.enter p request).run Q v := by
  refine kStep_wp inside fun s c choice inv view seat => ⟨trivial, fun _ => ?_⟩
  subst view
  refine call_wp inv seat own (fun _ => rfl) (fun q different => if_neg different) (fun q before => ?_)
    (fun _ caught => (by cases caught)) ?_
  · cases request <;> simp [targeted, before]
  · simp only [asking, if_true]
    exact post

theorem leave_wp {Q : Unit → View M → Prop} {request : Request} {value : Int} (inside : v.inside = true)
    (own : v.held (.proc p) = none)
    (owed : ∀ s : Kernel M, KInv A s → s.view (.proc p) = v → Owed A s (.proc p) (.leave p request value))
    (post : Q () { v with mine := { v.mine with asking := none } }) :
    wp (kernelMachine M) (kOutline A) (.proc p) (KAct.leave p request value).run Q v := by
  refine kStep_wp inside fun s c choice inv view seat => ⟨owed s inv view, fun _ => ?_⟩
  subst view
  have same : ({ s with calls := .done p :: s.calls } : Kernel M) =
      { s with calls := .done p :: s.calls, notes := update s.notes p (s.notes p) } := by rw [update_eq_self]
  simp only [Kernel.act]
  rw [same]
  refine call_wp inv seat own (fun _ => rfl) (fun q different => if_neg different) (fun q before => before)
    (fun waits => ?_) ?_
  · simp [asking] at waits
  · simp only [asking, if_true]
    exact post

/-- What a `wait` answers: the pid of the child it has reaped, or -1 with an excuse. -/
theorem leaveWait_wp {Q : Unit → View M → Prop} {addr : Bool} {value : Int} (inside : v.inside = true)
    (own : v.held (.proc p) = none) (asks : v.mine.asking = some (.wait addr))
    (answer : value = v.mine.notes.taken.getD (-1))
    (excuse : v.mine.notes.taken = none → v.mine.notes.Excuse addr v.mine.notes.caught)
    (post : Q () { v with mine := { v.mine with asking := none } }) :
    wp (kernelMachine M) (kOutline A) (.proc p) (KAct.leave p (.wait addr) value).run Q v := by
  refine leave_wp inside own (fun s inv view => ?_) post
  subst view
  have asks : asking s.calls p = some (.wait addr) := asks
  refine ⟨rfl, answer, fun none => ?_⟩
  rcases excuse none with refused | ⟨zombies, children | caught⟩
  · exact .inl refused
  · exact .inr ⟨zombies, .inl children⟩
  · exact .inr ⟨zombies, .inr ((inv.slot p).caught (by rw [asks]; rfl) caught)⟩

theorem writeData_wp {Q : Unit → View M → Prop} {m : M.Lock} {x : M.Data m} {i : Info (.mon m)}
    (inside : v.inside = true) (held : v.held (.mon m) = some i) (post : Q () (v.set (.mon m) (x, i.2))) :
    wp (kernelMachine M) (kOutline A) t (KAct.write m x).run Q v := by
  refine kStep_wp inside fun s c choice inv view seat => ⟨by cases t <;> trivial, fun _ => ?_⟩
  subst view
  obtain ⟨holds, rfl⟩ := Kernel.held_some (l := .mon m) seat held
  simp only [Kernel.act]
  set s' : Kernel M := { s with data := update s.data m x } with hs'
  have kept : Kept s s' := ⟨rfl, rfl, rfl, rfl, rfl⟩
  have info : ∀ other l, l ≠ .mon m → s'.info other l = s.info other l := by
    intro other l different
    cases l with
    | proc r => rfl
    | wait => rfl
    | mon m' =>
      have apart : m' ≠ m := fun same => different (same ▸ rfl)
      simp only [Kernel.info, hs', update_of_ne apart]
  have mine : ∀ other, s'.mine other = s.mine other := fun other => by cases other <;> rfl
  refine After.write inv seat kept ?_ (fun other _ => mine other) (fun r => ?_) inv.sound ?_
  · exact fun other _ l notMine => info other l fun same => notMine (same ▸ holds)
  · exact (inv.slot r).aside kept ⟨rfl, rfl, rfl, rfl, fun _ => id, rfl, rfl, rfl, rfl, rfl, id,
      rfl, rfl⟩ fun _ _ => id
  · rw [kept.view_set seat holds fun l different _ => info _ l different, mine]
    have infoEq : s'.info t (.mon m) = (x, (s.info t (.mon m)).2) := by
      simp only [Kernel.info, hs', update_self]
    rw [infoEq]
    exact post

section Slots

variable {j : Info (.proc q)} {f : Family}

theorem Kernel.made_none (inv : KInv A s) (notUsed : (s.proc q).state ≠ .used) : s.maker q = none := by
  by_contra made
  exact notUsed ((inv.slot q).used.mpr made)

theorem initProc_wp {Q : Unit → View M → Prop} (inside : v.inside = true) (held : v.held (.proc q) = some j)
    (unused : j.1.state = .unused) (apart : q ≠ p)
    (post : ∀ j' : Info (.proc q), j'.1.state = .used → Q () { v.set (.proc q) j' with
      mine := { v.mine with made := update v.mine.made q (some false) } }) :
    wp (kernelMachine M) (kOutline A) (.proc p) (KAct.initProc q p).run Q v := by
  refine kStep_wp inside fun s c choice inv view seat => ⟨trivial, fun _ => ?_⟩
  subst view
  obtain ⟨holds, rfl⟩ := Kernel.held_some seat held
  have unused : (s.proc q).state = .unused := unused
  have slot := inv.slot q
  have noMaker : s.maker q = none := Kernel.made_none inv (by rw [unused]; decide)
  have noParent := slot.noParent unused
  simp only [Kernel.act]
  set s' := s.initProc q p with hs'
  have kept : Kept s s' := ⟨rfl, rfl, rfl, rfl, rfl⟩
  have self : s'.proc q = { s.proc q with pid := s.nextpid, state := .used } := update_self ..
  have proc' : ∀ r, r ≠ q → s'.proc r = s.proc r := fun r different => update_of_ne different ..
  have maker : s'.maker q = some p := update_self ..
  have maker' : ∀ r, r ≠ q → s'.maker r = s.maker r := fun r different => update_of_ne different ..
  have info : ∀ other l, l ≠ .proc q → s'.info other l = s.info other l := by
    intro other l different
    cases l with
    | proc r =>
      have apart : r ≠ q := fun same => different (same ▸ rfl)
      simp only [Kernel.info, proc' r apart]
      rfl
    | wait => rfl
    | mon m => rfl
  have chan : ∀ r, (s'.proc r).chan = (s.proc r).chan := by
    intro r
    by_cases same : r = q
    · subst same; rw [self]
    · rw [proc' r same]
  -- A process that does not exist is in no call.
  have asks : ∀ r, asking s'.calls r = asking s.calls r := by
    intro r
    show (if r = q then none else asking s.calls r) = _
    split
    next same => rw [same, slot.mute (by rw [unused]; rfl)]
    next => rfl
  refine After.write inv seat kept ?_ ?_ (fun r => ?_) inv.sound ?_
  · exact fun other _ l notMine => info other l fun same => notMine (same ▸ holds)
  · intro other different
    cases other with
    | cpu c' => rfl
    | proc r =>
      have away : p ≠ r := fun same => different (same ▸ rfl)
      have made : (fun x => if s'.maker x = some r then some (s'.parent x).isSome else none) =
          fun x => if s.maker x = some r then some (s.parent x).isSome else none := by
        funext x
        by_cases same : x = q
        · subst same
          rw [maker, noMaker]
          simp [away]
        · rw [maker' x same]
          rfl
      simp only [Kernel.mine, chan, made, asks]
      rfl
  · by_cases same : r = q
    · subst same
      have noChild : ∀ x, s.parent x ≠ some r := by
        intro x child
        have := slot.children x child
        rw [unused] at this
        cases this
      refine ⟨Place.write inv seat kept holds (.inr ⟨by rw [self]; simp, .inr (by rw [unused]; decide)⟩),
        ⟨?_, slot.bed, ?_⟩, ⟨?_, ?_, ?_, ?_, ?_, slot.created, slot.leaving, ?_⟩,
        ⟨?_, fun _ => ?_, ?_⟩, ⟨?_, ?_, ?_⟩⟩
      · rw [self]; exact fun eq => (by cases eq)
      · rw [self]
        exact fun _ => slot.still (by rw [unused]; rfl)
      · exact fun _ => noParent
      · rw [self]
        exact fun _ notUsed => absurd rfl notUsed
      · rw [self, maker]
        simp
      · exact fun x child => absurd child (noChild x)
      · rw [self]
        have := slot.ended
        rw [unused, if_neg (by decide)] at this
        rw [if_neg (by simp)]
        exact this
      · intro first
        have := slot.init first
        rw [unused] at this
        cases this
      · rw [self]; exact fun _ => if_pos rfl
      · exact if_pos rfl
      · rw [asks, slot.mute (by rw [unused]; rfl)]
        exact fun waits => (by cases waits)
      · rw [self]; exact fun eq => (by cases eq)
      · intro tidy
        rw [self]
        refine ⟨fun eq => (by cases eq), fun killed => ?_⟩
        have notKilled := (slot.tidy tidy).1 unused
        exact absurd killed (by simp [notKilled])
      · intro chan wary
        rw [self]
        exact ⟨(slot.wary chan wary).1, fun eq => (by cases eq)⟩
    · refine (inv.slot r).aside kept ⟨proc' r same, rfl, rfl, rfl, fun _ => id, maker' r same,
        rfl, rfl, if_neg same,
        asks r, fun before => ?_, rfl, rfl⟩ fun _ _ => id
      exact (if_neg same).trans before
  · rw [kept.view_set seat holds fun l different _ => info _ l different]
    have mineEq : s'.mine (.proc p) = { (s.view (.proc p)).mine with
        made := update (s.view (.proc p)).mine.made q (some false) } := by
      have made : (fun x => if s'.maker x = some p then some (s'.parent x).isSome else none) =
          update (fun x => if s.maker x = some p then some (s.parent x).isSome else none) q (some false) := by
        funext x
        by_cases same : x = q
        · subst same
          have noParent' : s'.parent x = none := noParent
          rw [maker, update_self, noParent']
          simp
        · rw [maker' x same, update_of_ne same]
          rfl
      simp only [Kernel.mine, chan, made, asks]
      rfl
    rw [mineEq]
    exact post _ (by rw [show (s'.info (.proc p) (.proc q)).1 = s'.proc q from rfl, self])

/-- What the maker of a process knows about it. -/
theorem Kernel.made_some {b : Bool} (inv : KInv A s) (made : (s.view (.proc p)).mine.made q = some b) :
    s.maker q = some p ∧ (s.parent q).isSome = b ∧ (s.proc q).state = .used := by
  have made : (if s.maker q = some p then some (s.parent q).isSome else none) = some b := made
  split at made
  next maker =>
    exact ⟨maker, Option.some.inj made, (inv.slot q).used.mpr (by rw [maker]; simp)⟩
  next => cases made

/-- A slot that is freed. -/
theorem Slot.freed (inv : KInv A s) (seat : s.seat t = some c) (kept : Kept s s')
    (holds : s.holder (.proc q) = some c)
    (dead : (s.proc q).state = .used ∨ (s.proc q).state = .zombie)
    (self : s'.proc q = ⟨.unused, none, false, 0, 0⟩) (dozing : s'.dozing q = s.dozing q)
    (bed : s'.bed q = s.bed q)
    (parent : s'.parent = update s.parent q none) (maker : s'.maker q = none)
    (ended : unreaped s'.history q = none) (leaving : s'.leaving q = s.leaving q)
    (calls : s'.calls = s.calls) :
    Slot A s' q := by
  have slot := inv.slot q
  have notAlive : (s.proc q).state.alive = false := by rcases dead with eq | eq <;> rw [eq] <;> rfl
  have parentNone : s'.parent q = none := by rw [parent, update_self]
  refine ⟨Place.write inv seat kept holds (.inr ⟨by rw [self]; simp, .inr fun eq => ?_⟩),
    ⟨?_, ?_, ?_⟩, ⟨?_, ?_, ?_, ?_, ?_, ?_, ?_, ?_⟩, ⟨?_, fun _ => ?_, ?_⟩, ⟨?_, ?_, ?_⟩⟩
  · rw [eq] at notAlive; cases notAlive
  · rw [self]; exact fun eq => (by cases eq)
  · rw [dozing, bed]; exact slot.bed
  · rw [self]; exact fun _ => rfl
  · exact fun _ => parentNone
  · rw [self]; exact fun notUnused => absurd rfl notUnused
  · rw [self, maker]; simp
  · intro x child
    have child : s.parent x = some q := by
      by_cases same : x = q
      · subst same; rw [parentNone] at child; cases child
      · rwa [parent, update_of_ne same] at child
    rw [slot.children x child] at notAlive
    cases notAlive
  · rw [self, ended]; rfl
  · intro x child
    rw [parentNone] at child
    cases child
  · rw [leaving, kept.runs, kept.holder]; exact slot.leaving
  · intro first
    rw [slot.init first] at notAlive
    cases notAlive
  · rw [self]; exact fun live => absurd rfl live
  · rw [calls]; exact slot.mute notAlive
  · rw [calls, slot.mute notAlive]; exact fun waits => (by cases waits)
  · rw [self]; exact fun _ => rfl
  · rw [self]
    exact fun _ => ⟨fun _ => rfl, fun eq => (by cases eq)⟩
  · rw [self]
    exact fun _ _ => ⟨fun _ => rfl, fun eq => (by cases eq)⟩

theorem freeProc_wp {Q : Unit → View M → Prop} (inside : v.inside = true) (held : v.held (.proc q) = some j)
    (made : v.mine.made q = some false)
    (post : ∀ j', Q () { v.set (.proc q) j' with
        mine := { v.mine with made := update v.mine.made q none } }) :
    wp (kernelMachine M) (kOutline A) (.proc p) (KAct.freeProc q).run Q v := by
  refine kStep_wp inside fun s c choice inv view seat => ⟨trivial, fun _ => ?_⟩
  subst view
  obtain ⟨holds, rfl⟩ := Kernel.held_some seat held
  obtain ⟨maker, noParent, used⟩ := Kernel.made_some inv made
  have noParent : s.parent q = none := by simpa using noParent
  have slot := inv.slot q
  simp only [Kernel.act]
  set s' := s.freeProc q with hs'
  have kept : Kept s s' := ⟨rfl, rfl, rfl, rfl, rfl⟩
  have self : s'.proc q = ⟨.unused, none, false, 0, 0⟩ := update_self ..
  have proc' : ∀ r, r ≠ q → s'.proc r = s.proc r := fun r different => update_of_ne different ..
  have parent' : s'.parent = s.parent := by
    show update s.parent q none = s.parent
    rw [← noParent, update_eq_self]
  have gone : s'.maker q = none := update_self ..
  have maker' : ∀ r, r ≠ q → s'.maker r = s.maker r := fun r different => update_of_ne different ..
  have info : ∀ other l, l ≠ .proc q → s'.info other l = s.info other l := by
    intro other l different
    cases l with
    | proc r =>
      have apart : r ≠ q := fun same => different (same ▸ rfl)
      simp only [Kernel.info, proc' r apart]
      rfl
    | wait => simp only [Kernel.info, parent']; rfl
    | mon m => rfl
  have chan : ∀ r, (s'.proc r).chan = (s.proc r).chan := by
    intro r
    by_cases same : r = q
    · subst same; rw [self, slot.still (by rw [used]; rfl)]
    · rw [proc' r same]
  refine After.write inv seat kept ?_ ?_ (fun r => ?_) inv.sound ?_
  · exact fun other _ l notMine => info other l fun same => notMine (same ▸ holds)
  · intro other different
    cases other with
    | cpu c' => rfl
    | proc r =>
      have away : p ≠ r := fun same => different (same ▸ rfl)
      have made : (fun x => if s'.maker x = some r then some (s'.parent x).isSome else none) =
          fun x => if s.maker x = some r then some (s.parent x).isSome else none := by
        funext x
        by_cases same : x = q
        · subst same
          rw [gone, maker]
          simp [away]
        · rw [maker' x same, parent']
      simp only [Kernel.mine, chan, made]
      rfl
  · by_cases same : r = q
    · subst same
      refine Slot.freed inv seat kept holds (.inl used) self rfl rfl rfl gone ?_ rfl rfl
      have := slot.ended
      rwa [used, if_neg (by decide)] at this
    · refine (inv.slot r).aside kept ⟨proc' r same, rfl, rfl,
        by rw [parent'], ?_, maker' r same, rfl, rfl, rfl, rfl, id,
        rfl, rfl⟩ fun _ _ => id
      rw [parent']
      exact fun _ => id
  · rw [kept.view_set seat holds fun l different _ => info _ l different]
    have mineEq : s'.mine (.proc p) = { (s.view (.proc p)).mine with
        made := update (s.view (.proc p)).mine.made q none } := by
      have made : (fun x => if s'.maker x = some p then some (s'.parent x).isSome else none) =
          update (fun x => if s.maker x = some p then some (s.parent x).isSome else none) q none := by
        funext x
        by_cases same : x = q
        · subst same
          rw [gone, update_self]
          simp
        · rw [maker' x same, update_of_ne same, parent']
      simp only [Kernel.mine, chan, made]
      rfl
    rw [mineEq]
    exact post _

theorem setParent_wp {Q : Unit → View M → Prop} (inside : v.inside = true) (held : v.held .wait = some f)
    (made : v.mine.made q = some false) (own : v.held (.proc p) = none)
    (post : Q () { v.set .wait { f with parent := update f.parent q (some p) } with
      mine := { v.mine with made := update v.mine.made q (some true) } }) :
    wp (kernelMachine M) (kOutline A) (.proc p) (KAct.setParent q p).run Q v := by
  refine kStep_wp inside fun s c choice inv view seat => ⟨trivial, fun _ => ?_⟩
  subst view
  obtain ⟨holds, rfl⟩ := Kernel.held_some (l := .wait) seat held
  obtain ⟨maker, noParent, used⟩ := Kernel.made_some inv made
  have running : (s.proc p).state = .running := by
    obtain ⟨within, at'⟩ := Kernel.seat_proc seat
    exact (inv.slot p).running within (by rw [at']; exact Kernel.held_none seat own)
  have apart : q ≠ p := by
    rintro rfl
    rw [used] at running
    cases running
  simp only [Kernel.act]
  set s' : Kernel M := { s with
    parent := update s.parent q (some p), creator := update s.creator q (p, s.exits p) } with hs'
  have kept : Kept s s' := ⟨rfl, rfl, rfl, rfl, rfl⟩
  have child : s'.parent q = some p := update_self ..
  have parent' : ∀ r, r ≠ q → s'.parent r = s.parent r := fun r different => update_of_ne different ..
  have creator' : ∀ r, r ≠ q → s'.creator r = s.creator r := fun r different => update_of_ne different ..
  have children : ∀ r x, s'.parent x = some r → (s.proc r).state.alive = true := by
    intro r x child'
    by_cases same : x = q
    · subst same
      rw [child] at child'
      cases child'
      rw [running]; rfl
    · rw [parent' x same] at child'
      exact (inv.slot r).children x child'
  have info : ∀ other l, l ≠ .wait → s'.info other l = s.info other l := by
    intro other l different
    cases l with
    | proc r => rfl
    | wait => exact absurd rfl different
    | mon m => rfl
  refine After.write inv seat kept ?_ ?_ (fun r => ?_) inv.sound ?_
  · exact fun other _ l notMine => info other l fun same => notMine (same ▸ holds)
  · intro other different
    cases other with
    | cpu c' => rfl
    | proc r =>
      have away : p ≠ r := fun same => different (same ▸ rfl)
      have made : (fun x => if s.maker x = some r then some (s'.parent x).isSome else none) =
          fun x => if s.maker x = some r then some (s.parent x).isSome else none := by
        funext x
        by_cases same : x = q
        · subst same
          rw [maker]
          simp [away]
        · rw [parent' x same]
      simp only [Kernel.mine]
      rw [← made]
  · have slot := inv.slot r
    by_cases same : r = q
    · subst same
      refine { slot with
        noParent := fun unused => ?_
        orphan := fun _ notUsed => absurd used notUsed
        children := children r
        created := fun x child' => ?_ }
      · have unused : (s.proc r).state = .unused := unused
        rw [used] at unused
        cases unused
      · rw [child] at child'
        cases child'
        left
        show p = (s'.creator r).1 ∧ s.exits p = (s'.creator r).2
        rw [show s'.creator r = (p, s.exits p) from update_self ..]
        exact ⟨rfl, rfl⟩
    · refine { slot with
        noParent := by rw [parent' r same]; exact slot.noParent
        orphan := by rw [parent' r same]; exact slot.orphan
        children := children r
        created := fun x child' => ?_ }
      rw [parent' r same] at child'
      have := slot.created x child'
      unfold Created
      rw [creator' r same]
      exact this
  · rw [kept.view_set seat holds fun l different _ => info _ l different]
    have mineEq : s'.mine (.proc p) = { (s.view (.proc p)).mine with
        made := update (s.view (.proc p)).mine.made q (some true) } := by
      have made : (fun x => if s.maker x = some p then some (s'.parent x).isSome else none) =
          update (fun x => if s.maker x = some p then some (s.parent x).isSome else none) q (some true) := by
        funext x
        by_cases same : x = q
        · subst same
          rw [child, update_self, maker]
          simp
        · rw [parent' x same, update_of_ne same]
      simp only [Kernel.mine]
      rw [made]
      rfl
    rw [mineEq]
    exact post

theorem setRunnable_wp {Q : Unit → View M → Prop} (inside : v.inside = true)
    (held : v.held (.proc q) = some j)
    (made : v.mine.made q = some true)
    (post : ∀ j', Q () { v.set (.proc q) j' with
        mine := { v.mine with made := update v.mine.made q none } }) :
    wp (kernelMachine M) (kOutline A) (.proc p) (KAct.setRunnable q).run Q v := by
  refine kStep_wp inside fun s c choice inv view seat => ⟨trivial, fun _ => ?_⟩
  subst view
  obtain ⟨holds, rfl⟩ := Kernel.held_some seat held
  obtain ⟨maker, hasParent, used⟩ := Kernel.made_some inv made
  have slot := inv.slot q
  simp only [Kernel.act]
  set s' : Kernel M := { s.setProc q { s.proc q with state := .runnable } with
    maker := update s.maker q none } with hs'
  have kept : Kept s s' := ⟨rfl, rfl, rfl, rfl, rfl⟩
  have self : s'.proc q = { s.proc q with state := .runnable } := update_self ..
  have proc' : ∀ r, r ≠ q → s'.proc r = s.proc r := fun r different => update_of_ne different ..
  have gone : s'.maker q = none := update_self ..
  have maker' : ∀ r, r ≠ q → s'.maker r = s.maker r := fun r different => update_of_ne different ..
  have info : ∀ other l, l ≠ .proc q → s'.info other l = s.info other l := by
    intro other l different
    cases l with
    | proc r =>
      have apart : r ≠ q := fun same => different (same ▸ rfl)
      simp only [Kernel.info, proc' r apart]
      rfl
    | wait => rfl
    | mon m => rfl
  have chan : ∀ r, (s'.proc r).chan = (s.proc r).chan := by
    intro r
    by_cases same : r = q
    · subst same; rw [self]
    · rw [proc' r same]
  refine After.write inv seat kept ?_ ?_ (fun r => ?_) inv.sound ?_
  · exact fun other _ l notMine => info other l fun same => notMine (same ▸ holds)
  · intro other different
    cases other with
    | cpu c' => rfl
    | proc r =>
      have away : p ≠ r := fun same => different (same ▸ rfl)
      have made : (fun x => if s'.maker x = some r then some (s.parent x).isSome else none) =
          fun x => if s.maker x = some r then some (s.parent x).isSome else none := by
        funext x
        by_cases same : x = q
        · subst same
          rw [gone, maker]
          simp [away]
        · rw [maker' x same]
      simp only [Kernel.mine, chan]
      rw [← made]
      rfl
  · by_cases same : r = q
    · subst same
      refine ⟨Place.write inv seat kept holds (.inr ⟨by rw [self]; simp, .inr (by rw [used]; decide)⟩),
        ⟨?_, slot.bed, ?_⟩, ⟨?_, ?_, ?_, ?_, ?_, slot.created, slot.leaving, ?_⟩,
        slot.toRecorded.keep rfl rfl (by rw [self]) (by rw [self]; exact id) (fun _ => by rw [used]; decide)
          (fun dead => by rw [self] at dead; cases dead), ⟨?_, ?_, ?_⟩⟩
      · rw [self]; exact fun eq => (by cases eq)
      · rw [self]; exact fun eq => (by cases eq)
      · rw [self]; exact fun eq => (by cases eq)
      · intro _ _ _ none
        rw [show s.parent r = _ from none] at hasParent
        cases hasParent
      · rw [self, gone]; simp
      · rw [self]; exact fun _ _ => rfl
      · have := slot.ended
        rw [used, if_neg (by decide)] at this
        rw [self, if_neg (by simp)]
        exact this
      · rw [self]; exact fun _ => rfl
      · rw [self]; exact fun eq => (by cases eq)
      · rw [self]; exact fun tidy => ⟨fun eq => (by cases eq), (slot.tidy tidy).2⟩
      · rw [self]; exact fun old wary => ⟨(slot.wary old wary).1, fun eq => (by cases eq)⟩
    · exact (inv.slot r).aside kept ⟨proc' r same, rfl, rfl, rfl, fun _ => id, maker' r same, rfl,
        rfl, rfl, rfl, id,
        rfl, rfl⟩ fun _ _ => id
  · rw [kept.view_set seat holds fun l different _ => info _ l different]
    have mineEq : s'.mine (.proc p) = { (s.view (.proc p)).mine with
        made := update (s.view (.proc p)).mine.made q none } := by
      have made : (fun x => if s'.maker x = some p then some (s.parent x).isSome else none) =
          update (fun x => if s.maker x = some p then some (s.parent x).isSome else none) q none := by
        funext x
        by_cases same : x = q
        · subst same
          rw [gone, update_self]
          simp
        · rw [maker' x same, update_of_ne same]
      simp only [Kernel.mine, chan]
      rw [show s'.parent = s.parent from rfl, made]
      rfl
    rw [mineEq]
    exact post _

theorem adopt_wp {Q : Unit → View M → Prop} (inside : v.inside = true) (held : v.held .wait = some f)
    (child : f.parent q = some p) (notInit : p ≠ initproc)
    (post : Q () { v.set .wait { f with parent := update f.parent q (some initproc) } with
      mine := { v.mine with leaving := true } }) :
    wp (kernelMachine M) (kOutline A) (.proc p) (KAct.adopt q p).run Q v := by
  refine kStep_wp inside fun s c choice inv view seat => ⟨trivial, fun _ => ?_⟩
  subst view
  obtain ⟨holds, rfl⟩ := Kernel.held_some (l := .wait) seat held
  have child : s.parent q = some p := child
  obtain ⟨within, runs⟩ := Kernel.seat_proc seat
  simp only [Kernel.act]
  set s' : Kernel M := { s with
    parent := update s.parent q (some initproc), leaving := update s.leaving p true } with hs'
  have kept : Kept s s' := ⟨rfl, rfl, rfl, rfl, rfl⟩
  have given : s'.parent q = some initproc := update_self ..
  have parent' : ∀ r, r ≠ q → s'.parent r = s.parent r := fun r different => update_of_ne different ..
  have leaves : s'.leaving p = true := update_self ..
  have leaving' : ∀ r, r ≠ p → s'.leaving r = s.leaving r := fun r different => update_of_ne different ..
  have isSome : ∀ r, (s'.parent r).isSome = (s.parent r).isSome := by
    intro r
    by_cases same : r = q
    · subst same; rw [given, child]; rfl
    · rw [parent' r same]
  have info : ∀ other l, l ≠ .wait → s'.info other l = s.info other l := by
    intro other l different
    cases l with
    | proc r => rfl
    | wait => exact absurd rfl different
    | mon m => rfl
  refine After.write inv seat kept ?_ ?_ (fun r => ?_) inv.sound ?_
  · exact fun other _ l notMine => info other l fun same => notMine (same ▸ holds)
  · intro other different
    cases other with
    | cpu c' => rfl
    | proc r =>
      have apart : r ≠ p := fun same => different (same ▸ rfl)
      simp only [Kernel.mine, isSome, leaving' r apart]
      rfl
  · have slot := inv.slot r
    refine { slot with
      noParent := fun unused => ?_
      orphan := fun notUnused notUsed notFirst => ?_
      children := fun x child' => ?_
      created := fun x child' => ?_
      leaving := fun leaves' => ?_ }
    · have none := slot.noParent unused
      have different : r ≠ q := by
        rintro rfl
        rw [none] at child
        cases child
      rw [parent' r different, none]
    · by_cases same : r = q
      · rw [same, given]; simp
      · rw [parent' r same]; exact slot.orphan notUnused notUsed notFirst
    · by_cases same : x = q
      · subst same
        rw [given] at child'
        cases child'
        exact slot.init rfl
      · rw [parent' x same] at child'
        exact slot.children x child'
    · have leaving : ∀ y, s.leaving y = true → s'.leaving y = true := by
        intro y old
        by_cases same : y = p
        · rw [same, leaves]
        · rw [leaving' y same, old]
      by_cases same : r = q
      · subst same
        rw [given] at child'
        cases child'
        right
        refine ⟨rfl, .inr ?_⟩
        rcases slot.created p child with ⟨who, number⟩ | ⟨first, _⟩
        · exact ⟨by rw [← number, who], by rw [← who]; exact leaves⟩
        · exact absurd first notInit
      · rw [parent' r same] at child'
        rcases slot.created x child' with own | ⟨first, gone | ⟨number, left⟩⟩
        · exact .inl own
        · exact .inr ⟨first, .inl gone⟩
        · exact .inr ⟨first, .inr ⟨number, leaving _ left⟩⟩
    · by_cases same : r = p
      · subst same
        exact ⟨notInit, by rw [show s'.runs r = some c from runs]; simp,
          by rw [show s'.runs r = some c from runs]; exact holds⟩
      · rw [leaving' r same] at leaves'
        exact slot.leaving leaves'
  · rw [kept.view_set seat holds fun l different _ => info _ l different]
    have mineEq : s'.mine (.proc p) = { (s.view (.proc p)).mine with leaving := true } := by
      simp only [Kernel.mine, isSome, leaves]
      rfl
    rw [mineEq]
    exact post

theorem setZombie_wp {Q : Unit → View M → Prop} {status : Int} {j : Info (.proc p)} (inside : v.inside = true)
    (held : v.held .wait = some f) (own : v.held (.proc p) = some j) (running : j.1.state = .running)
    (chan : v.mine.chan = none) (asks : v.mine.asking = none) (notInit : p ≠ initproc)
    (childless : ∀ q, f.parent q ≠ some p)
    (post : Q () { (v.set (.proc p) ({ j.1 with xstate := status, state := .zombie }, j.2)).set .wait
      { f with history := .exited p j.1.pid status :: f.history } with
      mine := { v.mine with leaving := false } }) :
    wp (kernelMachine M) (kOutline A) (.proc p) (KAct.setZombie p status).run Q v := by
  refine kStep_wp inside fun s c choice inv view seat => ⟨trivial, fun _ => ?_⟩
  subst view
  obtain ⟨holds, rfl⟩ := Kernel.held_some (l := .wait) seat held
  obtain ⟨holdsOwn, rfl⟩ := Kernel.held_some seat own
  have running : (s.proc p).state = .running := running
  have chan : (s.proc p).chan = none := chan
  have asks : asking s.calls p = none := asks
  have childless : ∀ q, s.parent q ≠ some p := childless
  have slot := inv.slot p
  simp only [Kernel.act]
  set s' : Kernel M := { s.setProc p { s.proc p with xstate := status, state := .zombie } with
    exits := update s.exits p (s.exits p + 1)
    leaving := update s.leaving p false
    history := .exited p (s.proc p).pid status :: s.history } with hs'
  have kept : Kept s s' := ⟨rfl, rfl, rfl, rfl, rfl⟩
  have self : s'.proc p = { s.proc p with xstate := status, state := .zombie } := update_self ..
  have proc' : ∀ r, r ≠ p → s'.proc r = s.proc r := fun r different => update_of_ne different ..
  have stays : s'.leaving p = false := update_self ..
  have leaving' : ∀ r, r ≠ p → s'.leaving r = s.leaving r := fun r different => update_of_ne different ..
  have exits' : ∀ r, r ≠ p → s'.exits r = s.exits r := fun r different => update_of_ne different ..
  have exits : s'.exits p = s.exits p + 1 := update_self ..
  have ended := slot.ended
  rw [running, if_neg (by decide)] at ended
  -- Whoever was made by `p` is no longer its child.
  have created : ∀ r x, s.parent r = some x → Created s r x → Created s' r x := by
    rintro r x child (⟨who, number⟩ | ⟨first, gone⟩)
    · have different : x ≠ p := fun same => childless r (same ▸ child)
      exact .inl ⟨who, (exits' x different).trans number⟩
    · refine .inr ⟨first, ?_⟩
      show (s.creator r).2 < s'.exits (s.creator r).1 ∨
        (s.creator r).2 = s'.exits (s.creator r).1 ∧ s'.leaving (s.creator r).1 = true
      by_cases same : (s.creator r).1 = p
      · left
        rw [same, exits]
        rw [same] at gone
        rcases gone with less | ⟨eq, _⟩ <;> omega
      · rw [exits' _ same, leaving' _ same]
        exact gone
  have info : ∀ other l, l ≠ .proc p → l ≠ .wait → s'.info other l = s.info other l := by
    intro other l notProc notWait
    cases l with
    | proc r =>
      have apart : r ≠ p := fun same => notProc (same ▸ rfl)
      simp only [Kernel.info, proc' r apart]
      rfl
    | wait => exact absurd rfl notWait
    | mon m => rfl
  have mine : ∀ r, (s'.proc r).chan = (s.proc r).chan := by
    intro r
    by_cases same : r = p
    · subst same; rw [self]
    · rw [proc' r same]
  refine After.write inv seat kept ?_ ?_ (fun r => ?_) ⟨ended, inv.sound⟩ ?_
  · intro other _ l notMine
    exact info other l (fun same => notMine (same ▸ holdsOwn)) fun same => notMine (same ▸ holds)
  · intro other different
    cases other with
    | cpu c' => rfl
    | proc r =>
      have apart : r ≠ p := fun same => different (same ▸ rfl)
      simp only [Kernel.mine, mine, leaving' r apart]
      rfl
  · by_cases same : r = p
    · subst same
      refine ⟨Place.write inv seat kept holdsOwn (.inr ⟨by rw [self]; simp, .inl rfl⟩),
        ⟨?_, slot.bed, ?_⟩, ⟨?_, ?_, ?_, ?_, ?_, ?_, ?_, ?_⟩, ⟨fun _ => ?_, fun _ => asks,
        fun waits => ?_⟩, ⟨?_, ?_, ?_⟩⟩
      · rw [self]; exact fun eq => (by cases eq)
      · rw [self]; exact fun _ => chan
      · rw [self]; exact fun eq => (by cases eq)
      · intro _ _ notFirst
        exact slot.orphan (by rw [running]; decide) (by rw [running]; decide) notFirst
      · have noMaker : s.maker r = none := Kernel.made_none inv (by rw [running]; decide)
        rw [self, show s'.maker r = none from noMaker]
        simp
      · exact fun x child => absurd child (childless x)
      · rw [self, if_pos rfl]
        exact if_pos rfl
      · exact fun x child => created r x child (slot.created x child)
      · rw [stays]; exact fun eq => (by cases eq)
      · exact fun first => absurd first notInit
      · rw [self]; exact slot.known (by rw [running]; decide)
      · rw [show asking s'.calls r = none from asks] at waits; cases waits
      · rw [self]; exact fun eq => (by cases eq)
      · rw [self]; exact fun tidy => ⟨fun eq => (by cases eq), (slot.tidy tidy).2⟩
      · rw [self]; exact fun old wary => ⟨(slot.wary old wary).1, fun eq => (by cases eq)⟩
    · refine (inv.slot r).aside kept ⟨proc' r same, rfl, rfl, rfl, fun _ => id, rfl,
        if_neg same, leaving' r same,
        rfl, rfl, id, rfl, rfl⟩ fun x child => ?_
      exact created r x child
  · rw [kept.view_set₂ seat holdsOwn holds fun l notProc notWait _ => info _ l notProc notWait]
    have mineEq : s'.mine (.proc p) = { (s.view (.proc p)).mine with leaving := false } := by
      simp only [Kernel.mine, mine, stays]
      rfl
    have infoEq : s'.info (.proc p) (.proc p) = ({ (s.info (.proc p) (.proc p)).1 with
        xstate := status, state := .zombie }, (s.info (.proc p) (.proc p)).2) := by
      simp only [Kernel.info, self]
      rfl
    rw [mineEq, infoEq]
    exact post

theorem reap_wp {Q : Unit → View M → Prop} {addr : Bool} (inside : v.inside = true)
    (held : v.held .wait = some f)
    (child : v.held (.proc q) = some j) (parent : f.parent q = some p) (zombie : j.1.state = .zombie)
    (apart : p ≠ q) (stays : v.mine.leaving = false) (stored : addr = true →
      v.mine.notes.stored = some j.1.xstate)
    (first : v.mine.notes.taken = none)
    (post : ∀ j', Q () { (v.set (.proc q) j').set .wait { f with
      parent := update f.parent q none, history := .reaped q j.1.pid j.1.xstate p :: f.history } with
      mine := { v.mine with notes := { v.mine.notes with taken := some j.1.pid } } }) :
    wp (kernelMachine M) (kOutline A) (.proc p) (KAct.reap q p addr).run Q v := by
  refine kStep_wp inside fun s c choice inv view seat => ?_
  subst view
  obtain ⟨holds, rfl⟩ := Kernel.held_some (l := .wait) seat held
  obtain ⟨holdsChild, rfl⟩ := Kernel.held_some seat child
  obtain ⟨within, runs⟩ := Kernel.seat_proc seat
  have zombie : (s.proc q).state = .zombie := zombie
  have parent : s.parent q = some p := parent
  have slot := inv.slot q
  have idle := (inv.idle seat (by simpa using apart) holdsChild (by rw [zombie]; decide)).1
  refine ⟨⟨rfl, zombie, idle, parent, ?_, stored, first⟩, fun _ => ?_⟩
  · rcases slot.created p parent with own | ⟨first, gone | ⟨_, left⟩⟩
    · exact .inl own
    · exact .inr ⟨first, gone⟩
    · -- Only a holder of `wait_lock` gives away its children, and `initproc` never does.
      obtain ⟨notInit, _, wait⟩ := (inv.slot _).leaving left
      rw [holds] at wait
      exact absurd ((inv.seats.alone wait.symm runs).trans first) notInit
  · simp only [Kernel.act]
    set s' : Kernel M := { s.freeProc q with
      history := .reaped q (s.proc q).pid (s.proc q).xstate p :: s.history
      notes := update s.notes p { s.notes p with taken := some (s.proc q).pid } } with hs'
    have kept : Kept s s' := ⟨rfl, rfl, rfl, rfl, rfl⟩
    have self : s'.proc q = ⟨.unused, none, false, 0, 0⟩ := update_self ..
    have proc' : ∀ r, r ≠ q → s'.proc r = s.proc r := fun r different => update_of_ne different ..
    have parent' : ∀ r, r ≠ q → s'.parent r = s.parent r := fun r different => update_of_ne different ..
    have orphan : s'.parent q = none := update_self ..
    have maker' : s'.maker = s.maker := by
      show update s.maker q none = s.maker
      rw [← Kernel.made_none inv (q := q) (by rw [zombie]; decide), update_eq_self]
    have notes' : ∀ r, r ≠ p → s'.notes r = s.notes r := fun r different => update_of_ne different ..
    have notes : s'.notes p = { s.notes p with taken := some (s.proc q).pid } := update_self ..
    have caught : ∀ r, (s'.notes r).caught = (s.notes r).caught := by
      intro r
      by_cases same : r = p
      · rw [same, notes]
      · rw [notes' r same]
    have ended := slot.ended
    rw [zombie, if_pos rfl] at ended
    have info : ∀ other l, l ≠ .proc q → l ≠ .wait → s'.info other l = s.info other l := by
      intro other l notProc notWait
      cases l with
      | proc r =>
        have apart : r ≠ q := fun same => notProc (same ▸ rfl)
        simp only [Kernel.info, proc' r apart]
        rfl
      | wait => exact absurd rfl notWait
      | mon m => rfl
    have chan : ∀ r, (s'.proc r).chan = (s.proc r).chan := by
      intro r
      by_cases same : r = q
      · subst same; rw [self, slot.still (by rw [zombie]; rfl)]
      · rw [proc' r same]
    have made : ∀ r, (fun x => if s'.maker x = some r then some (s'.parent x).isSome else none) =
        fun x => if s.maker x = some r then some (s.parent x).isSome else none := by
      intro r
      funext x
      by_cases same : x = q
      · subst same
        rw [maker', Kernel.made_none inv (q := x) (by rw [zombie]; decide)]
        simp
      · rw [maker', parent' x same]
    refine After.write inv seat kept ?_ ?_ (fun r => ?_) ⟨ended, inv.sound⟩ ?_
    · intro other _ l notMine
      exact info other l (fun same => notMine (same ▸ holdsChild)) fun same => notMine (same ▸ holds)
    · intro other different
      cases other with
      | cpu c' => rfl
      | proc r =>
        have away : r ≠ p := fun same => different (same ▸ rfl)
        simp only [Kernel.mine, chan, made, notes' r away]
        rfl
    · by_cases same : r = q
      · subst same
        refine Slot.freed inv seat kept holdsChild (.inr zombie) self rfl rfl rfl ?_ (if_pos rfl) rfl rfl
        rw [maker']
        exact Kernel.made_none inv (by rw [zombie]; decide)
      · refine (inv.slot r).aside kept ⟨proc' r same, rfl, rfl, parent' r same, fun x child => ?_,
          by rw [maker'], if_neg same, rfl, rfl, rfl, id, caught r, rfl⟩ fun _ _ => id
        by_cases freed : x = q
        · subst freed
          rw [orphan] at child
          cases child
        · rwa [parent' x freed] at child
    · rw [kept.view_set₂ seat holdsChild holds fun l notProc notWait _ => info _ l notProc notWait]
      have mineEq : s'.mine (.proc p) = { (s.view (.proc p)).mine with notes := {
          (s.view (.proc p)).mine.notes with taken := some (s.proc q).pid } } := by
        simp only [Kernel.mine, chan, made, notes]
        rfl
      rw [mineEq]
      exact post _

end Slots

end Xv6
