import Xv6.Proc.Locks

namespace Xv6
open Threads Function

variable {M : Monitors} {A : Terms M} {s s' : Kernel M} {t other : Tid} {c : Cpu} {v : View M}

namespace View

/-- A flow of control that waits to be switched to. -/
def away (b : Mine M) : View M := ⟨false, 0, fun _ => none, b⟩

/-- A flow of control that holds one lock. -/
def one (l : Lock M) (i : Info l) (b : Mine M) : View M := ⟨true, 1, update (fun _ => none) l (some i), b⟩

@[simp] theorem one_self {l : Lock M} {i : Info l} {b : Mine M} : (one l i b).held l = some i := by
  simp [one]

theorem one_other {l l' : Lock M} {i : Info l} {b : Mine M} (h : l' ≠ l) : (one l i b).held l' = none := by
  simp [one, update_of_ne h]

end View

/-- One lock in the view is the only lock the processor holds. -/
theorem Kernel.view_one {l : Lock M} {j : Info l} {b : Mine M} (seat : s.seat t = some c)
    (view : s.view t = .one l j b) :
    s.noff c = 1 ∧ s.info t l = j ∧ ∀ l', s.holder l' = some c ↔ l' = l := by
  have heldEq : ∀ l', (s.view t).held l' = (View.one l j b).held l' := fun l' => by rw [view]
  obtain ⟨holds, info⟩ : s.holder l = some c ∧ s.info t l = j :=
    Kernel.held_some seat (by rw [heldEq, View.one_self])
  refine ⟨by rw [← Kernel.view_noff seat, view]; rfl, info, fun l' => ⟨fun own => ?_,
    fun same => same ▸ holds⟩⟩
  by_contra different
  have := heldEq l'
  rw [Kernel.view_held seat, if_pos own, View.one_other different] at this
  cases this

/-- Whoever executes under a single lock sees that lock and nothing else. -/
theorem Kernel.view_sole {l : Lock M} (seat : s.seat t = some c) (noff : s.noff c = 1)
    (only : ∀ l', s.holder l' = some c ↔ l' = l) : s.view t = .one l (s.info t l) (s.mine t) := by
  have within : s.inside t = true := by
    cases t with
    | cpu c' => exact (Kernel.seat_cpu seat).1
    | proc p => exact (Kernel.seat_proc seat).1
  refine View.ext within ?_ ?_ rfl
  · rw [Kernel.view_noff seat]
    exact noff
  · funext l'
    rw [Kernel.view_held seat]
    by_cases same : l' = l
    · subst same
      rw [View.one_self]
      exact if_pos ((only _).mpr rfl)
    · rw [View.one_other same]
      exact if_neg fun own => same ((only l').mp own)

/-- Whoever is switched away sees no lock. -/
theorem Kernel.view_away (out : s.inside t = false) : s.view t = .away (s.mine t) := by
  have seat : s.seat t = none := by simp [Kernel.seat, out]
  refine View.ext out ?_ ?_ rfl
  · simp [Kernel.view, seat, View.away]
  · simp [Kernel.view, seat, View.away]

/-- Coming back changes nobody else's view. -/
theorem Kernel.view_enter {fresh : ProcId → Bool} (different : other ≠ t) :
    Kernel.view { s with inside := update s.inside t true, fresh := fresh } other = s.view other := by
  set s' : Kernel M := { s with inside := update s.inside t true, fresh := fresh } with hs'
  have inside' : s'.inside other = s.inside other := update_of_ne different _ _
  have seatEq : s'.seat other = s.seat other := by
    unfold Kernel.seat
    rw [inside']
    rfl
  have infoEq : ∀ l, s'.info other l = s.info other l := fun l => by cases l <;> rfl
  have mineEq : s'.mine other = s.mine other := by cases other <;> rfl
  unfold Kernel.view
  simp only [seatEq, infoEq, mineEq, inside']
  rfl

/-- A processor with nobody inside is not the one that takes the step. -/
theorem Kernel.seat_away (seat : s.seat t = some c) {c' : Cpu} (out : s.inside (.cpu c') = false)
    (alone : ∀ p, s.runs p = some c' → s.inside (.proc p) = false) : c' ≠ c := by
  rintro rfl
  cases t with
  | cpu c₁ =>
    obtain ⟨within, rfl, _⟩ := Kernel.seat_cpu seat
    rw [within] at out
    cases out
  | proc p =>
    obtain ⟨within, at'⟩ := Kernel.seat_proc seat
    rw [alone p at'] at within
    cases within

/-- Nobody executes on the stack of a process that does not run and whose lock is held by another. -/
theorem KInv.idle {p : ProcId} (inv : KInv A s) (seat : s.seat t = some c) (other : t ≠ .proc p)
    (holds : s.holder (.proc p) = some c) (stopped : (s.proc p).state ≠ .running) :
    s.runs p = none ∧ s.inside (.proc p) = false := by
  have idle : s.runs p = none := by
    cases at' : s.runs p with
    | none => rfl
    | some c' =>
      refine absurd ?_ stopped
      cases in' : s.inside (.proc p) with
      | false => exact (inv.slot p).entering in' (by rw [at']; simp)
      | true =>
        refine (inv.slot p).running in' ?_
        rw [holds, at']
        intro same
        cases same
        exact other (inv.seats.apart seat (show s.seat (.proc p) = some _ by simp [Kernel.seat,
          in', Kernel.cpu, at'])).symm
  refine ⟨idle, ?_⟩
  cases in' : s.inside (.proc p) with
  | false => rfl
  | true => exact absurd idle (inv.seats.proc in')

theorem swtch_wp {p : ProcId} {j : Info (.proc p)} {b : Mine M} {Q : Unit → View M → Prop}
    (stopped : j.1.state ≠ .running) (post : Q () (.away b)) :
    wp (kernelMachine M) (kOutline A) (.proc p) (KAct.swtch p).run Q (.one (.proc p) j b) := by
  refine kStep_wp rfl fun s c _ inv view seat => ⟨trivial, fun _ => ?_⟩
  obtain ⟨within, runs⟩ := Kernel.seat_proc seat
  obtain ⟨noff, rfl, only⟩ := Kernel.view_one seat view
  have holds := (only _).mpr rfl
  have stopped : (s.proc p).state ≠ .running := stopped
  simp only [Kernel.act, if_neg (not_not.mpr holds), if_neg (not_not.mpr noff), if_neg stopped]
  set s' : Kernel M := { s with
    runs := update s.runs p none, inside := update s.inside (.proc p) false } with hs'
  have runs' : ∀ q, q ≠ p → s'.runs q = s.runs q := fun q different => update_of_ne different _ _
  have runsOf : ∀ q c', s'.runs q = some c' → q ≠ p ∧ s.runs q = some c' := by
    intro q c' at'
    have different : q ≠ p := by rintro rfl; simp [hs'] at at'
    exact ⟨different, by rwa [runs' q different] at at'⟩
  have inside' : ∀ other, other ≠ .proc p → s'.inside other = s.inside other :=
    fun other different => update_of_ne different _ _
  have insideCpu : ∀ c', s'.inside (.cpu c') = s.inside (.cpu c') := fun c' => inside' _ (by simp)
  have locality : Local (.proc p) c s s' := by
    refine ⟨inside', fun other different => ?_, fun _ _ => rfl, fun _ _ _ => Iff.rfl, ?_, ?_⟩
    · simp only [Kernel.seat, inside' other different]
      cases other with
      | cpu c' =>
        by_cases in' : s.inside (.cpu c') = true
        · rw [if_pos in', if_pos in']
          have free := inv.seats.cpu in'
          simp only [Kernel.cpu]
          rw [if_pos free, if_pos fun q at' => free q (runsOf q c' at').2]
        · rw [if_neg in', if_neg in']
      | proc q =>
        have apart : q ≠ p := fun same => different (same ▸ rfl)
        simp only [Kernel.cpu, runs' q apart]
    · intro _ _ l _ _ _; cases l <;> rfl
    · intro other _; cases other <;> rfl
  refine ⟨⟨⟨?_, ?_, ?_, ?_, ?_⟩, fun q => ?_, fun l none => ?_, inv.sound⟩, locality.guar inv.seats seat, ?_⟩
  · exact fun first second => inv.seats.alone (runsOf _ _ first).2 (runsOf _ _ second).2
  · exact fun at' => inv.seats.cpuProc (runsOf _ _ at').2
  · intro q in'
    have different : q ≠ p := by rintro rfl; simp [hs'] at in'
    rw [runs' q different]
    exact inv.seats.proc (by rwa [inside' _ (by simpa using different)] at in')
  · intro c' in' q at'
    exact inv.seats.cpu (by rwa [insideCpu] at in') q (runsOf q c' at').2
  · intro c' out alone
    by_cases same : c' = c
    · subst same
      exact ⟨noff, p, inv.seats.cpuProc runs, only⟩
    · refine inv.seats.handover (by rwa [insideCpu] at out) fun q at' => ?_
      have different : q ≠ p := by
        rintro rfl
        rw [runs] at at'
        exact same (Option.some.inj at').symm
      rw [← inside' (.proc q) (by simpa using different)]
      exact alone q (by rwa [runs' q different])
  · have slot := inv.slot q
    by_cases same : q = p
    · subst same
      have gone : s'.runs q = none := update_self ..
      have out : s'.inside (.proc q) = false := update_self ..
      refine { slot with
        entering := fun _ at' => absurd gone at'
        running := fun in' => by rw [out] at in'; cases in'
        seated := fun running => absurd running stopped
        left := fun c' at' _ => ?_
        leaving := fun leaves => ?_ }
      · refine ⟨?_, stopped⟩
        by_cases here : c' = c
        · rw [here]; exact holds
        · refine (slot.left c' at' ?_).1
          rw [runs]
          exact fun same => here (Option.some.inj same).symm
      · have wait := (slot.leaving leaves).2.2
        rw [runs] at wait
        cases (only .wait).mp wait
    · have in' := inside' (.proc q) (by simpa using same)
      have at' := runs' q same
      refine { slot with
        entering := by rw [in', at']; exact slot.entering
        running := by rw [in', at']; exact slot.running
        seated := by rw [at']; exact slot.seated
        left := by rw [at']; exact slot.left
        leaving := by rw [at']; exact slot.leaving }
  · exact (inv.free l none).fewer rfl rfl rfl fun _ _ _ asleep => asleep
  · have mine : s'.mine (.proc p) = b := congrArg View.mine view
    show Q () (s'.view (.proc p))
    rw [Kernel.view_away (update_self ..), mine]
    exact post

/-- A process that has been switched to holds its lock and runs. -/
theorem resumeProc_wp {p : ProcId} {b : Mine M} {Q : Unit → View M → Prop}
    (post : ∀ i : Info (.proc p), i.1.state = .running → Q () (.one (.proc p) i b)) :
    wp (kernelMachine M) (kOutline A) (.proc p) (KAct.run .resume) Q (.away b) := by
  refine wp_step fun s _ inv view => ⟨trivial, fun _ => ?_⟩
  have out : s.inside (.proc p) = false := congrArg View.inside view
  have mine : s.mine (.proc p) = b := congrArg View.mine view
  simp only [kernelMachine, Kernel.cpu]
  cases runs : s.runs p with
  | none => trivial
  | some c =>
    have cpuOut : s.inside (.cpu c) = false := by
      cases in' : s.inside (.cpu c) with
      | false => rfl
      | true => exact absurd runs (inv.seats.cpu in' p)
    obtain ⟨noff, p', atProc, only⟩ := inv.seats.handover cpuOut fun q at' => by
      rw [inv.seats.alone at' runs]; exact out
    rw [inv.seats.cpuProc runs] at atProc
    cases atProc
    have holds := (only _).mpr rfl
    have running := (inv.slot p).entering out (by rw [runs]; simp)
    simp only [Kernel.act]
    set s' : Kernel M := { s with
      inside := update s.inside (.proc p) true, fresh := update s.fresh p false } with hs'
    have inside' : ∀ other, other ≠ .proc p → s'.inside other = s.inside other :=
      fun other different => update_of_ne different _ _
    have within : s'.inside (.proc p) = true := update_self ..
    have seat' : s'.seat (.proc p) = some c := by
      unfold Kernel.seat
      rw [if_pos within]
      exact runs
    refine ⟨⟨⟨inv.seats.alone, inv.seats.cpuProc, ?_, ?_, ?_⟩, fun q => ?_, fun l none => ?_,
      inv.sound⟩, ?_, ?_⟩
    · intro q in'
      by_cases same : q = p
      · subst same
        show s.runs q ≠ none
        rw [runs]
        simp
      · exact inv.seats.proc (by rwa [inside' _ (by simpa using same)] at in')
    · intro c' in'
      exact inv.seats.cpu (by rwa [inside' _ (by simp)] at in')
    · intro c' cpuOut' alone
      refine inv.seats.handover (by rwa [inside' _ (by simp)] at cpuOut') fun q at' => ?_
      have quiet := alone q at'
      by_cases same : q = p
      · rw [same]; exact out
      · rwa [inside' _ (by simpa using same)] at quiet
    · have slot := inv.slot q
      by_cases same : q = p
      · subst same
        refine { slot with
          entering := fun in' => by rw [within] at in'; cases in'
          running := fun _ _ => running }
      · have in' := inside' (.proc q) (by simpa using same)
        refine { slot with
          entering := by rw [in']; exact slot.entering
          running := by rw [in']; exact slot.running }
    · exact (inv.free l none).fewer rfl rfl rfl fun _ _ _ asleep => asleep
    · exact fun other different => Kernel.view_enter different
    · have mine' : s'.mine (.proc p) = b := mine
      show Q () (s'.view (.proc p))
      rw [Kernel.view_sole seat' noff only, mine']
      exact post _ running

/-- A scheduler that has been switched back to holds the lock of the process it had picked. -/
theorem resumeCpu_wp {c : Cpu} {p : ProcId} {b : Mine M} {Q : Unit → View M → Prop}
    (picked : b.picked = some p)
    (post : ∀ i : Info (.proc p), Q () (.one (.proc p) i b)) :
    wp (kernelMachine M) (kOutline A) (.cpu c) (KAct.run .resume) Q (.away b) := by
  refine wp_step fun s _ inv view => ⟨trivial, fun _ => ?_⟩
  have out : s.inside (.cpu c) = false := congrArg View.inside view
  have mine : s.mine (.cpu c) = b := congrArg View.mine view
  simp only [kernelMachine, Kernel.cpu]
  by_cases free : ∀ q, s.runs q ≠ some c
  · rw [if_pos free]
    obtain ⟨noff, p', atProc, only⟩ := inv.seats.handover out fun q at' => absurd at' (free q)
    have same : s.cpuProc c = some p := by rw [← picked, ← mine]; rfl
    rw [same] at atProc
    cases atProc
    simp only [Kernel.act]
    set s' : Kernel M := { s with inside := update s.inside (.cpu c) true, fresh := s.fresh } with hs'
    have inside' : ∀ other, other ≠ .cpu c → s'.inside other = s.inside other :=
      fun other different => update_of_ne different _ _
    have within : s'.inside (.cpu c) = true := update_self ..
    have insideProc : ∀ q, s'.inside (.proc q) = s.inside (.proc q) := fun q => inside' _ (by simp)
    have seat' : s'.seat (.cpu c) = some c := by
      unfold Kernel.seat
      rw [if_pos within]
      exact if_pos free
    refine ⟨⟨⟨inv.seats.alone, inv.seats.cpuProc, ?_, ?_, ?_⟩, fun q => ?_, fun l none => ?_,
      inv.sound⟩, ?_, ?_⟩
    · intro q in'
      exact inv.seats.proc (by rwa [insideProc] at in')
    · intro c' in'
      by_cases same : c' = c
      · rw [same]; exact free
      · exact inv.seats.cpu (by rwa [inside' _ (by simpa using same)] at in')
    · intro c' cpuOut alone
      have different : c' ≠ c := by
        rintro rfl
        rw [within] at cpuOut
        cases cpuOut
      refine inv.seats.handover (by rwa [inside' _ (by simpa using different)] at cpuOut) fun q at' => ?_
      rw [← insideProc]
      exact alone q at'
    · have slot := inv.slot q
      refine { slot with
        entering := by rw [insideProc]; exact slot.entering
        running := by rw [insideProc]; exact slot.running }
    · exact (inv.free l none).fewer rfl rfl rfl fun _ _ _ asleep => asleep
    · exact fun other different => Kernel.view_enter different
    · have mine' : s'.mine (.cpu c) = b := mine
      show Q () (s'.view (.cpu c))
      rw [Kernel.view_sole seat' noff only, mine']
      exact post _
  · rw [if_neg free]
    trivial

theorem pick_wp {c : Cpu} {p : ProcId} {j : Info (.proc p)} {b : Mine M} {Q : Bool → View M → Prop}
    (yes : Q true (.away { b with picked := some p })) (no : Q false (.one (.proc p) j b)) :
    wp (kernelMachine M) (kOutline A) (.cpu c) (KAct.pick p).run Q (.one (.proc p) j b) := by
  refine kStep_wp rfl fun s c' _ inv view seat => ?_
  obtain ⟨within, rfl, free⟩ := Kernel.seat_cpu seat
  obtain ⟨noff, rfl, only⟩ := Kernel.view_one seat view
  have holds := (only _).mpr rfl
  refine ⟨fun runnable => (inv.idle seat (by simp) holds (by rw [runnable]; decide)).1, fun _ => ?_⟩
  simp only [Kernel.act]
  split
  next runnable =>
    obtain ⟨idle, out⟩ := inv.idle seat (by simp) holds (by rw [runnable]; decide)
    set s' : Kernel M := { s with
      proc := update s.proc p { s.proc p with state := .running }
      cpuProc := update s.cpuProc c (some p)
      runs := update s.runs p (some c)
      inside := update s.inside (.cpu c) false } with hs'
    have runs' : ∀ q, q ≠ p → s'.runs q = s.runs q := fun q different => update_of_ne different _ _
    have here : s'.runs p = some c := update_self ..
    have runsOf : ∀ q c', s'.runs q = some c' → (q = p ∧ c' = c) ∨ (q ≠ p ∧ c' ≠ c ∧ s.runs q = some c') := by
      intro q c' at'
      by_cases same : q = p
      · subst same
        rw [here] at at'
        exact .inl ⟨rfl, (Option.some.inj at').symm⟩
      · rw [runs' q same] at at'
        exact .inr ⟨same, fun eq => free q (eq ▸ at'), at'⟩
    have inside' : ∀ other, other ≠ .cpu c → s'.inside other = s.inside other :=
      fun other different => update_of_ne different _ _
    have insideProc : ∀ q, s'.inside (.proc q) = s.inside (.proc q) := fun q => inside' _ (by simp)
    have outCpu : s'.inside (.cpu c) = false := update_self ..
    have cpuProc' : ∀ c', c' ≠ c → s'.cpuProc c' = s.cpuProc c' :=
      fun c' different => update_of_ne different _ _
    have proc' : ∀ q, q ≠ p → s'.proc q = s.proc q := fun q different => update_of_ne different _ _
    have running : s'.proc p = { s.proc p with state := .running } := update_self ..
    have locality : Local (.cpu c) c s s' := by
      refine ⟨inside', fun other different => ?_, fun _ _ => rfl, fun _ _ _ => Iff.rfl, ?_, ?_⟩
      · simp only [Kernel.seat, inside' other different]
        cases other with
        | cpu c' =>
          have apart : c' ≠ c := fun same => different (same ▸ rfl)
          by_cases in' : s.inside (.cpu c') = true
          · rw [if_pos in', if_pos in']
            have others := inv.seats.cpu in'
            simp only [Kernel.cpu]
            rw [if_pos others, if_pos]
            intro q at'
            rcases runsOf q c' at' with ⟨_, same⟩ | ⟨_, _, at'⟩
            · exact apart same
            · exact others q at'
          · rw [if_neg in', if_neg in']
        | proc q =>
          by_cases same : q = p
          · subst same
            rw [out]
            rfl
          · simp only [Kernel.cpu, runs' q same]
      · intro other _ l c' apart holds'
        cases l with
        | proc q =>
          have different : q ≠ p := by
            rintro rfl
            rw [holds] at holds'
            exact apart (Option.some.inj holds').symm
          simp only [Kernel.info, proc' q different]
          rfl
        | wait => rfl
        | mon m => rfl
      · intro other different
        cases other with
        | cpu c' =>
          have apart : c' ≠ c := fun same => different (same ▸ rfl)
          simp only [Kernel.mine, cpuProc' c' apart]
        | proc q =>
          have chan : (s'.proc q).chan = (s.proc q).chan := by
            by_cases same : q = p
            · subst same; rw [running]
            · rw [proc' q same]
          simp only [Kernel.mine, chan]
          rfl
    refine ⟨⟨⟨?_, ?_, ?_, ?_, ?_⟩, fun q => ?_, fun l none => ?_, inv.sound⟩,
      locality.guar inv.seats seat, ?_⟩
    · intro q r c' first second
      rcases runsOf _ _ first with ⟨rfl, rfl⟩ | ⟨_, apart, first⟩
      · rcases runsOf _ _ second with ⟨rfl, _⟩ | ⟨_, apart, _⟩
        · rfl
        · exact absurd rfl apart
      · rcases runsOf _ _ second with ⟨_, rfl⟩ | ⟨_, _, second⟩
        · exact absurd rfl apart
        · exact inv.seats.alone first second
    · intro q c' at'
      rcases runsOf _ _ at' with ⟨rfl, rfl⟩ | ⟨_, apart, at'⟩
      · exact update_self ..
      · rw [cpuProc' c' apart]
        exact inv.seats.cpuProc at'
    · intro q in'
      by_cases same : q = p
      · subst same
        rw [here]
        simp
      · rw [runs' q same]
        exact inv.seats.proc (by rwa [insideProc] at in')
    · intro c' in' q at'
      rcases runsOf _ _ at' with ⟨rfl, rfl⟩ | ⟨_, apart, at'⟩
      · rw [outCpu] at in'
        cases in'
      · exact inv.seats.cpu (by rwa [inside' _ (by simpa using apart)] at in') q at'
    · intro c' cpuOut alone
      by_cases same : c' = c
      · subst same
        exact ⟨noff, p, update_self .., only⟩
      · rw [cpuProc' c' same]
        refine inv.seats.handover (by rwa [inside' _ (by simpa using same)] at cpuOut) fun q at' => ?_
        rw [← insideProc]
        refine alone q ?_
        have different : q ≠ p := by
          rintro rfl
          rw [idle] at at'
          cases at'
        rwa [runs' q different]
    · have slot := inv.slot q
      by_cases same : q = p
      · subst same
        have notLeaving : s.leaving q ≠ true := fun leaves => (slot.leaving leaves).2.1 idle
        refine {
          entering := fun _ _ => by rw [running]
          running := fun in' => by rw [insideProc, out] at in'; cases in'
          seated := fun _ => by rw [here]; simp
          left := fun c' at' away => ?_
          asleep := fun asleep => by rw [running] at asleep; cases asleep
          bed := slot.bed
          still := fun still => by rw [running] at still; cases still
          noPid := fun unused => by rw [running] at unused; cases unused
          noParent := fun unused => by rw [running] at unused; cases unused
          orphan := fun _ _ => slot.orphan (by rw [runnable]; decide) (by rw [runnable]; decide)
          used := ?_
          children := fun _ _ => by rw [running]; rfl
          ended := ?_
          created := slot.created
          leaving := fun leaves => absurd leaves notLeaving
          init := fun _ => by rw [running]; rfl
          toRecorded := slot.toRecorded.keep rfl rfl (by rw [running]) (by rw [running]; exact id)
            (fun _ => by rw [runnable]; decide) (fun dead => by rw [running] at dead; cases dead)
          tidy := fun tidy => ?_
          wary := fun chan wary => ?_ }
        · have apart : c' ≠ c := fun same => away (by rw [same, here])
          rw [cpuProc' c' apart] at at'
          have := (slot.left c' at' (by rw [idle]; simp)).1
          rw [holds] at this
          exact absurd (Option.some.inj this).symm apart
        · have := slot.used
          rw [runnable] at this
          rw [running]
          exact ⟨fun used => (by cases used), fun made => (by cases this.mpr made)⟩
        · have := slot.ended
          rw [if_neg (by rw [runnable]; decide)] at this
          rw [if_neg (by rw [running]; simp)]
          exact this
        · rw [running]
          exact ⟨fun unused => (by cases unused), (slot.tidy tidy).2⟩
        · rw [running]
          exact ⟨(slot.wary chan wary).1, fun asleep => (by cases asleep)⟩
      · have eq := proc' q same
        have in' := insideProc q
        have at' := runs' q same
        refine {
          entering := by rw [eq, in', at']; exact slot.entering
          running := by rw [eq, in', at']; exact slot.running
          seated := by rw [eq, at']; exact slot.seated
          left := fun c' atProc => ?_
          asleep := by rw [eq]; exact slot.asleep
          bed := slot.bed
          still := by rw [eq]; exact slot.still
          noPid := by rw [eq]; exact slot.noPid
          noParent := by rw [eq]; exact slot.noParent
          orphan := by rw [eq]; exact slot.orphan
          used := by rw [eq]; exact slot.used
          children := by rw [eq]; exact slot.children
          ended := by rw [eq]; exact slot.ended
          created := slot.created
          leaving := by rw [at']; exact slot.leaving
          init := by rw [eq]; exact slot.init
          toRecorded := slot.toRecorded.keep rfl rfl (by rw [eq]) (by rw [eq]; exact id) (by rw [eq]; exact id)
            (by rw [eq]; exact id)
          tidy := by rw [eq]; exact slot.tidy
          wary := by rw [eq]; exact slot.wary }
        have apart : c' ≠ c := by
          rintro rfl
          have : s'.cpuProc c' = some p := update_self ..
          rw [this] at atProc
          exact same (Option.some.inj atProc).symm
        rw [cpuProc' c' apart] at atProc
        rw [eq, at']
        exact slot.left c' atProc
    · exact (inv.free l none).fewer rfl rfl rfl fun _ _ _ asleep => asleep
    · have mine : s.mine (.cpu c) = b := congrArg View.mine view
      have mine' : s'.mine (.cpu c) = { b with picked := some p } := by
        rw [← mine]
        simp [Kernel.mine, hs']
      show Q true (s'.view (.cpu c))
      rw [Kernel.view_away outCpu, mine']
      exact yes
  next =>
    refine ⟨inv, fun _ _ => rfl, ?_⟩
    show Q false (s.view (.cpu c))
    have view : s.view (.cpu c) = .one (.proc p) _ b := view
    rw [view]
    exact no

theorem clearProc_wp {c : Cpu} {Q : Unit → View M → Prop} (inside : v.inside = true)
    (post : Q () { v with mine := { v.mine with picked := none } }) :
    wp (kernelMachine M) (kOutline A) (.cpu c) (KAct.run .clearProc) Q v := by
  refine kStep_wp inside fun s c' _ inv view seat => ⟨trivial, fun _ => ?_⟩
  obtain ⟨within, rfl, free⟩ := Kernel.seat_cpu seat
  subst view
  simp only [Kernel.act]
  set s' : Kernel M := { s with cpuProc := update s.cpuProc c none } with hs'
  have cpuProc' : ∀ c', c' ≠ c → s'.cpuProc c' = s.cpuProc c' :=
    fun c' different => update_of_ne different _ _
  have locality : Local (.cpu c) c s s' := by
    refine ⟨fun _ _ => rfl, fun _ _ => rfl, fun _ _ => rfl, fun _ _ _ => Iff.rfl, ?_, ?_⟩
    · intro _ _ l _ _ _; cases l <;> rfl
    · intro other different
      cases other with
      | cpu c' =>
        have apart : c' ≠ c := fun same => different (same ▸ rfl)
        simp only [Kernel.mine, cpuProc' c' apart]
      | proc q => rfl
  refine ⟨⟨inv.seats.keep seat locality rfl rfl ?_, fun q => ?_, fun l none => ?_, inv.sound⟩,
    locality.guar inv.seats seat, ?_⟩
  · rintro c' (apart | ⟨p, at'⟩)
    · exact cpuProc' c' apart
    · exact cpuProc' c' fun same => free p (same ▸ at')
  · have slot := inv.slot q
    refine { slot with left := fun c' atProc => ?_ }
    have apart : c' ≠ c := by
      rintro rfl
      simp [hs'] at atProc
    rw [cpuProc' c' apart] at atProc
    exact slot.left c' atProc
  · exact (inv.free l none).fewer rfl rfl rfl fun _ _ _ asleep => asleep
  · have viewEq : s'.view (.cpu c) =
        { s.view (.cpu c) with mine := { (s.view (.cpu c)).mine with picked := none } } := by
      refine View.ext rfl rfl ?_ ?_
      · funext l
        cases l <;> rfl
      · simp [Kernel.view, Kernel.mine, hs']
    show Q () (s'.view (.cpu c))
    rw [viewEq]
    exact post

end Xv6
