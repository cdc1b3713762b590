import Xv6.Proc.Plain
import Xv6.Sleeplock.Machine

namespace Xv6
open Threads Function

namespace Sleeplock

/-- Under `lk->lk` nobody sleeps on the lock while it is not locked. -/
def sleepTerms : Terms sleepers where
  allowed _ _ _ := True
  good _ _ := True
  due _ _ lk := lk.locked = false
  tidy := False
  wary _ := False
  prompt := False
  tidy_spec := False.elim
  wary_spec := False.elim
  prompt_spec := False.elim

variable {crew : Crew} {lk lk' : Sleeplock} {t : Tid} {p q : ProcId} {log : List Event}

/-- The lock is locked by a process. -/
def possesses (crew : Crew) (lk : Sleeplock) (p : ProcId) : Bool :=
  crew.live p && lk.locked && decide (lk.pid = crew.pid p)

theorem possesses_iff : possesses crew lk p = true ↔ crew.live p = true ∧ lk.locked = true ∧
    lk.pid = crew.pid p := by
  simp only [possesses, Bool.and_eq_true, decide_eq_true_eq, and_assoc]

/-- One process at most has it locked. -/
theorem possesses_one (first : possesses crew lk p = true) (second : possesses crew lk q = true) : p = q := by
  obtain ⟨live, _, pid⟩ := possesses_iff.mp first
  obtain ⟨live', _, pid'⟩ := possesses_iff.mp second
  exact crew.distinct p q live live' (pid.symm.trans pid')

theorem possesses_other (mine : possesses crew lk p = true) (other : q ≠ p) : possesses crew lk q = false := by
  cases theirs : possesses crew lk q with
  | false => rfl
  | true => exact absurd (possesses_one theirs mine) other

theorem possesses_free (free : lk.locked = false) : possesses crew lk p = false := by
  simp only [possesses, free, Bool.and_false, Bool.false_and]

/-- What the record says agrees with the lock. -/
structure Agrees (crew : Crew) (x : Kernel sleepers × List Event) : Prop where
  pids : ∀ p, crew.live p = true → (x.1.proc p).pid = crew.pid p
  exclusive : Exclusive x.2
  locked : ∀ p, holder x.2 = some p → possesses crew (ofKernel x.1) p = true

/-- Whether a process has the lock locked, and whether it holds it. -/
def own (crew : Crew) : Tid → Kernel sleepers × List Event → Bool × Bool
  | .cpu _, _ => (false, false)
  | .proc p, x => (possesses crew (ofKernel x.1) p, decide (holder x.2 = some p))

abbrev sleepOutline (crew : Crew) := (kOutline sleepTerms).noted (Agrees crew) (own crew)

theorem Agrees.keep {s s' : Kernel sleepers} (h : Agrees crew (s, log)) (data : s'.data = s.data)
    (pids : ∀ p, (s'.proc p).pid = (s.proc p).pid) :
    Agrees crew (s', log) ∧ ∀ other, own crew other (s', log) = own crew other (s, log) := by
  have same : ofKernel s' = ofKernel s := congrFun data ()
  refine ⟨⟨fun p live => (pids p).trans (h.pids p live), h.exclusive, fun p holds => ?_⟩, fun other => ?_⟩
  · show possesses crew (ofKernel s') p = true
    rw [same]
    exact h.locked p holds
  · cases other with
    | cpu c => rfl
    | proc p =>
      show (possesses crew (ofKernel s') p, _) = (possesses crew (ofKernel s) p, _)
      rw [same]

theorem keeps_plain {a : KAct sleepers} (plain : a.Plain) :
    Keeps (kernelMachine sleepers) (Agrees crew) (own crew) t a := by
  intro s log c answer s' agrees step
  obtain ⟨data, pids⟩ := plain.keep step
  exact agrees.keep data pids

variable {b : Mine sleepers} {v : View sleepers} {w : Bool × Bool} {z : Unit → ProcId → Bool}

/-- Code that leaves the lock alone does what it does without notes. -/
theorem wp_plain {α : Type} {code : KProg sleepers α} {Q : α → View sleepers → Prop} (plain : code.Plain)
    (h : wp (kernelMachine sleepers) (kOutline sleepTerms) t code Q v) :
    wp sleepMachine (sleepOutline crew) t (code.lift Event) (fun value x => Q value x.1 ∧ x.2 = w) (v, w) :=
  wp_lift (kOutline_isolated _) (Prog.each_mono (fun _ => keeps_plain) plain) h

/-- A process reads its own pid. -/
theorem myPid_wp (live : crew.live p = true) (inside : v.inside = true) :
    wp sleepMachine (sleepOutline crew) (.proc p) ((KAct.getPid (M := sleepers) p).run.lift Event)
      (fun pid x => pid = crew.pid p ∧ x = (v, w)) (v, w) := by
  have look : wp (kernelMachine sleepers) (kOutline sleepTerms) (.proc p) (KAct.getPid (M := sleepers) p).run
      (fun _ v' => v' = v) v := look_wp inside fun s c _ _ _ _ => ⟨trivial, _, rfl, rfl⟩
  refine wp_mono (fun pid x done => ⟨done.2.1, Prod.ext done.1 done.2.2⟩) (wp_lift_step (kOutline_isolated _)
    (R := fun pid w' => pid = crew.pid p ∧ w' = w) look fun s log c pid s' _ agrees _ mine step => ?_)
  have plain : (KAct.getPid (M := sleepers) p).Plain := trivial
  obtain ⟨data, pids⟩ := plain.keep step
  obtain ⟨agrees', same⟩ := agrees.keep data pids
  refine ⟨agrees', fun other _ => same other, ?_, (same (.proc p)).trans mine⟩
  simp only [kernelMachine] at step
  cases seat : s.cpu (.proc p) with
  | none =>
    rw [seat] at step
    cases step
  | some c =>
    rw [seat] at step
    cases step
    exact agrees.pids p live

/-- What a process sees of the lock under `lk->lk`. -/
theorem ofKernel_seen {s : Kernel sleepers} (seen : s.view t = .one lkLock (lk, z) b) : ofKernel s = lk := by
  have known : (s.view t).held lkLock = some (lk, z) := by
    rw [seen]
    exact View.one_self
  rw [Kernel.view] at known
  by_cases held : s.seat t ≠ none ∧ s.holder lkLock = s.seat t
  · simp only [if_pos held] at known
    exact congrArg Prod.fst (Option.some.inj known)
  · simp only [if_neg held] at known
    cases known

theorem readLk_wp (clean : b.Clean) :
    wp sleepMachine (sleepOutline crew) (.proc p) (readLk.lift Event)
      (fun lk' x => lk' = lk ∧ possesses crew lk p = w.1 ∧ x = (.one lkLock (lk, z) b, w))
      (.one lkLock (lk, z) b, w) := by
  have look : wp (kernelMachine sleepers) (kOutline sleepTerms) (.proc p) readLk
      (fun lk' v => lk' = lk ∧ v = .one lkLock (lk, z) b) (.one lkLock (lk, z) b) :=
        readUnder_wp clean ⟨rfl, rfl⟩
  refine wp_mono (fun lk' x done => ⟨done.1.1, done.2.1, Prod.ext done.1.2 done.2.2⟩)
    (wp_lift_step (kOutline_isolated _)
    (R := fun _ w' => possesses crew lk p = w.1 ∧ w' = w) look fun s log c lk' s' _ agrees here mine step =>
    ?_)
  have plain : (KAct.read (M := sleepers) ()).Plain := trivial
  obtain ⟨data, pids⟩ := plain.keep step
  obtain ⟨agrees', same⟩ := agrees.keep data pids
  refine ⟨agrees', fun other _ => same other, ?_, (same (.proc p)).trans mine⟩
  rw [← mine, ← ofKernel_seen here]
  rfl

/-- A process that holds `lk->lk` changes the lock, where nobody else has it locked before or after. -/
theorem writeLk_wp (alone : possesses crew lk p = w.1 → ∀ q, q ≠ p → possesses crew lk q = false)
    (alone' : ∀ q, q ≠ p → possesses crew lk' q = false) (keeps : w.2 = true → possesses crew lk' p = true) :
    wp sleepMachine (sleepOutline crew) (.proc p) ((writeLk lk').lift Event)
      (fun _ x => possesses crew lk p = w.1 ∧ x = (.one lkLock (lk', z) b, (possesses crew lk' p, w.2)))
      (.one lkLock (lk, z) b, w) := by
  have change : wp (kernelMachine sleepers) (kOutline sleepTerms) (.proc p) (writeLk lk')
      (fun _ v => v = .one lkLock (lk', z) b) (.one lkLock (lk, z) b) := writeUnder_wp rfl
  refine wp_mono (fun _ x done => ⟨done.2.1, Prod.ext done.1 done.2.2⟩) (wp_lift_step (kOutline_isolated _)
    (R := fun _ w' => possesses crew lk p = w.1 ∧ w' = (possesses crew lk' p, w.2)) change
    fun s log c answer s' _ agrees here mine step => ?_)
  have before : ofKernel s = lk := ofKernel_seen here
  have after : ofKernel s' = lk' ∧ s'.proc = s.proc := by
    simp only [kernelMachine] at step
    cases seat : s.cpu (.proc p) with
    | none =>
      rw [seat] at step
      cases step
    | some c =>
      rw [seat] at step
      cases step
      refine ⟨?_, rfl⟩
      show update s.data () lk' () = lk'
      exact update_self ..
  have known : possesses crew lk p = w.1 := by
    rw [← mine, ← before]
    rfl
  have alone := alone known
  have held : decide (holder log = some p) = w.2 := congrArg Prod.snd mine
  refine ⟨⟨fun q live => ?_, agrees.exclusive, fun q holder => ?_⟩, fun other different => ?_, known, ?_⟩
  · show (s'.proc q).pid = _
    rw [after.2]
    exact agrees.pids q live
  · show possesses crew (ofKernel s') q = true
    rw [after.1]
    by_cases same : q = p
    · subst same
      exact keeps (held.symm.trans (decide_eq_true holder))
    · have locked := agrees.locked q holder
      rw [before, alone q same] at locked
      cases locked
  · cases other with
    | cpu c => rfl
    | proc q =>
      have apart : q ≠ p := fun same => different (congrArg Tid.proc same)
      show (possesses crew (ofKernel s') q, _) = (possesses crew (ofKernel s) q, _)
      rw [after.1, before, alone q apart, alone' q apart]
  · show (possesses crew (ofKernel s') p, decide (holder log = some p)) = _
    rw [after.1, held]

/-! ## The calls -/

theorem lkFree_iff : sleepTerms.Free lkLock (lk, z) ↔ (lk.locked = false → ∀ p, z () p = false) :=
  ⟨fun h free => h.2 () free, fun h => ⟨trivial, fun _ free => h free⟩⟩

theorem waits_wp (clean : b.Clean) (stays : b.leaving = false) :
    wp (kernelMachine sleepers) (kOutline sleepTerms) (.proc p) (forever (fun _ => acquiresleepRound p) ())
      (fun _ v => ∃ lk z, v = .one lkLock (lk, z) b ∧ lk.locked = false) (.one lkLock (lk, z) b) := by
  refine forever_wp (J := fun _ v => ∃ lk z, v = .one lkLock (lk, z) b) ?_ ?_ ⟨lk, z, rfl⟩
  · rintro _ _ ⟨lk, z, rfl⟩
    rfl
  · rintro _ _ ⟨lk, z, rfl⟩
    refine wp_bind (readUnder_wp clean ?_)
    cases locked : lk.locked with
    | false => exact ⟨lk, z, rfl, locked⟩
    | true =>
      have same : ({ b with window := none } : Mine sleepers) = b := by rw [← clean.window]
      rw [← same]
      refine wp_seq (sleepUnder_wp (w := none) clean stays (lkFree_iff.mpr fun unlocked => ?_) False.elim) ?_
      · rw [locked] at unlocked
        cases unlocked
      · rintro _ _ ⟨⟨lk', z'⟩, _, _, rfl⟩
        exact ⟨lk', z', by rw [same]⟩

theorem waits_plain : (forever (fun _ => acquiresleepRound p) ()).Plain := by
  have read : readLk.Plain := run_plain trivial
  refine forever_plain (fun _ => Prog.each_bind read fun lk => ?_) ()
  by_cases locked : lk.locked = true
  · rw [if_pos locked]
    exact Prog.each_bind sleep_plain fun _ => Prog.each_pure
  · rw [if_neg locked]
    exact Prog.each_pure

/-- With `lk->lk` held, and nothing else. -/
theorem acquireLk_wp (clean : b.Clean) {Q : Unit → View sleepers × (Bool × Bool) → Prop}
    (post : ∀ lk z, sleepTerms.Free lkLock (lk, z) → (∀ x, z x p = false) → Q () (.one lkLock (lk, z) b, w)) :
    wp sleepMachine (sleepOutline crew) (.proc p) ((KAct.acquire lkLock).run.lift Event) Q (.quiet b, w) := by
  refine wp_mono ?_ (wp_plain (Q := fun _ v => ∃ lk z, v = .one lkLock (lk, z) b ∧
    sleepTerms.Free lkLock (lk, z) ∧
    ∀ x, z x p = false) (run_plain trivial) (acquireUnder_wp clean fun i free own =>
    ⟨i.1, i.2, rfl, free, own p rfl⟩))
  rintro _ ⟨_, _⟩ ⟨⟨lk, z, rfl, free, own⟩, rfl⟩
  exact post lk z free own

theorem releaseLk_wp (free : sleepTerms.Free lkLock (lk, z)) :
    wp sleepMachine (sleepOutline crew) t ((KAct.release lkLock).run.lift Event)
    (fun _ x => x = (.quiet b, w))
      (.one lkLock (lk, z) b, w) :=
  wp_mono (fun _ _ done => Prod.ext done.1 done.2) (wp_plain (Q := fun _ v => v = .quiet b)
    (run_plain trivial)
    (releaseUnder_wp free rfl))

/-- Noting an event that agrees with the lock. -/
theorem noteEvent_wp {e : Event} {h : Bool} (agrees : ∀ s log, Agrees crew (s, log) →
      own crew (.proc p) (s, log) = w →
      Agrees crew (s, e :: log) ∧ decide (holder (e :: log) = some p) = h ∧
        ∀ q, q ≠ p → (holder (e :: log) = some q ↔ holder log = some q)) :
    wp sleepMachine (sleepOutline crew) (.proc p) (Prog.note e) (fun _ x => x = (v, (w.1, h))) (v, w) := by
  refine wp_note fun s log _ kept here mine => ?_
  obtain ⟨kept', mine', others⟩ := agrees s log kept mine
  refine ⟨kept', fun other different => ?_, ?_⟩
  · cases other with
    | cpu c => rfl
    | proc q =>
      have apart : q ≠ p := fun same => different (congrArg Tid.proc same)
      exact congrArg (Prod.mk _) (decide_eq_decide.mpr (others q apart))
  · have first : possesses crew (ofKernel s) p = w.1 := congrArg Prod.fst mine
    exact Prod.ext rfl (Prod.ext first mine')

/-- Nobody holds the lock but the process that has it locked. -/
theorem Agrees.holder_none {s : Kernel sleepers} (h : Agrees crew (s, log))
    (mine : own crew (.proc p) (s, log) = (true, false)) : holder log = none := by
  have locked : possesses crew (ofKernel s) p = true := congrArg Prod.fst mine
  have not : holder log ≠ some p := of_decide_eq_false (congrArg Prod.snd mine)
  cases holds : holder log with
  | none => rfl
  | some q =>
    have same := possesses_one (h.locked q holds) locked
    exact absurd (same ▸ holds) not

theorem acquiresleep_wp (clean : b.Clean) (stays : b.leaving = false)
    (live : crew.live p = true) {held : Bool} :
    wp sleepMachine (sleepOutline crew) (.proc p) (acquiresleep p) (fun _ x => x = (.quiet b, (true, true)))
      (.quiet b, (held, held)) := by
  refine wp_bind (acquireLk_wp clean fun lk z _ _ => ?_)
  refine wp_seq (wp_plain waits_plain (waits_wp clean stays)) ?_
  rintro _ ⟨_, _⟩ ⟨⟨lk, z, rfl, unlocked⟩, rfl⟩
  refine wp_seq (myPid_wp live rfl) ?_
  rintro _ _ ⟨rfl, rfl⟩
  have mine : possesses crew ⟨true, crew.pid p⟩ p = true := possesses_iff.mpr ⟨live, rfl, rfl⟩
  refine wp_seq (writeLk_wp (fun _ q _ => possesses_free unlocked) (fun q other => possesses_other mine other)
    fun _ => mine) ?_
  rintro _ _ ⟨known, rfl⟩
  -- A process that holds the lock already does not get here.
  obtain rfl : held = false := known.symm.trans (possesses_free unlocked)
  rw [mine]
  refine wp_seq (releaseLk_wp (lkFree_iff.mpr nofun)) ?_
  rintro _ _ rfl
  refine noteEvent_wp (h := true) fun s log agrees own => ?_
  have none : holder log = .none := agrees.holder_none own
  refine ⟨⟨agrees.pids, ⟨none, agrees.exclusive⟩, fun q holds => ?_⟩, decide_eq_true rfl, fun q other => ?_⟩
  · cases holds
    exact congrArg Prod.fst own
  · rw [none]
    refine ⟨fun same => ?_, nofun⟩
    cases same
    exact absurd rfl other

theorem releasesleep_wp (clean : b.Clean) :
    wp sleepMachine (sleepOutline crew) (.proc p) (releasesleep p) (fun _ x => x = (.quiet b, (false, false)))
      (.quiet b, (true, true)) := by
  refine wp_seq (noteEvent_wp (h := false) fun s log agrees own => ?_) ?_
  · have holds : holder log = some p := of_decide_eq_true (congrArg Prod.snd own)
    refine ⟨⟨agrees.pids, ⟨holds, agrees.exclusive⟩, nofun⟩, rfl, fun q other => ?_⟩
    rw [holds]
    refine ⟨nofun, fun same => ?_⟩
    cases same
    exact absurd rfl other
  rintro _ _ rfl
  refine wp_bind (acquireLk_wp clean fun lk z _ awake => ?_)
  refine wp_seq (writeLk_wp (fun known q other => possesses_other known other)
    (fun q _ => possesses_free rfl) nofun) ?_
  rintro _ _ ⟨-, rfl⟩
  refine wp_seq (wp_plain wakeup_plain (wakeupUnder_wp clean.picked clean.bed fun q same => ?_)) ?_
  · cases same
    exact awake ()
  rintro _ ⟨_, _⟩ ⟨⟨z', rfl, _, woken⟩, rfl⟩
  rw [possesses_free rfl]
  exact releaseLk_wp (lkFree_iff.mpr fun _ => woken)

theorem holdingsleep_wp (clean : b.Clean) (live : crew.live p = true) {held : Bool} :
    wp sleepMachine (sleepOutline crew) (.proc p) (holdingsleep p) (fun _ x => x = (.quiet b, (held, held)))
      (.quiet b, (held, held)) := by
  refine wp_bind (acquireLk_wp clean fun lk z free _ => ?_)
  refine wp_seq (readLk_wp clean) ?_
  rintro lk _ ⟨rfl, known, rfl⟩
  refine wp_seq (myPid_wp live rfl) ?_
  rintro _ _ ⟨rfl, rfl⟩
  refine wp_seq (releaseLk_wp free) ?_
  rintro _ _ rfl
  refine noteEvent_wp (h := held) fun s log agrees own => ?_
  have answer : (lk.locked && decide (lk.pid = crew.pid p)) = held := by
    refine Eq.trans ?_ known
    rw [possesses, live, Bool.true_and]
  have holds : decide (holder log = some p) = held := congrArg Prod.snd own
  refine ⟨⟨agrees.pids, ⟨?_, agrees.exclusive⟩, agrees.locked⟩, holds, fun q _ => Iff.rfl⟩
  rw [answer, ← holds, decide_eq_true_eq]

/-- What a flow of control keeps between two calls: it is calm, and has the lock locked just if
it holds it. -/
def Rests (t : Tid) (x : View sleepers × (Bool × Bool)) : Prop := Calm t x.1 ∧ x.2.1 = x.2.2

theorem entry_wp {x : Kernel sleepers × List Event} {e : Entry}
    (rests : Rests t ((sleepOutline crew).view t x))
    (legal : e.legal crew t x) :
    wp sleepMachine (sleepOutline crew) t e.code (fun _ => Rests t) ((sleepOutline crew).view t x) := by
  obtain ⟨s, log⟩ := x
  obtain ⟨calm, same⟩ := rests
  have back : ∀ {b : Mine sleepers}, b.Calm → ∀ (held : Bool) y, y = (View.quiet b, (held, held)) →
    Rests t y := by
    rintro b calm held _ rfl
    exact ⟨calm.back _ rfl, rfl⟩
  -- The start of a call of a process that runs.
  have start : s.inside t = true → ∃ (b : Mine sleepers) (held : Bool), b.Calm ∧
      own crew t (s, log) = (held, held) ∧
      (sleepOutline crew).view t (s, log) = (.quiet b, (held, held)) := by
    intro inside
    obtain ⟨b, calm, here⟩ := calm.inside inside
    have mine : own crew t (s, log) = ((own crew t (s, log)).2, (own crew t (s, log)).2) := Prod.ext same rfl
    exact ⟨b, _, calm, mine, Prod.ext here mine⟩
  cases e with
  | acquiresleep p =>
    obtain ⟨rfl, live, inside⟩ := legal
    obtain ⟨b, held, calm, -, here⟩ := start inside
    rw [here]
    exact wp_mono (fun _ => back calm true) (acquiresleep_wp calm.toClean calm.leaving live)
  | releasesleep p =>
    obtain ⟨rfl, live, inside, holds⟩ := legal
    obtain ⟨b, held, calm, mine, here⟩ := start inside
    obtain rfl : true = held := (decide_eq_true holds).symm.trans (congrArg Prod.snd mine)
    rw [here]
    exact wp_mono (fun _ => back calm false) (releasesleep_wp calm.toClean)
  | holdingsleep p =>
    obtain ⟨rfl, live, inside⟩ := legal
    obtain ⟨b, held, calm, -, here⟩ := start inside
    rw [here]
    exact wp_mono (fun _ => back calm held) (holdingsleep_wp calm.toClean live)
  | common e =>
    refine wp_mono (fun _ y done => ?_) (wp_plain (Q := fun _ => Calm t) (Common.code_plain e)
      (Common.code_wp calm legal))
    refine ⟨done.1, ?_⟩
    rw [done.2]
    exact same

theorem sleepReach_inv {y : SleepConfig}
    (run : Reach sleepMachine (fun _ _ _ => True) (sleepCalls crew) (sleepStart crew) y) :
    KInv sleepTerms y.shared.1 ∧ Agrees crew y.shared := by
  have agrees : Agrees crew (sleepStart crew).shared := by
    refine ⟨fun p live => ?_, trivial, nofun⟩
    show (if crew.live p then _ else _ : Proc sleepers).pid = _
    rw [if_pos live]
  have start : (sleepOutline crew).Holds sleepMachine Rests (sleepStart crew) := by
    refine ⟨⟨Crew.boot_inv fun _ => trivial, agrees⟩, fun t => wp_pure.mpr ⟨Crew.boot_calm t, ?_⟩⟩
    cases t with
    | cpu c => rfl
    | proc p => exact possesses_free rfl
  have wider : ∀ (t : Tid) (a : KAct sleepers ⊕ Event) (x : Kernel sleepers × List Event),
      True → (sleepOutline crew).allowed t a x := by
    intro t a x _
    cases a with
    | inl a => trivial
    | inr e => trivial
  exact (start.reach Outline.noted_isolated (fun t x e _ rests legal => entry_wp rests legal)
    (run.weaken wider)).inv

/-- Between a return of `acquiresleep` and the holder's `releasesleep` no other `acquiresleep` returns,
`holdingsleep` answers yes just to the holder, and while `lk->lk` is free nobody sleeps on a lock that is not
locked. -/
theorem sleeplock_exclusive {y : SleepConfig}
    (run : Reach sleepMachine (fun _ _ _ => True) (sleepCalls crew) (sleepStart crew) y) :
    Exclusive y.shared.2 ∧ (y.shared.1.holder lkLock = none → ∀ p, (y.shared.1.proc p).state = .sleeping →
      (y.shared.1.proc p).chan = some lkChan → (ofKernel y.shared.1).locked = true) := by
  obtain ⟨inv, agrees⟩ := sleepReach_inv run
  refine ⟨agrees.exclusive, fun free p asleep place => ?_⟩
  obtain ⟨chan, eq, dozing⟩ := (inv.slot p).asleep asleep
  rw [place] at eq
  cases eq
  have awake := lkFree_iff.mp (inv.free lkLock free)
  by_contra unlocked
  exact absurd dozing (of_decide_eq_false (awake (Bool.eq_false_iff.mpr unlocked) p))

/-- So many steps of one flow of control, with what each leaves open. -/
def steps (t : Tid) (choices : List Nat) : List (Move Tid Nat Entry) := choices.map (.act t)

def otherProc : ProcId := ⟨1, one_lt_NPROC⟩

/-- The first two processes. -/
def pair : Crew := ⟨fun p => decide (p.val < 2), fun p => p.val + 1,
      by decide, fun p q _ _ same => Fin.ext (by omega)⟩

/-- A processor picks a process that returns to user space for the first time. -/
def enter (c : Cpu) (p : ProcId) : List (Move Tid Nat Entry) :=
  .call (.cpu c) (.common (.slot p)) :: steps (.cpu c) [0, 0] ++
    .call (.proc p) (.common (.forkret p)) :: steps (.proc p) [0, 0]

/-- The first process takes the lock, the second asks whether it holds it and then waits for it. -/
def contended : List (Move Tid Nat Entry) :=
  enter 0 initproc ++ enter 1 otherProc ++
    .call (.proc initproc) (.acquiresleep initproc) :: steps (.proc initproc) [0, 1, 0, 0, 0, 0, 0] ++
    .call (.proc initproc) (.holdingsleep initproc) :: steps (.proc initproc) [0, 0, 0, 0, 0] ++
    .call (.proc otherProc) (.holdingsleep otherProc) :: steps (.proc otherProc) [0, 0, 0, 0, 0] ++
    .call (.proc otherProc) (.acquiresleep otherProc) :: steps (.proc otherProc) [0, 2, 0, 0, 0, 0, 0] ++
    steps (.cpu 1) [0, 0, 0]

theorem contended_ends : (drive sleepMachine (fun _ _ _ => True) (sleepCalls pair) contended
      (sleepStart pair)).map (fun y =>
    (y.shared.2.length, y.shared.1.holder lkLock, (y.shared.1.proc otherProc).state,
    (y.shared.1.proc otherProc).chan)) =
      some (3, none, .sleeping, some lkChan) := by decide +kernel

theorem sleeplock_exclusive_contended : ∃ y : SleepConfig, y.shared.2.length = 3 ∧ Exclusive y.shared.2 ∧
    (y.shared.1.proc otherProc).state = .sleeping ∧ (ofKernel y.shared.1).locked = true := by
  obtain ⟨y, run, found⟩ := Option.map_eq_some_iff.mp contended_ends
  simp only [Prod.mk.injEq] at found
  obtain ⟨count, free, asleep, place⟩ := found
  have holds := sleeplock_exclusive (drive_reach run)
  exact ⟨y, count, holds.1, asleep, holds.2 free otherProc asleep place⟩

end Sleeplock

end Xv6
