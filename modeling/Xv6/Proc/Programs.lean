import Xv6.Proc.Family

namespace Xv6
open Threads Function

variable {M : Monitors} {A : Terms M} {t : Tid} {v : View M} {p q : ProcId} {b : Mine M}

/-- What a process keeps between its steps where it does not sleep. -/
structure Mine.Clean (b : Mine M) : Prop where
  picked : b.picked = none
  chan : b.chan = none
  window : b.window = none
  bed : b.bed = none

namespace View

/-- A flow of control that holds no lock. -/
def quiet (b : Mine M) : View M := ⟨true, 0, fun _ => none, b⟩

theorem quiet_lock (t : Tid) (l : Lock M) (i : Info l) :
    (quiet b).lock t l i = one l i (b.closed t l) := rfl

theorem one_unlock {l : Lock M} {i : Info l} : (one l i b).unlock l = quiet b := by
  refine View.ext rfl rfl (funext fun l' => ?_) rfl
  by_cases same : l' = l
  · subst same; simp [unlock, quiet]
  · simp [unlock, quiet, one]

theorem one_set {l : Lock M} {i i' : Info l} : (one l i b).set l i' = one l i' b := by
  simp [set, one]

theorem set_self {l : Lock M} {i : Info l} (h : v.held l = some i) : v.set l i = v := by
  simp [set, ← h]

theorem set_set {l : Lock M} {i i' : Info l} : (v.set l i).set l i' = v.set l i' := by
  simp [set]

/-- Taking a lock, writing under it and giving it back leaves nothing behind. -/
theorem unlock_lock {l : Lock M} {i j : Info l} (free : v.held l = none)
    (closed : v.mine.closed t l = v.mine) :
    ((v.lock t l i).set l j).unlock l = v := by
  refine View.ext rfl rfl (funext fun l' => ?_) closed
  by_cases same : l' = l
  · subst same; simp [unlock, free]
  · simp [unlock, set, lock, update_of_ne same]

theorem unlock_lock_set {l l₂ : Lock M} {i i' : Info l} {i₂ : Info l₂} (free : v.held l = none)
    (different : l ≠ l₂) (closed : v.mine.closed t l = v.mine) :
    (((v.lock t l i).set l i').set l₂ i₂).unlock l = v.set l₂ i₂ := by
  refine View.ext rfl rfl (funext fun l' => ?_) closed
  by_cases same : l' = l
  · subst same; simp [unlock, set, free, update_of_ne different]
  · by_cases same₂ : l' = l₂
    · subst same₂; simp [unlock, set, update_of_ne same]
    · simp [unlock, set, lock, update_of_ne same, update_of_ne same₂]

end View

theorem Mine.closed_self {l : Lock M} (window : b.window = none) (bed : b.bed ≠ some l) :
    b.closed t l = b := by
  cases t with
  | cpu c => rfl
  | proc p =>
    simp only [Mine.closed, window, if_neg bed]
    cases b
    simp_all

theorem Mine.closed_other {l : Lock M} (other : ∀ p, t = .proc p → l ≠ .proc p) (bed : b.bed = none) :
    b.closed t l = b := by
  cases t with
  | cpu c => rfl
  | proc p =>
    simp only [Mine.closed, bed, if_neg (other p rfl)]
    cases b
    simp_all

theorem Mine.Clean.closed (h : b.Clean) (l : Lock M) : b.closed t l = b :=
  Mine.closed_self h.window (by rw [h.bed]; simp)

section Scheduling

theorem yield_wp (picked : b.picked = none) (window : b.window = none) (bed : b.bed ≠ some (.proc p)) :
    wp (kernelMachine M) (kOutline A) (.proc p) (yield p) (fun _ v => v = .quiet b) (.quiet b) := by
  refine wp_bind (acquire_wp rfl rfl (fun _ _ => rfl) fun i _ own => ?_)
  obtain ⟨running, _⟩ := own rfl
  rw [View.quiet_lock, Mine.closed_self window bed]
  refine wp_bind (setYield_wp rfl View.one_self running ?_)
  rw [View.one_set]
  refine wp_bind (wp_bind (swtch_wp (by simp) (resumeProc_wp fun j running => ?_)))
  exact releaseProc_wp rfl View.one_self (fun _ => running) (by simp [View.one, picked]) View.one_unlock

theorem preempt_wp (picked : b.picked = none) (window : b.window = none) (bed : b.bed ≠ some (.proc p)) :
    wp (kernelMachine M) (kOutline A) (.proc p) (preempt p) (fun _ v => v = .quiet b) (.quiet b) := by
  refine wp_bind (choose_wp rfl fun n => ?_)
  refine wp_forEach (J := fun _ v => v = View.quiet b) (fun _ _ v same => ?_) rfl
  subst same
  exact yield_wp picked window bed

theorem Chan.lock_ne (chan : Chan M) : chan.lock ≠ .proc p := by cases chan <;> simp [Chan.lock]

/-- `sleep` returns with the lock held again and the channel cleared. -/
theorem sleep_wp (chan : Chan M) {i : Info chan.lock} (picked : b.picked = none) (chanNone : b.chan = none)
    (bed : b.bed = none) (leaving : b.leaving = false) (free : A.Free chan.lock (i.doze chan p))
    (wary : A.wary chan → b.window = some chan) :
    wp (kernelMachine M) (kOutline A) (.proc p) (sleep p chan chan.lock)
      (fun _ v => ∃ i', A.Free chan.lock i' ∧ A.Own { b with window := none } (.proc p) chan.lock i' ∧
        v = .one chan.lock i' { b with window := none }) (.one chan.lock i b) := by
  have different : Lock.proc p ≠ chan.lock := chan.lock_ne.symm
  refine wp_bind (acquire_wp rfl (View.one_other different) ?_ fun j _ own => ?_)
  · rintro _ ⟨⟩
    exact View.one_other different
  obtain ⟨running, awake⟩ := own rfl
  refine wp_bind (sleepRelease_wp (i := i) (j := j) rfl ?_ ?_ rfl free running ?_ ?_ ?_)
  · simp [View.lock, update_of_ne different.symm]
  · simp [View.lock]
  · simp [View.lock, View.one, Mine.closed, bed]
  · simp [View.lock, View.one, Mine.closed, leaving]
  have handed : { (((View.one chan.lock i b).lock (.proc p) (.proc p) j).unlock chan.lock).set (.proc p)
        (j.1, some chan) with
      mine := { ((View.one chan.lock i b).lock (.proc p) (.proc p) j).mine with bed := some chan.lock } } =
      View.one (.proc p) (j.1, some chan) { b with window := none, bed := some chan.lock } := by
    refine View.ext rfl rfl (funext fun l => ?_) ?_
    · by_cases mine : l = .proc p
      · subst mine; simp [View.set]
      · by_cases same : l = chan.lock
        · subst same; simp [View.set, View.unlock, View.one, update_of_ne mine]
        · simp [View.set, View.unlock, View.lock, View.one, update_of_ne mine, update_of_ne same]
    · simp [View.lock, View.one, Mine.closed]
  rw [handed]
  refine wp_bind (setSleeping_wp rfl View.one_self running rfl (fun careful => ?_) ?_)
  · exact awake chan careful (wary careful)
  rw [View.one_set]
  refine wp_bind (wp_bind (swtch_wp (by simp) (resumeProc_wp fun j running => ?_)))
  refine wp_bind (clearChan_wp rfl View.one_self running ?_)
  rw [View.one_set]
  change wp _ _ _ _ _ (View.one (.proc p) _ { b with window := none, bed := some chan.lock, chan := none })
  refine wp_bind (releaseProc_wp rfl View.one_self (fun _ => running) (by simp [View.one, picked]) ?_)
  rw [View.one_unlock]
  refine wp_seq (preempt_wp picked rfl (by simpa using different.symm)) ?_
  rintro _ _ rfl
  refine acquire_wp rfl rfl (fun _ _ => rfl) fun i' free' own => ⟨i', free', ?_, ?_⟩
  · cases chan <;> exact own
  · rw [View.quiet_lock]
    simp [Mine.closed, chanNone, bed]

/-- One slot of the table in a pass of the scheduler. -/
theorem schedulerSlot_wp {c : Cpu} (picked : b.picked = none) :
    wp (kernelMachine M) (kOutline A) (.cpu c) (schedulerSlot p) (fun _ v => v = .quiet b) (.quiet b) := by
  have released : ∀ i : Info (.proc p), wp (kernelMachine M) (kOutline A) (.cpu c)
      (KAct.release (.proc p)).run
      (fun _ v => v = .quiet b) (.one (.proc p) i b) := by
    intro i
    exact releaseProc_wp rfl View.one_self (fun own => (by cases own))
      (by simp [View.one, picked]) View.one_unlock
  refine wp_bind (acquire_wp rfl rfl (fun _ own => (by cases own)) fun i _ _ => ?_)
  rw [View.quiet_lock]
  refine wp_bind (pick_wp ?_ ?_)
  · refine wp_bind (wp_bind (resumeCpu_wp rfl fun j => ?_))
    refine clearProc_wp rfl ?_
    have same : ({ b with picked := none } : Mine M) = b := by rw [← picked]
    have eq : ({ View.one (.proc p) j { b with picked := some p } with mine :=
        { (View.one (.proc p) j { b with picked := some p }).mine with picked := none } } : View M) =
        .one (.proc p) j b := View.ext rfl rfl rfl same
    exact eq ▸ released j
  · exact released i

end Scheduling

/-- A process does not sleep on a channel, by what a holder of its lock knows. -/
def Info.Awake : {l : Lock M} → Info l → Chan M → ProcId → Prop
  | .proc _, _, _, _ => True
  | .wait, f, chan, r => chan = .proc r → f.dozer r = false
  | .mon m, i, chan, r => ∀ x, chan = .mon m x → i.2 x r = false

/-- The same with fewer processes asleep. -/
def Info.Quieter : {l : Lock M} → Info l → Info l → Prop
  | .proc _, _, _ => True
  | .wait, f, f' => f'.parent = f.parent ∧ f'.history = f.history ∧ ∀ r, f.dozer r = false → f'.dozer r = false
  | .mon _, i, i' => i'.1 = i.1 ∧ ∀ x r, i.2 x r = false → i'.2 x r = false

namespace Info

variable {l : Lock M} {i i' i'' : Info l} {chan : Chan M} {r : ProcId}

theorem Quieter.refl : Quieter i i := by
  cases l with
  | proc _ => trivial
  | wait => exact ⟨rfl, rfl, fun _ => id⟩
  | mon m => exact ⟨rfl, fun _ _ => id⟩

theorem Quieter.trans (h : Quieter i i') (h' : Quieter i' i'') : Quieter i i'' := by
  cases l with
  | proc _ => trivial
  | wait => exact ⟨h'.1.trans h.1, h'.2.1.trans h.2.1, fun r awake => h'.2.2 r (h.2.2 r awake)⟩
  | mon m => exact ⟨h'.1.trans h.1, fun x r awake => h'.2 x r (h.2 x r awake)⟩

theorem Quieter.awake (h : Quieter i i') (awake : i.Awake chan r) : i'.Awake chan r := by
  cases l with
  | proc _ => trivial
  | wait => exact fun same => h.2.2 r (awake same)
  | mon m => exact fun x same => h.2 x r (awake x same)

theorem wake_quieter : Quieter i (i.wake chan q) := by
  cases l with
  | proc _ => trivial
  | wait => exact ⟨rfl, rfl, fun r awake => by simp [wake, awake]⟩
  | mon m => exact ⟨rfl, fun x r awake => by simp [wake, awake]⟩

theorem wake_awake : (i.wake chan q).Awake chan q := by
  cases l with
  | proc _ => trivial
  | wait => exact fun same => by simp [wake, same]
  | mon m => exact fun x same => by simp [wake, same]

end Info

/-- `wakeup` leaves nobody but its caller asleep on the channel. -/
theorem wakeup_wp (chan : Chan M) {i : Info chan.lock} (inside : v.inside = true)
    (picked : v.mine.picked = none)
    (bed : v.mine.bed = none) (held : v.held chan.lock = some i) (free : ∀ q, v.held (.proc q) = none) :
    wp (kernelMachine M) (kOutline A) t (wakeup t chan)
      (fun _ v' => ∃ i', v' = v.set chan.lock i' ∧ i.Quieter i' ∧ ∀ r, t ≠ .proc r → i'.Awake chan r) v := by
  refine wp_mono (fun _ v' done => ?_) (wp_forEach (J := fun rest v' => ∃ i', v' = v.set chan.lock i' ∧
    i.Quieter i' ∧ ∀ r, r ∉ rest → t ≠ .proc r → i'.Awake chan r) (fun q rest v' now => ?_) ?_)
  · obtain ⟨i', eq, quieter, awake⟩ := done
    exact ⟨i', eq, quieter, fun r => awake r (by simp)⟩
  · obtain ⟨i', rfl, quieter, awake⟩ := now
    by_cases other : t ≠ .proc q
    · rw [if_pos other]
      have different : Lock.proc q ≠ chan.lock := chan.lock_ne.symm
      have closed : v.mine.closed t (.proc q) = v.mine := by
        refine Mine.closed_other (fun r own => ?_) bed
        rintro ⟨⟩
        exact other own
      have freeNow : (v.set chan.lock i').held (.proc q) = none := by
        simp [View.set, update_of_ne different, free q]
      refine wp_bind (acquire_wp inside freeNow (fun r _ => ?_) fun j _ _ => ?_)
      · simp [View.set, update_of_ne chan.lock_ne.symm, free r]
      refine wp_bind (wakeProc_wp (i := i') (j := j) inside ?_ ?_ fun j' => ?_)
      · simp [View.lock]
      · simp [View.lock, View.set, update_of_ne different.symm]
      refine releaseProc_wp (j := j') inside ?_ (fun same => absurd same other) ?_ ?_
      · simp [View.set, update_of_ne different]
      · show ((v.set chan.lock i').mine.closed t (.proc q)).picked ≠ some q
        rw [show (v.set chan.lock i').mine = v.mine from rfl, closed, picked]
        simp
      rw [View.unlock_lock_set freeNow different closed, View.set_set]
      refine ⟨_, rfl, quieter.trans Info.wake_quieter, fun r notRest apart => ?_⟩
      by_cases same : r = q
      · rw [same]; exact Info.wake_awake
      · exact Info.wake_quieter.awake (awake r (by simp [same, notRest]) apart)
    · rw [if_neg other]
      refine ⟨i', rfl, quieter, fun r notRest apart => awake r ?_ apart⟩
      have : r ≠ q := fun same => other (same ▸ apart)
      simp [this, notRest]
  · exact ⟨i, (View.set_self held).symm, Info.Quieter.refl, fun r absent =>
      absurd (List.mem_finRange r) absent⟩

theorem killed_wp (next : Option (Chan M)) (unannounced : Bool) (inside : v.inside = true)
    (clean : v.mine.Clean)
    (free : v.held (.proc p) = none) :
    wp (kernelMachine M) (kOutline A) (.proc p) (killed p next unannounced)
      (fun k v' => (k = true ∧ (A.prompt → unannounced = false) ∧
          v' = { v with mine := { v.mine with notes := v.mine.notes.catch p next } }) ∨
        (k = false ∧ v' = { v with mine := { v.mine with window := next } })) v := by
  refine wp_bind (acquire_wp inside free (fun r same => by cases same; exact free) fun j _ own => ?_)
  have running : j.1.state = .running := (own rfl).1
  have released : ∀ {k : Bool} {b : Mine M}, b.picked = none →
      wp (kernelMachine M) (kOutline A) (.proc p)
        ((KAct.release (.proc p)).run >>= fun _ => (pure k : KProg M Bool))
        (fun k' v' => k' = k ∧ v' = { v with mine := b }) { v.lock (.proc p) (.proc p) j with mine := b } := by
    intro k b picked
    refine wp_bind (releaseProc_wp (j := j) inside ?_ (fun _ => running) ?_ ⟨rfl, ?_⟩)
    · simp [View.lock]
    · simp [picked]
    · refine View.ext rfl rfl (funext fun l => ?_) rfl
      by_cases same : l = .proc p
      · subst same; simp [View.unlock, free]
      · simp [View.unlock, View.lock, update_of_ne same]
  have closed : v.mine.closed (.proc p) (.proc p) = v.mine := clean.closed _
  refine wp_bind (getKilled_wp (j := j) inside ?_ (fun announced => ?_) ?_)
  · simp [View.lock]
  · rw [show (v.lock (.proc p) (.proc p) j).mine = v.mine from closed]
    refine wp_mono (fun k v' done => ?_)
      (released (b := { v.mine with notes := v.mine.notes.catch p next }) clean.picked)
    exact .inl ⟨done.1, announced, done.2⟩
  · rw [show (v.lock (.proc p) (.proc p) j).mine = v.mine from closed]
    refine wp_mono (fun k v' done => ?_) (released (b := { v.mine with window := next }) clean.picked)
    exact .inr done

/-- A process in a call, and back from it. -/
theorem Mine.Clean.asks (clean : b.Clean) (request : Option Request) (notes : Notes) :
    Mine.Clean { b with asking := request, notes } := ⟨clean.picked, clean.chan, clean.window, clean.bed⟩

theorem View.answered (quiet : b.asking = none) (request : Option Request) (notes : Notes) :
    ({ View.quiet { b with asking := request, notes } with
      mine := { (View.quiet { b with asking := request, notes }).mine with asking := none } } : View M) =
      .quiet { b with notes } :=
  View.ext rfl rfl rfl (by rw [← quiet]; rfl)

theorem setkilled_wp (clean : b.Clean) (quiet : b.asking = none) :
    wp (kernelMachine M) (kOutline A) (.proc p) (setkilled p) (fun _ v => ∃ notes,
      v = .quiet { b with notes })
      (.quiet b) := by
  refine wp_bind (enter_wp rfl rfl ?_)
  have clean' := clean.asks (some .setkilled) .blank
  change wp _ _ _ _ _ (View.quiet { b with asking := some .setkilled, notes := .blank })
  refine wp_bind (acquire_wp rfl rfl (fun _ _ => rfl) fun j _ own => ?_)
  obtain ⟨running, _⟩ := own rfl
  rw [View.quiet_lock, clean'.closed]
  refine wp_bind (setKilled_wp rfl View.one_self running clean'.window rfl ?_)
  rw [View.one_set]
  refine wp_bind (releaseProc_wp rfl View.one_self (fun _ => running) (by simp [View.one, clean.picked]) ?_)
  rw [View.one_unlock]
  exact leave_wp rfl rfl (fun _ _ _ => trivial) ⟨.blank, View.answered quiet _ _⟩

theorem killFrom_wp {pid : Int} (clean : b.Clean) (asks : b.asking = some (.kill pid)) (qs : List ProcId) :
    wp (kernelMachine M) (kOutline A) (.proc p) (killFrom p pid qs)
      (fun r v => (r = 0 ∧ ∃ state, (A.tidy → state ≠ .unused) ∧
          v = .quiet { b with notes := { b.notes with found := some (pid, state) } }) ∨
        (r = -1 ∧ v = .quiet b)) (.quiet b) := by
  induction qs with
  | nil => exact .inr ⟨rfl, rfl⟩
  | cons q rest ih =>
    refine wp_seq (preempt_wp clean.picked clean.window (by rw [clean.bed]; simp)) ?_
    rintro _ _ rfl
    refine wp_bind (acquire_wp rfl rfl (fun _ _ => rfl) fun j _ own => ?_)
    rw [View.quiet_lock, clean.closed]
    have running : Tid.proc p = .proc q → j.1.state = .running := by
      rintro ⟨⟩
      exact (own rfl).1
    refine wp_bind (killProc_wp rfl View.one_self asks (fun state live => ?_) ?_)
    · rw [View.one_set]
      change wp _ _ _ _ _ (View.one (.proc q) _ { b with
          notes := { b.notes with found := some (pid, state) } })
      refine wp_bind (releaseProc_wp rfl View.one_self (fun same => ?_) ?_ ?_)
      · rcases j.1.kill_state with ⟨asleep, _⟩ | ⟨_, eq⟩
        · rw [running same] at asleep
          cases asleep
        · exact eq.trans (running same)
      · simp [View.one, clean.picked]
      · rw [View.one_unlock]
        exact .inl ⟨rfl, state, live, rfl⟩
    · refine wp_bind (releaseProc_wp rfl View.one_self running (by simp [View.one, clean.picked]) ?_)
      rw [View.one_unlock]
      exact ih

theorem kill_wp {pid : Int} (clean : b.Clean) (quiet : b.asking = none) :
    wp (kernelMachine M) (kOutline A) (.proc p) (kill p pid) (fun _ v => ∃ notes, v = .quiet { b with notes })
      (.quiet b) := by
  refine wp_bind (enter_wp rfl rfl ?_)
  change wp _ _ _ _ _ (View.quiet { b with asking := some (.kill pid), notes := .blank })
  refine wp_seq (killFrom_wp (clean.asks _ _) rfl _) ?_
  rintro r _ (⟨rfl, state, live, rfl⟩ | ⟨rfl, rfl⟩)
  · refine wp_bind (leave_wp rfl rfl (fun s inv view => ⟨rfl, fun _ => ⟨state, ?_, live⟩⟩) ?_)
    · exact congrArg (fun v => v.mine.notes.found) view
    · exact ⟨_, View.answered quiet _ _⟩
  · refine wp_bind (leave_wp rfl rfl (fun s inv view => ⟨rfl, fun zero => absurd zero (by decide)⟩) ?_)
    exact ⟨_, View.answered quiet _ _⟩

/-- A new process comes with its lock held and belongs to its maker. -/
theorem allocprocFrom_wp (clean : b.Clean) (none : ∀ q, b.made q = none) (qs : List ProcId) :
    wp (kernelMachine M) (kOutline A) (.proc p) (allocprocFrom p qs)
      (fun r v => match r with
        | .none => v = .quiet b
        | some q => q ≠ p ∧ ∃ j : Info (.proc q),
            v = .one (.proc q) j { b with made := update b.made q (some false) }) (.quiet b) := by
  induction qs with
  | nil => exact rfl
  | cons q rest ih =>
    refine wp_seq (preempt_wp clean.picked clean.window (by rw [clean.bed]; simp)) ?_
    rintro _ _ rfl
    refine wp_bind (acquire_wp rfl rfl (fun _ _ => rfl) fun j _ own => ?_)
    rw [View.quiet_lock, clean.closed]
    have running : Tid.proc p = .proc q → j.1.state = .running := by
      rintro ⟨⟩
      exact (own rfl).1
    refine wp_bind (isUnused_wp rfl View.one_self ?_)
    by_cases unused : j.1.state = .unused
    · have apart : q ≠ p := by
        rintro rfl
        rw [running rfl] at unused
        cases unused
      simp only [unused, decide_true, if_true]
      refine wp_bind (initProc_wp rfl View.one_self unused apart fun j' _ => ?_)
      rw [View.one_set]
      change wp _ _ _ _ _ (View.one (.proc q) _ { b with made := update b.made q (some false) })
      refine wp_bind (choose_wp rfl fun n => ?_)
      by_cases full : n = 0
      · rw [if_pos full]
        refine wp_bind (freeProc_wp rfl View.one_self (update_self ..) fun j'' => ?_)
        rw [View.one_set]
        change wp _ _ _ _ _ (View.one (.proc q) _
          { b with made := update (update b.made q (some false)) q Option.none })
        refine wp_bind (releaseProc_wp rfl View.one_self (fun same => ?_) ?_ ?_)
        · cases same; exact absurd rfl apart
        · simp [View.one, clean.picked]
        · rw [View.one_unlock, update_idem, ← none q, update_eq_self]
          exact rfl
      · rw [if_neg full]
        exact ⟨apart, j', rfl⟩
    · simp only [unused, decide_false, Bool.false_eq_true, if_false]
      refine wp_bind (releaseProc_wp rfl View.one_self running (by simp [View.one, clean.picked]) ?_)
      rw [View.one_unlock]
      exact ih

theorem fork_wp (clean : b.Clean) (stays : b.leaving = false) (none : ∀ q, b.made q = none) :
    wp (kernelMachine M) (kOutline A) (.proc p) (fork p) (fun _ v => ∃ notes, v = .quiet { b with notes })
      (.quiet b) := by
  refine wp_seq (allocprocFrom_wp clean none _) fun r v made => ?_
  cases r with
  | none => exact ⟨b.notes, made⟩
  | some q =>
    obtain ⟨apart, j, rfl⟩ := made
    have back : ∀ x notes, ({ b with made := update (update b.made q x) q Option.none, notes } : Mine M) =
        { b with notes } := by
      intro x notes
      rw [update_idem, ← none q, update_eq_self]
    have clean' : ∀ x notes, Mine.Clean { b with made := update b.made q x, notes } := fun x notes =>
      ⟨clean.picked, clean.chan, clean.window, clean.bed⟩
    have notSelf : Tid.proc p = .proc q → False := by
      rintro ⟨⟩
      exact apart rfl
    refine wp_bind (choose_wp rfl fun n => ?_)
    by_cases full : n = 0
    · rw [if_pos full]
      refine wp_bind (freeProc_wp rfl View.one_self (update_self ..) fun j' => ?_)
      rw [View.one_set]
      change wp _ _ _ _ _ (View.one (.proc q) _
        { b with made := update (update b.made q (some false)) q Option.none, notes := b.notes })
      rw [back]
      refine wp_bind (releaseProc_wp rfl View.one_self (fun same => (notSelf same).elim) ?_ ?_)
      · simp [View.one, clean.picked]
      · rw [View.one_unlock]
        exact ⟨_, rfl⟩
    · rw [if_neg full]
      refine wp_bind (getPid_wp rfl View.one_self ?_)
      refine wp_bind (releaseProc_wp rfl View.one_self (fun same => (notSelf same).elim)
        (by simp [View.one, clean.picked]) ?_)
      rw [View.one_unlock]
      refine wp_seq (preempt_wp clean.picked clean.window (by rw [clean.bed]; simp)) ?_
      rintro _ _ rfl
      refine wp_bind (acquire_wp rfl rfl (fun _ _ => rfl) fun f free own => ?_)
      rw [View.quiet_lock, (clean' _ _).closed]
      refine wp_bind (setParent_wp rfl View.one_self (update_self ..) (View.one_other (by simp)) ?_)
      rw [View.one_set]
      change wp _ _ _ _ _ (View.one .wait _
        { b with made := update (update b.made q (some false)) q (some true) })
      rw [update_idem]
      refine wp_bind (releaseWait_wp rfl View.one_self (fun r x child zombie => ?_) stays ?_)
      · by_cases same : r = q
        · subst same
          simp only [update_self, Option.some.injEq] at child
          exact child ▸ own
        · exact free r x (by simpa [update_of_ne same] using child) zombie
      rw [View.one_unlock]
      generalize Family.look _ p _ = notes
      change wp _ _ _ _ _ (View.quiet { b with made := update b.made q (some true), notes })
      refine wp_seq (preempt_wp clean.picked clean.window (by simp [clean.bed])) ?_
      rintro _ _ rfl
      refine wp_bind (acquire_wp rfl rfl (fun _ _ => rfl) fun j' _ _ => ?_)
      rw [View.quiet_lock, (clean' _ _).closed]
      refine wp_bind (setRunnable_wp rfl View.one_self (update_self ..) fun j'' => ?_)
      rw [View.one_set]
      change wp _ _ _ _ _ (View.one (.proc q) _
        { b with made := update (update b.made q (some true)) q Option.none, notes })
      rw [back]
      refine wp_bind (releaseProc_wp rfl View.one_self (fun same => (notSelf same).elim)
        (by simp [View.one, clean.picked]) ?_)
      rw [View.one_unlock]
      exact ⟨notes, rfl⟩

/-- What `reparent` leaves to do: the children that come later in the table. -/
theorem reparent_wp {f : Family} (clean : b.Clean) (notInit : p ≠ initproc) (free : A.Free .wait f)
    (awake : f.dozer p = false) :
    wp (kernelMachine M) (kOutline A) (.proc p) (reparent p) (fun _ v => ∃ f' leaving,
      v = .one .wait f' { b with leaving } ∧ A.Free .wait f' ∧ f'.dozer p = false ∧
        ∀ q, f'.parent q ≠ some p) (.one .wait f b) := by
  refine wp_mono (fun _ v done => ?_) (wp_forEach (J := fun rest v => ∃ f' leaving,
    v = View.one .wait f' { b with leaving } ∧ A.Free .wait f' ∧ f'.dozer p = false ∧
      ∀ q, q ∉ rest → f'.parent q ≠ some p) (fun pp rest v now => ?_) ?_)
  · obtain ⟨f', leaving, eq, free', awake', childless⟩ := done
    exact ⟨f', leaving, eq, free', awake', fun q => childless q (by simp)⟩
  · obtain ⟨f', leaving, rfl, free', awake', childless⟩ := now
    refine wp_bind (getParent_wp rfl View.one_self ?_)
    by_cases child : f'.parent pp = some p
    · rw [if_pos child]
      refine wp_bind (adopt_wp rfl View.one_self child notInit ?_)
      rw [View.one_set]
      change wp _ _ _ _ _ (View.one .wait _ { b with leaving := true })
      refine wp_mono (fun _ v done => ?_) (wakeup_wp (t := .proc p) (.proc initproc) rfl
        clean.picked clean.bed View.one_self fun _ => View.one_other (by simp))
      obtain ⟨f'', rfl, ⟨parent, history, fewer⟩, woken⟩ := done
      refine ⟨f'', true, View.one_set, fun q x child' zombie => ?_, fewer p awake', fun q notRest => ?_⟩
      · rw [parent] at child'
        rw [history] at zombie
        by_cases same : q = pp
        · subst same
          simp only [update_self, Option.some.injEq] at child'
          subst child'
          exact woken initproc (by simpa using notInit) rfl
        · exact fewer x (free' q x (by simpa [update_of_ne same] using child') zombie)
      · rw [parent]
        by_cases same : q = pp
        · subst same
          simpa using Ne.symm notInit
        · simpa [update_of_ne same] using childless q (by simp [same, notRest])
    · rw [if_neg child]
      refine ⟨f', leaving, rfl, free', awake', fun q notRest => ?_⟩
      by_cases same : q = pp
      · rw [same]; exact child
      · exact childless q (by simp [same, notRest])
  · exact ⟨f, b.leaving, rfl, free, awake, fun q absent => absurd (List.mem_finRange q) absent⟩

/-- An exiting process leaves a zombie whose parent does not sleep in `wait`. -/
theorem exitProc_wp {status : Int} (clean : b.Clean) (stays : b.leaving = false) (quiet : b.asking = none)
    (notInit : p ≠ initproc) :
    wp (kernelMachine M) (kOutline A) (.proc p) (exitProc p status) (fun _ v => ∃ notes,
      v = .away { b with notes })
      (.quiet b) := by
  refine wp_bind (acquire_wp rfl rfl (fun _ _ => rfl) fun f free own => ?_)
  rw [View.quiet_lock, clean.closed]
  refine wp_seq (reparent_wp clean notInit free own) ?_
  rintro _ _ ⟨f, leaving, rfl, free, awake, childless⟩
  have clean' : Mine.Clean { b with leaving } := ⟨clean.picked, clean.chan, clean.window, clean.bed⟩
  refine wp_bind (getParent_wp rfl View.one_self ?_)
  -- From here on the parent is awake, if there is one.
  have rest : ∀ f' : Family, A.Free .wait f' → (∀ q, f'.parent q ≠ some p) →
      (∀ x, f'.parent p = some x → f'.dozer x = false) →
      wp (kernelMachine M) (kOutline A) (.proc p) (do
        (KAct.acquire (.proc p)).run
        (KAct.setZombie p status).run
        (KAct.release .wait).run
        (KAct.swtch p).run) (fun _ v => ∃ notes, v = .away { b with notes }) (.one .wait f' { b with
          leaving }) := by
    intro f' free' childless' awake'
    refine wp_bind (acquire_wp rfl (View.one_other (by simp)) ?_ fun j _ own => ?_)
    · rintro _ ⟨⟩
      exact View.one_other (by simp)
    obtain ⟨running, _⟩ := own rfl
    refine wp_bind (setZombie_wp (f := f') (j := j) rfl ?_ ?_ running ?_ ?_ notInit childless' ?_)
    · simp [View.lock]
    · simp [View.lock]
    · show (Mine.closed { b with leaving } (.proc p) (.proc p)).chan = none
      rw [clean'.closed]
      exact clean.chan
    · show (Mine.closed { b with leaving } (.proc p) (.proc p)).asking = none
      rw [clean'.closed]
      exact quiet
    have mine : ((View.one .wait f' { b with leaving }).lock (.proc p) (.proc p) j).mine =
      { b with leaving } := by
      show Mine.closed { b with leaving } (.proc p) (.proc p) = _
      exact clean'.closed _
    rw [mine]
    refine wp_bind (releaseWait_wp (f := ⟨f'.parent, .exited p j.1.pid status :: f'.history,
      f'.dozer⟩) rfl ?_ ?_
      rfl ?_)
    · simp [View.set]
    · intro q x child zombie
      by_cases same : q = p
      · subst same; exact awake' x child
      · exact free' q x child (by simpa [unreaped, same] using zombie)
    generalize Family.look _ p _ = notes
    have one : ∀ (i : Info (.proc p)) (f₁ : Family),
        ({ ({ (((View.one .wait f' { b with leaving }).lock (.proc p)
        (.proc p) j).set (.proc p) i).set .wait f₁ with mine := { b with leaving := false } } :
        View M).unlock .wait with
        mine := { b with leaving := false, notes } } : View M) = .one (.proc p) i { b with notes } := by
      intro i f₁
      refine View.ext rfl rfl (funext fun l => ?_) ?_
      · by_cases wait : l = .wait
        · subst wait; simp [View.unlock, View.one]
        · by_cases same : l = .proc p
          · subst same; simp [View.unlock, View.set, View.one]
          · simp [View.unlock, View.set, View.lock, View.one, update_of_ne wait, update_of_ne same]
      · show ({ b with leaving := false, notes } : Mine M) = { b with notes }
        rw [← stays]
    refine (congrArg (wp _ _ _ _ _) (one _ _)).mpr ?_
    exact swtch_wp (by simp) ⟨notes, rfl⟩
  cases parent : f.parent p with
  | none => exact rest f free childless fun x child => by rw [parent] at child; cases child
  | some x =>
    refine wp_seq (wakeup_wp (.proc x) rfl clean.picked clean.bed View.one_self fun _ =>
      View.one_other (by simp)) ?_
    rintro _ _ ⟨f', rfl, ⟨parentEq, historyEq, fewer⟩, woken⟩
    rw [show (View.one .wait f { b with leaving }).set (Chan.proc x).lock f' = View.one .wait f' { b with
        leaving }
      from View.one_set]
    refine rest f' (fun q y child zombie => ?_) (by rw [parentEq]; exact childless) fun y child => ?_
    · rw [parentEq] at child
      rw [historyEq] at zombie
      exact fewer y (free q y child zombie)
    · rw [parentEq, parent] at child
      cases child
      by_cases same : x = p
      · rw [same]; exact fewer p awake
      · exact woken x (by simpa using Ne.symm same) rfl

section Rounds

variable {σ α : Type} {body : σ → KProg M (α ⊕ σ)} {J : σ → View M → Prop} {Q : α → View M → Prop}

theorem rounds_wp (inside : ∀ x v, J x v → v.inside = true)
    (round : ∀ x v, J x v → wp (kernelMachine M) (kOutline A) t (body x) (fun r v => match r with
      | .inl value => Q value v
      | .inr next => J next v) v) (n : Nat) {x : σ} (start : J x v) :
    wp (kernelMachine M) (kOutline A) t (rounds body n x) Q v := by
  induction n generalizing x v with
  | zero => exact wp_bind (stuck_wp (inside x v start))
  | succ n ih =>
    refine wp_seq (round x v start) fun r v' next => ?_
    cases r with
    | inl value => exact next
    | inr y => exact ih next

theorem forever_wp (inside : ∀ x v, J x v → v.inside = true)
    (round : ∀ x v, J x v → wp (kernelMachine M) (kOutline A) t (body x) (fun r v => match r with
      | .inl value => Q value v
      | .inr next => J next v) v) {x : σ} (start : J x v) :
    wp (kernelMachine M) (kOutline A) t (forever body x) Q v :=
  wp_bind (choose_wp (inside x v start) fun n => rounds_wp inside round n start)

end Rounds

/-- What `wait` leaves behind with its answer: the pid of the child it has reaped, or -1 and why. -/
def Answered (addr : Bool) (b : Mine M) (r : Int) (v : View M) : Prop :=
  ∃ notes, v = .quiet { b with notes } ∧ r = notes.taken.getD (-1) ∧
    (notes.taken = none → notes.Excuse addr notes.caught)

/-- What a scan for zombies has seen where it found none. -/
structure Scanned (f : Family) (p : ProcId) (qs : List ProcId) (before after : Bool) : Prop where
  noZombie : ∀ q ∈ qs, f.parent q = some p → unreaped f.history q = none
  childless : after = false → before = false ∧ ∀ q ∈ qs, f.parent q ≠ some p

/-- A scan that finds no zombie child has seen that there is none. -/
theorem waitScan_wp {f : Family} {addr : Bool} (clean : b.Clean) (stays : b.leaving = false)
    (taken : b.notes.taken = none) (free : A.Free .wait f) (qs : List ProcId) (havekids : Bool) :
    wp (kernelMachine M) (kOutline A) (.proc p) (waitScan p addr havekids qs) (fun r v => match r with
      | .inl answer => Answered addr b answer v
      | .inr after => v = .one .wait f b ∧ Scanned f p qs havekids after)
      (.one .wait f b) := by
  induction qs generalizing havekids with
  | nil => exact ⟨rfl, ⟨fun q member => (by cases member), fun none =>
      ⟨none, fun q member => (by cases member)⟩⟩⟩
  | cons q rest ih =>
    refine wp_bind (getParent_wp rfl View.one_self ?_)
    by_cases child : f.parent q = some p
    · rw [if_pos child]
      refine wp_bind (acquire_wp rfl (View.one_other (by simp)) ?_ fun j _ own => ?_)
      · rintro _ ⟨⟩
        exact View.one_other (by simp)
      have lockMine : ((View.one .wait f b).lock (.proc p) (.proc q) j).mine = b := by
        show b.closed (.proc p) (.proc q) = b
        exact clean.closed _
      have heldChild : ((View.one .wait f b).lock (.proc p) (.proc q) j).held (.proc q) = some j := by
        simp [View.lock]
      have heldWait : ((View.one .wait f b).lock (.proc p) (.proc q) j).held .wait = some f := by
        simp [View.lock]
      have running : Tid.proc p = .proc q → j.1.state = .running := by
        rintro ⟨⟩
        exact (own rfl).1
      have unlocked : ((View.one .wait f b).lock (.proc p) (.proc q) j).unlock (.proc q) = .one .wait f b := by
        have := View.unlock_lock (v := View.one .wait f b) (t := .proc p) (l := .proc q) (i := j) (j := j)
          (View.one_other (by simp)) (clean.closed _)
        rwa [View.set_self heldChild] at this
      refine wp_bind (zombieChild_wp rfl heldChild heldWait fun ended => ?_)
      cases found : unreaped f.history q with
      | none =>
        refine wp_bind (releaseProc_wp rfl heldChild running ?_ ?_)
        · rw [lockMine, clean.picked]; simp
        rw [unlocked]
        refine wp_mono (fun r v done => ?_) (ih true)
        cases r with
        | inl answer => exact done
        | inr after =>
          obtain ⟨same, scanned⟩ := done
          refine ⟨same, ⟨fun x member => ?_, fun none => ?_⟩⟩
          · rcases List.mem_cons.mp member with rfl | later
            · exact fun _ => found
            · exact scanned.noZombie x later
          · cases (scanned.childless none).1
      | some found' =>
        obtain ⟨pid, xstate⟩ := found'
        rw [found] at ended
        have zombie : j.1.state = .zombie := by
          by_contra not
          rw [if_neg not] at ended
          cases ended
        rw [if_pos zombie] at ended
        cases ended
        have apart : p ≠ q := by
          rintro rfl
          rw [running rfl] at zombie
          cases zombie
        have notOwn : ∀ {P : Prop}, Tid.proc p = .proc q → P := by
          rintro _ ⟨⟩
          exact absurd rfl apart
        -- The rest once the status is out, with what was stored.
        have reaping : ∀ notes : Notes, (addr = true → notes.stored = some j.1.xstate) → notes.taken = none →
            wp (kernelMachine M) (kOutline A) (.proc p) (do
              (KAct.reap q p addr).run
              (KAct.release (.proc q)).run
              (KAct.release .wait).run
              return .inl j.1.pid : KProg M (Int ⊕ Bool)) (fun r v => match r with
                | .inl answer => Answered addr b answer v
                | .inr after => v = .one .wait f b ∧ Scanned f p (q :: rest) havekids after)
              { (View.one .wait f b).lock (.proc p) (.proc q) j with mine := { b with notes } } := by
          intro notes copied first
          refine wp_bind (reap_wp (f := f) (j := j) rfl heldWait heldChild child zombie apart
            stays copied first
            fun j' => ?_)
          refine wp_bind (releaseProc_wp (j := j') rfl ?_ notOwn ?_ ?_)
          · simp [View.set]
          · simp [clean.picked]
          refine wp_bind (releaseWait_wp (f := ⟨update f.parent q none, .reaped q j.1.pid j.1.xstate p :: f.history,
            f.dozer⟩) rfl ?_ (fun x y child' zombie' => ?_) stays ?_)
          · simp [View.set, View.unlock]
          · have different : x ≠ q := by
              rintro rfl
              simp at child'
            refine free x y (by simpa [update_of_ne different] using child') ?_
            simpa [unreaped, different] using zombie'
          · refine ⟨_, View.ext rfl rfl (funext fun l => ?_) rfl, rfl, fun none => (by cases none)⟩
            by_cases wait : l = .wait
            · subst wait; simp [View.unlock, View.quiet]
            · by_cases same : l = .proc q
              · subst same; simp [View.unlock, View.quiet]
              · simp [View.unlock, View.set, View.lock, View.one, View.quiet, update_of_ne wait,
                  update_of_ne same]
        have same : ({ (View.one .wait f b).lock (.proc p) (.proc q) j with mine := b } : View M) =
            (View.one .wait f b).lock (.proc p) (.proc q) j := View.ext rfl rfl rfl lockMine.symm
        cases addr with
        | false =>
          have := reaping b.notes (fun eq => (by cases eq)) taken
          rw [show ({ b with notes := b.notes } : Mine M) = b from rfl, same] at this
          exact this
        | true =>
          refine wp_bind (copyout_wp rfl ?_ ?_)
          · -- The zombie is left where it is.
            rw [lockMine]
            refine wp_bind (releaseProc_wp (j := j) rfl heldChild running (by simp [clean.picked]) ?_)
            refine wp_bind (releaseWait_wp (f := f) rfl ?_ free stays ?_)
            · simp [View.unlock, View.lock]
            · have kept : (f.look p { b.notes with refused := true }).taken = none := taken
              refine ⟨f.look p { b.notes with refused := true }, View.ext rfl rfl (funext fun l => ?_) rfl,
                by rw [kept]; rfl, fun _ => .inl ?_⟩
              · by_cases wait : l = .wait
                · subst wait; simp [View.unlock, View.quiet]
                · have := congrArg (fun v => v.held l) unlocked
                  simpa [View.unlock, View.quiet, View.one, update_of_ne wait] using this
              · exact ⟨rfl, rfl, decide_eq_true ⟨q, child, by rw [found]; simp⟩⟩
          · rw [lockMine]
            exact reaping _ (fun _ => rfl) taken
    · rw [if_neg child]
      refine wp_mono (fun r v done => ?_) (ih havekids)
      cases r with
      | inl answer => exact done
      | inr after =>
        obtain ⟨same, scanned⟩ := done
        refine ⟨same, ⟨fun x member => ?_, fun none => ⟨(scanned.childless none).1, fun x member => ?_⟩⟩⟩
        · rcases List.mem_cons.mp member with rfl | later
          · exact fun is => absurd is child
          · exact scanned.noZombie x later
        · rcases List.mem_cons.mp member with rfl | later
          · exact child
          · exact (scanned.childless none).2 x later

theorem wait_wp {addr : Bool} (clean : b.Clean) (stays : b.leaving = false) (quiet : b.asking = none) :
    wp (kernelMachine M) (kOutline A) (.proc p) (wait p addr) (fun _ v => ∃ notes,
      v = .quiet { b with notes })
      (.quiet b) := by
  refine wp_bind (enter_wp rfl rfl ?_)
  change wp _ _ _ _ _ (View.quiet { b with asking := some (.wait addr), notes := .blank })
  set b' : Mine M := { b with asking := some (.wait addr), notes := .blank } with hb'
  have clean' : b'.Clean := clean.asks _ _
  refine wp_bind (acquire_wp rfl rfl (fun _ _ => rfl) fun f free own => ?_)
  rw [View.quiet_lock, clean'.closed]
  refine wp_seq (R := fun r v => Answered addr b' r v) ?_ ?_
  · refine forever_wp (J := fun _ v => ∃ f, v = View.one .wait f b' ∧ A.Free .wait f) ?_ ?_ ⟨f, rfl, free⟩
    · rintro _ _ ⟨f, rfl, _⟩
      rfl
    · rintro _ _ ⟨f, rfl, free⟩
      refine wp_seq (waitScan_wp clean' stays rfl free _ _) fun r v found => ?_
      cases r with
      | inl answer => exact found
      | inr havekids =>
        obtain ⟨rfl, scanned⟩ := found
        have noZombie : ¬ ∃ q, f.parent q = some p ∧ unreaped f.history q ≠ none := fun ⟨q, child, zombie⟩ =>
          zombie (scanned.noZombie q (List.mem_finRange q) child)
        have stop : ∀ notes : Notes, notes.taken = none → havekids = false ∨ notes.caught = true →
            wp (kernelMachine M) (kOutline A) (.proc p) (do
              (KAct.release .wait).run
              return .inl (-1) : KProg M (Int ⊕ Unit)) (fun r v => match r with
                | .inl value => Answered addr b' value v
                | .inr _ => ∃ f, v = View.one .wait f b' ∧ A.Free .wait f) (.one .wait f { b' with
                  notes }) := by
          intro notes taken why
          refine wp_bind (releaseWait_wp rfl View.one_self free stays ?_)
          rw [View.one_unlock]
          refine ⟨f.look p notes, rfl, by simp [Family.look,
            taken], fun _ => .inr ⟨decide_eq_false noZombie, ?_⟩⟩
          refine why.imp (fun childless => decide_eq_false ?_) id
          rintro ⟨q, child⟩
          exact (scanned.childless childless).2 q (List.mem_finRange q) child
        cases havekids with
        | false => exact stop .blank rfl (.inl rfl)
        | true =>
          refine wp_seq (killed_wp _ _ rfl clean' (View.one_other (by simp))) ?_
          rintro k v (⟨rfl, _, rfl⟩ | ⟨rfl, rfl⟩)
          · refine stop (Notes.blank.catch p (some (Chan.proc p : Chan M))) ?_ (.inr ?_)
            · rw [Notes.catch, if_pos rfl]; rfl
            · rw [Notes.catch, if_pos rfl]
          · -- A process goes to sleep in `wait` with no zombie among its children.
            refine wp_seq (sleep_wp (b := { b' with window := some (.proc p) }) (i := f)
              (.proc p) clean'.picked
              clean'.chan clean'.bed stays (fun q x child zombie => ?_) fun _ => rfl) ?_
            · have child : f.parent q = some x := child
              have zombie : unreaped f.history q ≠ none := zombie
              have different : x ≠ p := fun same => noZombie ⟨q, same ▸ child, zombie⟩
              exact (update_of_ne different ..).trans (free q x child zombie)
            · rintro _ _ ⟨f', free', _, rfl⟩
              refine ⟨f', ?_, free'⟩
              rw [← clean'.window]
              rfl
  · rintro r _ ⟨notes, rfl, answer, excuse⟩
    refine wp_bind (leaveWait_wp rfl rfl rfl answer excuse ?_)
    exact ⟨notes, View.answered quiet _ _⟩

end Xv6
