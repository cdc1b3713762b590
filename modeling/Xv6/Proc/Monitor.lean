import Xv6.Proc.Programs

namespace Xv6
open Threads Function

/-! ## Under the lock of a monitor, with nothing else held -/

variable {M : Monitors} {A : Terms M} {t : Tid} {p : ProcId} {b : Mine M} {m : M.Lock}
  {i : Info (M := M) (.mon m)}

theorem acquireUnder_wp (clean : b.Clean) {Q : Unit → View M → Prop}
    (post : ∀ i, A.Free (.mon m) i → (∀ p, t = .proc p → ∀ x, i.2 x p = false) → Q () (.one (.mon m) i b)) :
    wp (kernelMachine M) (kOutline A) t (KAct.acquire (.mon m)).run Q (.quiet b) := by
  refine acquire_wp rfl rfl (fun _ _ => rfl) fun i free own => ?_
  rw [View.quiet_lock, clean.closed]
  refine post i free ?_
  rintro p rfl
  exact own

theorem releaseUnder_wp {Q : Unit → View M → Prop} (free : A.Free (.mon m) i) (post : Q () (.quiet b)) :
    wp (kernelMachine M) (kOutline A) t (KAct.release (.mon m)).run Q (.one (.mon m) i b) := by
  refine release_wp rfl View.one_self free (fun same => (by cases same)) (fun _ _ same => (by cases same))
    (fun _ same => (by cases same)) ?_
  rw [View.one_unlock]
  exact post

theorem readUnder_wp (clean : b.Clean) {Q : M.Data m → View M → Prop} (post : Q i.1 (.one (.mon m) i b)) :
    wp (kernelMachine M) (kOutline A) t (KAct.read m).run Q (.one (.mon m) i b) :=
  read_wp rfl View.one_self clean.chan post

theorem writeUnder_wp {x : M.Data m} {Q : Unit → View M → Prop} (post : Q () (.one (.mon m) (x, i.2) b)) :
    wp (kernelMachine M) (kOutline A) t (KAct.write m x).run Q (.one (.mon m) i b) := by
  refine writeData_wp rfl View.one_self ?_
  rw [View.one_set]
  exact post

/-- Nobody but the caller of `wakeup` sleeps on the channel then. -/
theorem wakeupUnder_wp {x : M.Chan m} (picked : b.picked = none) (bed : b.bed = none)
    (own : ∀ p, t = .proc p → i.2 x p = false) :
    wp (kernelMachine M) (kOutline A) t (wakeup t (.mon m x))
      (fun _ v => ∃ z, v = .one (.mon m) (i.1, z) b ∧ (∀ y r, i.2 y r = false → z y r = false) ∧
        ∀ r, z x r = false)
      (.one (.mon m) i b) := by
  refine wp_mono (fun _ v done => ?_) (wakeup_wp (i := i) (.mon m x) rfl picked bed View.one_self
    fun _ => View.one_other (by simp))
  obtain ⟨(i' : Info (M := M) (.mon m)), rfl, ⟨data, fewer⟩, woken⟩ := done
  have eq : (View.one (.mon m) i b).set (.mon m) i' = .one (.mon m) i' b := View.one_set
  refine ⟨i'.2, eq.trans ?_, fewer, fun r => ?_⟩
  · rw [← data]
  · by_cases same : t = .proc r
    · exact fewer x r (own r same)
    · exact woken r same x rfl

theorem killedUnder_wp {next : Option (Chan M)} {unannounced : Bool} (clean : b.Clean)
    (apart : next ≠ some (.proc p)) :
    wp (kernelMachine M) (kOutline A) (.proc p) (killed p next unannounced)
      (fun k v => (k = true ∧ (A.prompt → unannounced = false) ∧ v = .one (.mon m) i b) ∨
        (k = false ∧ v = .one (.mon m) i { b with window := next })) (.one (.mon m) i b) := by
  have same : b.notes.catch p next = b.notes := if_neg apart
  have other : (View.one (.mon m) i b).held (.proc p) = none := View.one_other (by simp)
  have done := killed_wp (A := A) (v := .one (.mon m) i b) next unannounced rfl clean other
  rw [show (View.one (.mon m) i b).mine.notes = b.notes from rfl, same] at done
  exact done

theorem sleepUnder_wp {x : M.Chan m} {w : Option (Chan M)} (clean : b.Clean) (stays : b.leaving = false)
    (free : A.Free (.mon m) (i.1, fun y => update (i.2 y) p (decide (x = y))))
    (wary : A.wary (.mon m x) → w = some (.mon m x)) :
    wp (kernelMachine M) (kOutline A) (.proc p) (sleep p (.mon m x) (.mon m))
      (fun _ v => ∃ i', A.Free (.mon m) i' ∧ (∀ y, i'.2 y p = false) ∧ v = .one (.mon m) i' b)
      (.one (.mon m) i { b with window := w }) := by
  refine wp_mono (fun _ v done => ?_) (sleep_wp (b := { b with window := w }) (i := i) (.mon m x) clean.picked
    clean.chan clean.bed stays ?_ wary)
  · obtain ⟨i', free', own, rfl⟩ := done
    refine ⟨i', free', own, ?_⟩
    rw [← clean.window]
    rfl
  · have eq : Info.doze (M := M) (l := .mon m) i (.mon m x) p =
      (i.1, fun y => update (i.2 y) p (decide (x = y))) := by
      refine congrArg (Prod.mk i.1) (funext fun y => ?_)
      refine congrArg (update (i.2 y) p) (decide_eq_decide.mpr ?_)
      constructor
      · intro same
        cases same
        rfl
      · rintro rfl
        rfl
    exact eq ▸ free

end Xv6
