import Xv6.Lib.Noted
import Xv6.Proc.Crew

namespace Xv6
open Threads Function

/-! ## Code that leaves the data of the monitors and the pids alone -/

variable {M : Monitors}

def KAct.Plain : KAct M → Prop
  | .write .. | .initProc .. | .freeProc _ | .reap .. => False
  | _ => True

theorem KAct.Plain.keep {a : KAct M} (plain : a.Plain) {s s' : Kernel M} {t : Tid}
    {choice : Nat} {answer : a.Resp}
    (step : kernelMachine M t choice a s = .ok answer s') :
    s'.data = s.data ∧ ∀ p, (s'.proc p).pid = (s.proc p).pid := by
  simp only [kernelMachine] at step
  cases seat : s.cpu t with
  | none =>
    rw [seat] at step
    cases step
  | some c =>
    rw [seat] at step
    replace step : s.act t c choice a = .ok answer s' := step
    have proc : ∀ (p : ProcId) (new : Proc M), new.pid = (s.proc p).pid →
        ∀ q, (update s.proc p new q).pid = (s.proc q).pid := by
      intro p new same q
      by_cases eq : q = p
      · subst eq
        rw [update_self, same]
      · rw [update_of_ne eq]
    cases a with
    | write _ _ => cases plain
    | initProc _ _ => cases plain
    | freeProc _ => cases plain
    | reap _ _ _ => cases plain
    | stuck => cases step
    | acquire l =>
      simp only [Kernel.act] at step
      split at step
      next => cases step
      next =>
        split at step
        next => cases step
        next => cases step; exact ⟨rfl, fun _ => rfl⟩
    | release l =>
      simp only [Kernel.act] at step
      split at step
      next => cases step
      next =>
        cases step
        unfold Kernel.look
        split
        next => exact ⟨rfl, fun _ => rfl⟩
        next => exact ⟨rfl, fun _ => rfl⟩
    | sleepRelease p l chan =>
      simp only [Kernel.act] at step
      split at step
      next => cases step
      next => cases step; exact ⟨rfl, fun _ => rfl⟩
    | swtch p =>
      simp only [Kernel.act] at step
      split at step
      next => cases step
      next =>
        split at step
        next => cases step
        next =>
          split at step
          next => cases step
          next => cases step; exact ⟨rfl, fun _ => rfl⟩
    | pick p =>
      simp only [Kernel.act] at step
      split at step
      next => cases step; exact ⟨rfl, proc p _ rfl⟩
      next => cases step; exact ⟨rfl, fun _ => rfl⟩
    | copyout p value =>
      simp only [Kernel.act] at step
      split at step
      next => cases step; exact ⟨rfl, fun _ => rfl⟩
      next => cases step; exact ⟨rfl, fun _ => rfl⟩
    | killProc p pid =>
      simp only [Kernel.act] at step
      split at step
      next => cases step; exact ⟨rfl, proc p _ rfl⟩
      next => cases step; exact ⟨rfl, fun _ => rfl⟩
    | getKilled p next unannounced =>
      simp only [Kernel.act] at step
      split at step
      next => cases step; exact ⟨rfl, fun _ => rfl⟩
      next => cases step; exact ⟨rfl, fun _ => rfl⟩
    | wakeProc p chan =>
      cases step
      refine ⟨rfl, fun q => ?_⟩
      show ((if _ then _ else _ : ProcId → Proc M) q).pid = _
      split
      · exact proc p { s.proc p with state := .runnable } rfl q
      · rfl
    | setRunnable p => cases step; exact ⟨rfl, proc p _ rfl⟩
    | setZombie p status => cases step; exact ⟨rfl, proc p _ rfl⟩
    | setSleeping p chan => cases step; exact ⟨rfl, proc p _ rfl⟩
    | clearChan p => cases step; exact ⟨rfl, proc p _ rfl⟩
    | setYield p => cases step; exact ⟨rfl, proc p _ rfl⟩
    | setKilled p => cases step; exact ⟨rfl, proc p _ rfl⟩
    | _ => cases step; exact ⟨rfl, fun _ => rfl⟩

abbrev KProg.Plain {α : Type} (code : KProg M α) : Prop := code.Each KAct.Plain

variable {p : ProcId} {t : Tid}

theorem run_plain {a : KAct M} (plain : a.Plain) : a.run.Plain := Prog.each_step plain

theorem rounds_plain {σ α : Type} {body : σ → KProg M (α ⊕ σ)} (plain : ∀ x, (body x).Plain)
    (n : Nat) (x : σ) :
    (rounds body n x).Plain := by
  induction n generalizing x with
  | zero => exact Prog.each_bind (run_plain trivial) fun nothing => (by cases nothing)
  | succ n ih =>
    refine Prog.each_bind (plain x) fun r => ?_
    cases r with
    | inl value => exact Prog.each_pure
    | inr next => exact ih next

theorem forever_plain {σ α : Type} {body : σ → KProg M (α ⊕ σ)} (plain : ∀ x, (body x).Plain) (x : σ) :
    (forever body x).Plain :=
  Prog.each_bind (run_plain trivial) fun n => rounds_plain plain n x

theorem yield_plain : (yield (M := M) p).Plain :=
  Prog.each_bind (run_plain trivial) fun _ => Prog.each_bind (run_plain trivial) fun _ =>
    Prog.each_bind (Prog.each_bind (run_plain trivial) fun _ => run_plain trivial) fun _ => run_plain trivial

theorem preempt_plain : (preempt (M := M) p).Plain :=
  Prog.each_bind (run_plain trivial) fun _ => Prog.each_forEach (fun _ => yield_plain) _

theorem sleep_plain {chan : Chan M} {lk : Lock M} : (sleep p chan lk).Plain :=
  Prog.each_bind (run_plain trivial) fun _ => Prog.each_bind (run_plain trivial) fun _ =>
    Prog.each_bind (run_plain trivial) fun _ =>
      Prog.each_bind (Prog.each_bind (run_plain trivial) fun _ => run_plain trivial) fun _ =>
        Prog.each_bind (run_plain trivial) fun _ => Prog.each_bind (run_plain trivial) fun _ =>
          Prog.each_bind preempt_plain fun _ => run_plain trivial

theorem wakeup_plain {chan : Chan M} : (wakeup t chan).Plain := by
  refine Prog.each_forEach (fun q => ?_) _
  by_cases other : t ≠ .proc q
  · rw [if_pos other]
    exact Prog.each_bind (run_plain trivial) fun _ => Prog.each_bind (run_plain trivial)
      fun _ => run_plain trivial
  · rw [if_neg other]
    exact Prog.each_pure

theorem killFrom_plain {pid : Int} (qs : List ProcId) : (killFrom (M := M) p pid qs).Plain := by
  induction qs with
  | nil => exact Prog.each_pure
  | cons q rest ih =>
    refine Prog.each_bind preempt_plain fun _ => Prog.each_bind (run_plain trivial) fun _ =>
      Prog.each_bind (run_plain trivial) fun found => ?_
    cases found with
    | true => exact Prog.each_bind (run_plain trivial) fun _ => Prog.each_pure
    | false => exact Prog.each_bind (run_plain trivial) fun _ => ih

theorem schedulerSlot_plain : (schedulerSlot (M := M) p).Plain := by
  refine Prog.each_bind (run_plain trivial) fun _ => Prog.each_bind (run_plain trivial) fun picked => ?_
  cases picked with
  | true =>
    exact Prog.each_bind (run_plain trivial) fun _ => Prog.each_bind (run_plain trivial)
      fun _ => run_plain trivial
  | false => exact run_plain trivial

theorem setkilled_plain : (setkilled (M := M) p).Plain :=
  Prog.each_bind (run_plain trivial) fun _ => Prog.each_bind (run_plain trivial) fun _ =>
    Prog.each_bind (run_plain trivial) fun _ => Prog.each_bind (run_plain trivial) fun _ => run_plain trivial

theorem kill_plain {pid : Int} : (kill (M := M) p pid).Plain :=
  Prog.each_bind (run_plain trivial) fun _ => Prog.each_bind (killFrom_plain _) fun _ =>
    Prog.each_bind (run_plain trivial) fun _ => Prog.each_pure

theorem Common.code_plain (e : Common) : (e.code : KProg M Unit).Plain := by
  cases e with
  | forkret p => exact Prog.each_bind (run_plain trivial) fun _ => run_plain trivial
  | exception p => exact setkilled_plain
  | timer p => exact yield_plain
  | kill p pid => exact Prog.each_bind kill_plain fun _ => Prog.each_pure
  | slot p => exact schedulerSlot_plain

end Xv6
