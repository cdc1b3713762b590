import Xv6.Ftable.Machine

namespace Xv6.Ftable
open Threads Function

/-- How many descriptors of a process hold a file. -/
def fds (ofile : Fd → Option FileId) (f : FileId) : Nat := ∑ fd, if ofile fd = some f then 1 else 0

theorem fds_update (ofile : Fd → Option FileId) (fd : Fd) (new : Option FileId) (f : FileId) :
    fds (update ofile fd new) f + (if ofile fd = some f then 1 else 0) =
      fds ofile f + if new = some f then 1 else 0 := by
  unfold fds
  rw [← Finset.add_sum_erase _ _ (Finset.mem_univ fd), ← Finset.add_sum_erase _ _ (Finset.mem_univ fd)]
  have rest : ∑ x ∈ Finset.univ.erase fd, (if update ofile fd new x = some f then 1 else 0) =
      ∑ x ∈ Finset.univ.erase fd, if ofile x = some f then 1 else 0 := by
    refine Finset.sum_congr rfl fun x member => ?_
    rw [update_of_ne (Finset.ne_of_mem_erase member)]
  rw [rest, update_self]
  omega

@[simp] theorem fds_none (f : FileId) : fds (fun _ => none) f = 0 := by simp [fds]

/-- A file is the end of a pipe. -/
def FtState.IsEnd (s : FtState) (f : FileId) (pi : PageId) (writable : Bool) : Prop :=
  (s.file f).type = .pipe ∧ (s.file f).pipe = pi ∧ (s.file f).writable = writable

/-- The references are those that the processes hold; a file without one has no type, and neither has a
file that its only holder has not yet filled in. -/
structure FileInv (s : FtState) : Prop where
  refs : ∀ f, (s.file f).ref = (s.users f).length
  bare : ∀ f, s.users f = [] → (s.file f).type = .none
  blank : ∀ f t, s.maker f = some t → s.users f = [t] ∧ (s.file f).type = .none

/-- A page is allocated as long as one of its ends is not shut, or a process has it to itself. -/
structure PipeInv (s : FtState) : Prop where
  ends : ∀ k w f, s.ends k w = .file f ↔ s.IsEnd f k w
  flags : ∀ k, s.owner k = none → s.allocated k = true → ∀ w, (s.page k).isOpen w = true ↔ s.ends k w ≠ .shut
  shut : ∀ k, s.owner k ≠ none ∨ s.allocated k = false → ∀ w, s.ends k w = .shut
  owned : ∀ k, s.owner k ≠ none → s.allocated k = true
  live : ∀ k, s.owner k = none → s.allocated k = true → ∃ w, s.ends k w ≠ .shut
  count : ∀ k, s.kallocs k = s.kfrees k + if s.allocated k = true then 1 else 0

/-- A process that does not run holds what its descriptors say and nothing else. -/
structure ProcInv (s : FtState) : Prop where
  slots : ∀ q, s.status q ≠ .running → ∀ f, (s.users f).count q = fds (s.ofile q) f
  empty : ∀ q, s.status q = .unused ∨ s.status q = .zombie → s.ofile q = fun _ => none
  quiet : ∀ q, s.status q ≠ .running → q ∉ s.ops ∧ (∀ f, s.maker f ≠ some q) ∧ (∀ k w, s.ends k w ≠ .hand q) ∧
    (∀ k, s.owner k ≠ some q) ∧ ∀ r, s.status r ≠ .used q

/-- What holds of the file table between any two steps. -/
structure FtInv (s : FtState) : Prop extends FileInv s, PipeInv s, ProcInv s

/-- What a running process may rely on between its steps: its references, the files that it has allocated and
not yet filled in, the ends and pages it has in its hands, whether it is inside a transaction, its
descriptors, and those of a child it is making. -/
@[ext] structure FtView where
  running : Bool
  mine : FileId → Nat
  blank : FileId → Bool
  hand : PageId → Bool → Bool
  owns : PageId → Bool
  op : Nat
  ofile : Fd → Option FileId
  child : ProcId → Option (Fd → Option FileId)

/-- The view of a process that does not run. -/
def FtView.away : FtView := ⟨false, fun _ => 0, fun _ => false, fun _ _ => false, fun _ => false,
      0, fun _ => none, fun _ => none⟩

def FtState.view (t : ProcId) (s : FtState) : FtView :=
  if s.status t = .running then {
    running := true
    mine f := (s.users f).count t
    blank f := s.maker f = some t
    hand k w := s.ends k w = .hand t
    owns k := s.owner k = some t
    op := s.ops.count t
    ofile := s.ofile t
    child q := if s.status q = .used t then some (s.ofile q) else none }
  else .away

/-- What is owed before a step: a transaction is not begun inside another one, an end is closed on an
allocated page, and a page is freed that is allocated and that no file refers to. -/
def FtState.Owed (t : ProcId) (s : FtState) : FtAct → Prop
  | .beginOp => t ∉ s.ops
  | .closeEnd pi _ => s.allocated pi = true
  | .kfree pi => s.allocated pi = true ∧ ∀ f, (s.file f).type = .pipe → (s.file f).pipe ≠ pi
  | _ => True

def ftOutline : Outline ProcId FtState FtView FtAct where
  inv := FtInv
  view := FtState.view
  guar t before after := ∀ other, other ≠ t → after.view other = before.view other
  allowed _ _ _ := True
  owes t a s := s.Owed t a
  mayPanic _ _ _ message := message = "init exiting"

theorem ftOutline_isolated : ftOutline.Isolated := fun _ _ _ h => h

variable {s : FtState} {t : ProcId} {v : FtView}

theorem FtState.view_running : (s.view t).running = true ↔ s.status t = .running := by
  unfold FtState.view
  split <;> simp_all [FtView.away]

/-- The view of a process that runs. -/
theorem FtState.view_of_running (running : s.status t = .running) : s.view t =
    ⟨true, fun f => (s.users f).count t, fun f => s.maker f = some t,
      fun k w => s.ends k w = .hand t, fun k => s.owner k = some t, s.ops.count t, s.ofile t,
      fun q => if s.status q = .used t then some (s.ofile q) else none⟩ := if_pos running

/-- The rule for one step of a running process. -/
theorem ftStep_wp {a : FtAct} {Q : a.Resp → FtView → Prop} (running : v.running = true)
    (h : ∀ s c, FtInv s → s.view t = v → s.status t = .running →
      s.Owed t a ∧ ftOutline.After t a s Q (ftMachine t c a s)) :
    wp ftMachine ftOutline t a.run Q v := by
  refine wp_step fun s c inv view => ?_
  have view : s.view t = v := view
  have now : s.status t = .running := FtState.view_running.mp (by rw [view]; exact running)
  obtain ⟨owed, after⟩ := h s c inv view now
  exact ⟨owed, fun _ => after⟩

/-- What another process relies on depends on its own part of the state. -/
theorem FtState.view_congr {s' : FtState} {q : ProcId} (runs : s'.status q = .running ↔ s.status q = .running)
    (users : ∀ f, (s'.users f).count q = (s.users f).count q)
    (maker : ∀ f, s'.maker f = some q ↔ s.maker f = some q)
    (ends : ∀ k w, s'.ends k w = .hand q ↔ s.ends k w = .hand q)
    (owner : ∀ k, s'.owner k = some q ↔ s.owner k = some q) (ops : s'.ops.count q = s.ops.count q)
    (ofile : s'.ofile q = s.ofile q) (used : ∀ r, s'.status r = .used q ↔ s.status r = .used q)
    (child : ∀ r, s.status r = .used q → s'.ofile r = s.ofile r) : s'.view q = s.view q := by
  by_cases running : s.status q = .running
  · rw [FtState.view_of_running running, FtState.view_of_running (runs.mpr running)]
    refine FtView.ext rfl (funext users) (funext fun f => ?_) (funext fun k => funext fun w => ?_)
      (funext fun k => ?_) ops ofile (funext fun r => ?_)
    · simp only [maker]
    · simp only [ends]
    · simp only [owner]
    · simp only [used]
      split
      next making => rw [child r making]
      next => rfl
  · unfold FtState.view
    rw [if_neg running, if_neg fun now => running (runs.mp now)]

end Xv6.Ftable
