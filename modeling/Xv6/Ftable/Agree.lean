import Xv6.Ftable.Machine
import Xv6.Lib.Agree
import Xv6.Pages.Effects

/-! `fork`, `exit` and `wait` do with open files what they do in the model with memory. -/

namespace Xv6.Ftable
open Threads Function
open Pages (Phase phase phase_unused phase_zombie cleared freeSlot fork_effect exit_effect wait_effect
  freeSlot_unused zombieChild_some)

def Status.phase : Status → Phase
  | .unused => .unused
  | .zombie => .zombie
  | _ => .live

theorem Status.phase_unused {status : Status} : status.phase = .unused ↔ status = .unused := by
  cases status <;> simp [Status.phase]

theorem Status.phase_zombie {status : Status} : status.phase = .zombie ↔ status = .zombie := by
  cases status <;> simp [Status.phase]

theorem Status.phase_update (status : ProcId → Status) (p : ProcId) (new : Status) :
    (update status p new p).phase = new.phase := by rw [update_self]

/-- The descriptors of an entry, and whether it is in use. -/
structure SameSlot (slot : Fork.Slot) (s : FtState) (p : ProcId) : Prop where
  status : (s.status p).phase = phase slot.state
  ofile (fd) : (s.ofile p fd).map Fin.val = slot.ofile fd

structure SameFiles (k : Fork.Kernel) (s : FtState) : Prop where
  slot (p) : SameSlot (k.proc p) s p
  ref (f : FileId) : ((s.file f).ref : Int) = k.fileRef f

/-- A choice for a step that leaves nothing to its environment, or whose allocation succeeds. -/
def idle : FtChoice := ⟨true, 0, initproc, 0, .free, 0⟩

section Agree

variable {k k' : Fork.Kernel} {s s' : FtState} {p q np : ProcId} {slot : Fork.Slot}
  {f : FileId} {c : FtChoice}

/-- The entry has changed in both. -/
theorem SameFiles.put (same : SameFiles k s) (proc : k'.proc = update k.proc p slot)
    (here : SameSlot slot s' p)
    (others : ∀ q, q ≠ p → s'.status q = s.status q ∧ s'.ofile q = s.ofile q)
    (ref : ∀ f : FileId, ((s'.file f).ref : Int) = k'.fileRef f) : SameFiles k' s' := by
  refine ⟨fun q => ?_, ref⟩
  by_cases eq : q = p
  · rw [eq, proc, update_self]
    exact here
  · obtain ⟨status, ofile⟩ := others q eq
    have old := same.slot q
    rw [proc, update_of_ne eq]
    exact ⟨status ▸ old.status, ofile ▸ old.ofile⟩

theorem SameFiles.count (same : SameFiles k s) (p : ProcId) (f : FileId) (l : List Fd) :
    l.countP (fun fd => (k.proc p).ofile fd = some f.val) = l.countP fun fd => s.ofile p fd = some f := by
  refine List.countP_congr fun fd _ => ?_
  have file := (same.slot p).ofile fd
  rw [decide_eq_true_iff, decide_eq_true_iff, ← file]
  cases s.ofile p fd with
  | none => simp
  | some g => simp [Fin.val_inj]

/-- The loop of `fork` over the open files. -/
theorem dupFiles_finish (other : p ≠ np) (l : List Fd) (held : ∀ fd ∈ l, ∀ f, s.ofile p fd = some f →
      0 < (s.file f).ref) :
    ∃ s', (Prog.forEach (fun fd => do
        whenSome (← (FtAct.ofile fd).run) fun f => do
          (FtAct.filedup f).run
          (FtAct.setOfile np fd f).run) l).Finishes ftMachine p s () s' ∧
      s'.status = s.status ∧ (∀ q, q ≠ np → s'.ofile q = s.ofile q) ∧
      (∀ fd, s'.ofile np fd = if fd ∈ l then (s.ofile p fd).or (s.ofile np fd) else s.ofile np fd) ∧
      ∀ f, (s'.file f).ref = (s.file f).ref + l.countP fun fd => s.ofile p fd = some f := by
  induction l generalizing s with
  | nil => exact ⟨s, .pure, rfl, fun _ _ => rfl, fun _ => rfl, fun _ => rfl⟩
  | cons fd l ih =>
    have next : ∀ fd' ∈ l, ∀ f, s.ofile p fd' = some f → 0 < (s.file f).ref :=
      fun fd' member => held fd' (List.mem_cons_of_mem _ member)
    cases file : s.ofile p fd with
    | none =>
      have first : ftMachine p idle (.ofile fd) s = .ok none s := congrArg (Outcome.ok · s) file
      obtain ⟨s', run, status, others, ofile, ref⟩ := ih next
      refine ⟨s', .bind (.seq idle first .pure) run, status, others, fun fd' => ?_, fun f => ?_⟩
      · rw [ofile]
        by_cases here : fd' = fd <;> simp [here, file]
      · rw [ref, List.countP_cons]
        simp [file]
    | some f =>
      let s₁ : FtState := s.setFile f { s.file f with ref := (s.file f).ref + 1 } (p :: s.users f) (s.maker f)
      let s₂ : FtState := { s₁.setFd np fd (some f) with
          users := update s₁.users f (np :: (s₁.users f).erase p) }
      have first : ftMachine p idle (.ofile fd) s = .ok (some f) s := congrArg (Outcome.ok · s) file
      have dup : ftMachine p idle (.filedup f) s = .ok () s₁ :=
        if_neg (by have := held fd (List.mem_cons_self ..) f file; omega)
      have parent : s₂.ofile p = s.ofile p := update_of_ne other ..
      have child (fd' : Fd) : s₂.ofile np fd' = if fd' = fd then some f else s.ofile np fd' := by
        show update s.ofile np (update (s.ofile np) fd (some f)) np fd' = _
        rw [update_self]
        exact update_apply ..
      have refs (f' : FileId) : (s₂.file f').ref = (s.file f').ref + if f' = f then 1 else 0 := by
        show (update s.file f { s.file f with ref := (s.file f).ref + 1 } f').ref = _
        by_cases here : f' = f
        · rw [here, update_self, if_pos rfl]
        · rw [update_of_ne here, if_neg here, Nat.add_zero]
      obtain ⟨s', run, status, others, ofile, ref⟩ := ih (s := s₂) fun fd' member f' there => by
        have old := next fd' member f' (parent ▸ there)
        rw [refs]
        omega
      refine ⟨s', .bind (.seq idle first (.seq idle dup (.step idle rfl))) run, status,
        fun q apart => (others q apart).trans (update_of_ne apart ..), fun fd' => ?_, fun f' => ?_⟩
      · rw [ofile, parent, child]
        by_cases here : fd' = fd
        · rw [here, file, if_pos rfl, if_pos (List.mem_cons_self ..)]
          cases s.ofile p fd <;> simp
        · simp [here]
      · rw [ref, refs, parent, List.countP_cons, file]
        by_cases here : f' = f
        · simp [here]
          omega
        · simp [here, Ne.symm here]

theorem SameFiles.find (same : SameFiles k s) (p : ProcId) (first : freeSlot k = some np) :
    ftMachine p { idle with proc := np } .allocproc s = .ok (some np) (s.setStatus np (.used p)) := by
  have unused := Status.phase_unused.mp ((same.slot np).status.trans
    (phase_unused.mpr (freeSlot_unused first)))
  show (if (true && decide (s.status np = .unused)) then _ else _) = _
  rw [unused]
  rfl

/-- The results differ in how they name the child. -/
theorem fork_agrees (same : SameFiles k s) (used : (k.proc p).state ≠ .unused) :
    Gives (Fork.fork p) k fun r k' =>
    ∃ child s', Ftable.fork.Finishes ftMachine p s child s' ∧ SameFiles k' s' ∧
      match child with
      | none => r = -1
      | some np => r = (k'.proc np).pid := by
  refine (fork_effect used).mono fun r k' forks => ?_
  unfold Ftable.fork
  cases forks with
  | full _ proc _ fileRef =>
    exact ⟨none, s, .seq { idle with ok := false } rfl .pure,
      ⟨fun q => proc ▸ same.slot q, fun f => (same.ref f).trans (by rw [fileRef])⟩, rfl⟩
  | @failed np slot first proc ofile _ _ fileRef =>
    refine ⟨none, _, .seq { idle with proc := np } (same.find p first) (.seq { idle with ok := false } rfl
      (.seq idle rfl .pure)), ?_, rfl⟩
    refine same.put proc ⟨?_, fun fd => ?_⟩ (fun q other => ⟨?_, rfl⟩) fun f => ?_
    · exact Status.phase_update ..
    · exact ((same.slot np).ofile fd).trans (congrFun ofile fd).symm
    · exact (update_of_ne other ..).trans (update_of_ne other ..)
    · rw [fileRef]
      exact same.ref f
  | @made np slot first proc child _ fileRef held =>
    have other : p ≠ np := fun same => used (same ▸ freeSlot_unused first)
    obtain ⟨s', run, status, others, ofile, ref⟩ := dupFiles_finish (s := s.setStatus np (.used p)) other
      (List.finRange NOFILE) fun fd _ f there => by
        have file := (same.slot p).ofile fd
        have pos := held fd f.val (by rw [← file]; exact congrArg (Option.map Fin.val) there)
        have ref := same.ref f
        show 0 < (s.file f).ref
        omega
    refine ⟨some np, s'.setStatus np .runnable, .seq { idle with proc := np }
      (same.find p first) (.seq idle rfl
      (.bind run (.seq idle rfl (.seq idle rfl .pure)))), ?_, ?_⟩
    · refine same.put proc ⟨?_, fun fd => ?_⟩ (fun q apart => ⟨?_, others q apart⟩) fun f => ?_
      · rw [child.state]
        exact Status.phase_update ..
      · show (s'.ofile np fd).map Fin.val = _
        rw [ofile, if_pos (List.mem_finRange fd), child.ofile, ← (same.slot p).ofile, ← (same.slot np).ofile]
        cases here : s.ofile p fd <;> simp [FtState.setStatus, here]
      · exact (update_of_ne apart ..).trans ((congrFun status q).trans (update_of_ne apart ..))
      · show ((s'.file f).ref : Int) = _
        rw [ref, fileRef, same.count]
        push_cast
        exact congrArg (· + _) (same.ref f)
    · show k.nextpid = (k'.proc np).pid
      rw [proc, update_self]
      exact child.pid.symm

/-- A `wait` that finds a child is a `reap`, and the others change nothing. -/
theorem wait_agrees (same : SameFiles k s) (addr : Nat) : Gives (Pages.wait p addr) k fun _ k' =>
    SameFiles k' s ∨ ∃ s', FtAct.reap.run.Finishes ftMachine p s () s' ∧ SameFiles k' s' := by
  refine (wait_effect addr).mono fun _ k' effect => ?_
  obtain ⟨-, fileRef, waits⟩ := effect
  cases waits with
  | @reaped pp child proc =>
    have found : s.status pp = .zombie := Status.phase_zombie.mp
      ((same.slot pp).status.trans (phase_zombie.mpr (zombieChild_some child).2))
    have reaped : ftMachine p { idle with proc := pp } .reap s = .ok () (s.setStatus pp .unused) :=
      if_pos found
    refine .inr ⟨_, .step _ reaped, same.put proc ⟨?_, (same.slot pp).ofile⟩
      (fun q other => ⟨?_, rfl⟩) fun f => ?_⟩
    · exact Status.phase_update ..
    · exact update_of_ne other ..
    · rw [fileRef]
      exact same.ref f
  | refused _ _ proc | stops _ _ proc | sleeps _ proc =>
    exact .inl ⟨fun q => proc ▸ same.slot q, fun f => fileRef ▸ same.ref f⟩

theorem pipeclose_finish (pi : PageId) (writable : Bool) :
    ∃ s', (pipeclose pi writable).Finishes ftMachine p s () s' ∧
    s'.status = s.status ∧ s'.ofile = s.ofile ∧ s'.file = s.file := by
  obtain ⟨last, s₁, shut, status, ofile, file⟩ : ∃ last s₁,
    ftMachine p idle (.closeEnd pi writable) s = .ok last s₁ ∧
    s₁.status = s.status ∧ s₁.ofile = s.ofile ∧ s₁.file = s.file := ⟨_, _, rfl, rfl, rfl, rfl⟩
  cases last with
  | false => exact ⟨s₁, .seq idle shut .pure, status, ofile, file⟩
  | true => exact ⟨_, .seq idle shut (.step idle rfl), status, ofile, file⟩

/-- The last holder of a pipe closes its end, and the last of an inode gives it up. -/
theorem fileclose_finish (held : 0 < (s.file f).ref) : ∃ s', (fileclose f).Finishes ftMachine p s () s' ∧
    s'.status = s.status ∧ s'.ofile = s.ofile ∧ ∀ g, (s'.file g).ref + (if f = g then 1 else 0) =
    (s.file g).ref := by
  have counts (new : File) (ref : new.ref + 1 = (s.file f).ref) (g : FileId) :
      (update s.file f new g).ref + (if f = g then 1 else 0) = (s.file g).ref := by
    by_cases here : g = f
    · rw [here, update_self, if_pos rfl, ref]
    · rw [update_of_ne here, if_neg (Ne.symm here), Nat.add_zero]
  by_cases shared : (s.file f).ref - 1 > 0
  · have step : ftMachine p idle (.unref f) s = .ok none
        (s.setFile f { s.file f with ref := (s.file f).ref - 1 } ((s.users f).erase p) (s.maker f)) :=
      (if_neg (by omega)).trans (if_pos shared)
    refine ⟨_, .seq idle step .pure, rfl, rfl, counts _ ?_⟩
    show (s.file f).ref - 1 + 1 = _
    omega
  · have step : ftMachine p idle (.unref f) s = .ok (some { s.file f with ref := (s.file f).ref - 1 })
        (s.lastUnref p f) := (if_neg (by omega)).trans (if_neg shared)
    obtain ⟨status, ofile, file⟩ : (s.lastUnref p f).status = s.status ∧ (s.lastUnref p f).ofile = s.ofile ∧
        (s.lastUnref p f).file = update s.file f { s.file f with ref := 0, type := .none } := by
      unfold FtState.lastUnref
      dsimp only
      split <;> exact ⟨rfl, rfl, rfl⟩
    have ref (g : FileId) : ((s.lastUnref p f).file g).ref + (if f = g then 1 else 0) = (s.file g).ref := by
      rw [file]
      refine counts _ ?_ g
      show 0 + 1 = (s.file f).ref
      omega
    cases type : (s.file f).type with
    | pipe =>
      obtain ⟨s', run, status', ofile', file'⟩ :=
        pipeclose_finish (p := p) (s := s.lastUnref p f) (s.file f).pipe
        (s.file f).writable
      refine ⟨s', .seq idle step ?_, status'.trans status, ofile'.trans ofile, fun g => file' ▸ ref g⟩
      dsimp only
      rw [type]
      exact run
    | none =>
      refine ⟨s.lastUnref p f, .seq idle step ?_, status, ofile, ref⟩
      dsimp only
      rw [type]
      exact .pure
    | inode | device =>
      refine ⟨{ s.lastUnref p f with ops := (p :: (s.lastUnref p f).ops).erase p }, .seq idle step ?_,
        status, ofile, ref⟩
      dsimp only
      rw [type]
      exact .seq idle rfl (.seq idle rfl (.step idle rfl))

/-- The loop of `exit` over the open files. -/
theorem closeFiles_finish (l : List Fd) (distinct : l.Nodup)
    (held : ∀ f, l.countP (fun fd => s.ofile p fd = some f) ≤ (s.file f).ref) :
    ∃ s', (Prog.forEach (fun fd => do
        whenSome (← (FtAct.ofile fd).run) fun f => do
          fileclose f
          (FtAct.clear fd).run) l).Finishes ftMachine p s () s' ∧
      s'.status = s.status ∧ (∀ q, q ≠ p → s'.ofile q = s.ofile q) ∧
      (∀ fd, s'.ofile p fd = if fd ∈ l then none else s.ofile p fd) ∧
      ∀ f, (s'.file f).ref + l.countP (fun fd => s.ofile p fd = some f) = (s.file f).ref := by
  induction l generalizing s with
  | nil => exact ⟨s, .pure, rfl, fun _ _ => rfl, fun _ => rfl, fun _ => rfl⟩
  | cons fd l ih =>
    obtain ⟨fresh, distinct⟩ := List.nodup_cons.mp distinct
    have total (f : FileId) : l.countP (fun fd => s.ofile p fd = some f) +
        (if s.ofile p fd = some f then 1 else 0) ≤
        (s.file f).ref := by
      have all := held f
      rw [List.countP_cons] at all
      simpa using all
    cases file : s.ofile p fd with
    | none =>
      have first : ftMachine p idle (.ofile fd) s = .ok none s := congrArg (Outcome.ok · s) file
      obtain ⟨s', run, status, others, ofile, ref⟩ :=
        ih distinct fun f => (Nat.le_add_right ..).trans (total f)
      refine ⟨s', .bind (.seq idle first .pure) run, status, others, fun fd' => ?_, fun f => ?_⟩
      · rw [ofile]
        by_cases here : fd' = fd <;> simp [here, file]
      · rw [List.countP_cons, file]
        exact ref f
    | some f =>
      have first : ftMachine p idle (.ofile fd) s = .ok (some f) s := congrArg (Outcome.ok · s) file
      obtain ⟨s₁, closed, status₁, ofile₁, ref₁⟩ := fileclose_finish (p := p) (s := s) (f := f) (by
        have := total f
        rw [file, if_pos rfl] at this
        omega)
      let s₂ := s₁.setFd p fd none
      have mine (fd' : Fd) : s₂.ofile p fd' = if fd' = fd then none else s.ofile p fd' := by
        show update s₁.ofile p (update (s₁.ofile p) fd none) p fd' = _
        rw [update_self, ofile₁]
        exact update_apply ..
      have same (g : FileId) : l.countP (fun fd' => s₂.ofile p fd' = some g) = l.countP fun fd' =>
        s.ofile p fd' = some g :=
        List.countP_congr fun fd' member => by
          have apart : fd' ≠ fd := fun here => fresh (here ▸ member)
          rw [mine, if_neg apart]
      obtain ⟨s', run, status, others, ofile, ref⟩ := ih (s := s₂) distinct fun g => by
        have all := total g
        have less := ref₁ g
        rw [file] at all
        simp only [Option.some.injEq] at all
        rw [same]
        show _ ≤ (s₁.file g).ref
        omega
      refine ⟨s', .bind (.seq idle first (.bind closed (.step idle rfl))) run, status.trans status₁,
        fun q apart => ?_,
        fun fd' => ?_, fun g => ?_⟩
      · exact (others q apart).trans ((update_of_ne apart ..).trans (congrFun ofile₁ q))
      · rw [ofile, mine]
        by_cases here : fd' = fd <;> simp [here]
      · have rest := ref g
        have less := ref₁ g
        rw [same] at rest
        rw [List.countP_cons, file]
        simp only [Option.some.injEq, decide_eq_true_eq]
        have middle : s₂.file g = s₁.file g := rfl
        rw [middle] at rest
        omega

theorem exit_agrees (same : SameFiles k s) (status : Int) : Gives (Pages.exit p status) k fun _ k' =>
    ∃ s', (Ftable.exit p).Finishes ftMachine p s () s' ∧ SameFiles k' s' := by
  refine (exit_effect status).mono fun _ k' effect => ?_
  obtain ⟨other, exits, shut, fileRef, kept⟩ := effect
  have refs (f : FileId) : k'.fileRef f + (List.finRange NOFILE).countP (fun fd => s.ofile p fd = some f) =
      (s.file f).ref := by
    rw [same.ref, ← fileRef, ← same.count]
  have held (f : FileId) : (List.finRange NOFILE).countP (fun fd => s.ofile p fd = some f) ≤
    (s.file f).ref := by
    by_cases opens : ∃ fd, s.ofile p fd = some f
    · obtain ⟨fd, here⟩ := opens
      have pos := kept fd f (by rw [← (same.slot p).ofile, here]; rfl)
      have ref := refs f
      omega
    · rw [List.countP_eq_zero.mpr fun fd _ here => opens ⟨fd, of_decide_eq_true here⟩]
      exact Nat.zero_le _
  obtain ⟨s₁, run, status₁, others, ofile, ref⟩ := closeFiles_finish _ (List.nodup_finRange _) held
  unfold Ftable.exit
  rw [if_neg other]
  refine ⟨_, .bind run (.seq idle rfl (.seq idle rfl (.seq idle rfl (.step idle rfl)))),
    fun q => ?_, fun f => ?_⟩
  · have old := same.slot q
    by_cases here : q = p
    · subst here
      refine ⟨?_, fun fd => ?_⟩
      · rw [exits.zombie]
        exact Status.phase_update ..
      · show (s₁.ofile q fd).map Fin.val = _
        rw [shut, ofile, if_pos (List.mem_finRange fd)]
        rfl
    · have status : (FtState.setStatus _ p .zombie).status q = s.status q :=
        (update_of_ne here ..).trans (congrFun status₁ q)
      rw [exits.others here]
      refine ⟨(congrArg Status.phase status).trans old.status, fun fd => ?_⟩
      show (s₁.ofile q fd).map Fin.val = _
      rw [others q here]
      exact old.ofile fd
  · have before := refs f
    have after := ref f
    show ((s₁.file f).ref : Int) = _
    omega

end Agree

end Xv6.Ftable
