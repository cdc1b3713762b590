import Mathlib.Algebra.BigOperators.Group.Finset.Sigma
import Mathlib.Data.Fintype.BigOperators
import Xv6.Ftable.Calls

namespace Xv6.Ftable
open Threads Function

variable {t : ProcId} {v : FtView} {x : FtConfig}

/-- Between two calls a process that runs has nothing in its hands but its descriptors. -/
def Idle (_ : ProcId) (v : FtView) : Prop := v.running = true → v.Clean

theorem Syscall.code_wp {s : FtState} {call : ProcId × Syscall} (idle : Idle t (s.view t))
    (legal : ftCalls.legal t s call) :
    wp ftMachine ftOutline t (ftCalls.code call) (fun _ => Idle t) (s.view t) := by
  obtain ⟨p, call⟩ := call
  obtain ⟨rfl, legal⟩ := legal
  have stays : ∀ v : FtView, v.Clean → Idle p v := fun _ clean _ => clean
  cases call with
  | forkret =>
    have idle : s.status p ≠ .running := legal
    have away : s.view p = .away := if_neg idle
    rw [away]
    exact wp_mono (fun _ v clean => stays v clean) forkret_wp
  | sysOpen omode =>
    exact wp_seq (sysOpen_wp (idle (FtState.view_running.mpr legal))) fun _ v clean => stays v clean
  | sysDup n => exact wp_seq (sysDup_wp (idle (FtState.view_running.mpr legal))) fun _ v clean => stays v clean
  | sysPipe => exact wp_seq (sysPipe_wp (idle (FtState.view_running.mpr legal))) fun _ v clean => stays v clean
  | sysClose n => exact wp_seq (sysClose_wp (idle (FtState.view_running.mpr legal))) fun _ v clean => stays v clean
  | fork => exact wp_seq (fork_wp (idle (FtState.view_running.mpr legal))) fun _ v clean => stays v clean
  | exit =>
    refine wp_mono (fun _ v gone => ?_) (exit_wp (idle (FtState.view_running.mpr legal)))
    rw [gone]
    exact fun running => by cases running
  | wait =>
    have clean := idle (FtState.view_running.mpr legal)
    refine wp_mono (fun _ v same => ?_) (reap_wp clean.running)
    rw [same]
    exact stays _ clean

theorem ftReach_holds (run : Reach ftMachine (fun _ _ _ => True) ftCalls ftStart x) :
    ftOutline.Holds ftMachine Idle x := by
  refine Outline.Holds.reach ftOutline_isolated (fun t s call _ idle legal => Syscall.code_wp idle legal)
    ⟨?_, fun t => ?_⟩ run
  · refine ⟨⟨fun f => rfl, fun f _ => rfl, fun f t made => (by cases made)⟩,
      ⟨fun k w f => ?_, fun k _ alloc => (by cases alloc), fun k _ w => rfl, fun k owned => absurd rfl owned,
        fun k _ alloc => (by cases alloc), fun k => rfl⟩, fun q _ f => (fds_none f).symm,
        fun q _ => rfl, fun q _ => ?_⟩
    · constructor
      · intro eq; cases eq
      · intro isEnd; cases isEnd.1
    · refine ⟨by simp [ftStart, boot], fun f made => (by cases made), fun k w hand => (by cases hand),
        fun k owned => (by cases owned), fun r used => ?_⟩
      have : (if r = initproc then Status.running else .unused) = .used q := used
      split at this <;> cases this
  · refine wp_pure.mpr fun running => ?_
    have running : ftStart.shared.status t = .running := FtState.view_running.mp running
    rw [show ftOutline.view t ftStart.shared = ftStart.shared.view t from rfl, FtState.view_of_running running]
    refine ⟨rfl, fun f => (fds_none f).symm, fun f => rfl, fun k w => rfl, fun k => rfl, rfl,
      fun q => if_neg ?_⟩
    intro used
    have : (if q = initproc then Status.running else .unused) = .used t := used
    split at this <;> cases this

/-- The references to a file are counted process by process. -/
theorem length_eq_sum_count (l : List ProcId) : l.length = ∑ p, l.count p := by
  induction l with
  | nil => simp
  | cons q rest ih =>
    simp only [List.count_cons, Finset.sum_add_distrib, List.length_cons, ih]
    simp

/-- In every run: a file's reference is counted for each process that has it in its descriptors or its
hands, a file without a reference has no type, `filedup` and `fileclose` do not panic, no transaction is
begun inside another one, and a page of a pipe is freed only while it is allocated and no file is an end
of it. Between two calls the reference count of a file is the number of its descriptors, and a page has
been allocated once more than freed exactly if a file is an end of its pipe. -/
theorem file_refs (run : Reach ftMachine (fun _ _ _ => True) ftCalls ftStart x) :
    (∀ f, (x.shared.file f).ref = 0 → (x.shared.file f).type = .none) ∧
    ¬ Panics ftMachine (fun _ _ _ => True) x "filedup" ∧
    ¬ Panics ftMachine (fun _ _ _ => True) x "fileclose" ∧
    (∀ t next, x.code t = .act .beginOp next → t ∉ x.shared.ops) ∧
    (∀ t pi next, x.code t = .act (.kfree pi) next → x.shared.allocated pi = true ∧
      ∀ f, (x.shared.file f).type = .pipe → (x.shared.file f).pipe ≠ pi) ∧
    ((∀ t, x.code t = pure ()) →
      (∀ f, (x.shared.file f).ref = ((Finset.univ : Finset (ProcId × Fd)).filter
        fun slot => x.shared.ofile slot.1 slot.2 = some f).card) ∧
      ∀ pi, x.shared.kallocs pi = x.shared.kfrees pi + if ∃ f, 0 < (x.shared.file f).ref ∧
        (x.shared.file f).type = .pipe ∧ (x.shared.file f).pipe = pi then 1 else 0) := by
  have holds := ftReach_holds run
  have inv : FtInv x.shared := holds.inv
  have noPanic : ∀ message, message ≠ "init exiting" → ¬ Panics ftMachine (fun _ _ _ => True) x message := by
    intro message other stop
    obtain ⟨t, a, next, _, allowed⟩ := holds.panics stop
    exact other allowed
  have : Nonempty FtChoice := ⟨⟨true, 0, initproc, 0, .free, 0⟩⟩
  refine ⟨fun f none => inv.bare f ?_, noPanic _ (by decide), noPanic _ (by decide),
    fun t next atBegin => holds.owes atBegin,
    fun t pi next atFree => holds.owes atFree, fun rest => ?_⟩
  · exact List.eq_nil_of_length_eq_zero (by rw [← inv.refs, none])
  have clean : ∀ t, x.shared.status t = .running → (x.shared.view t).Clean := by
    intro t running
    have code := holds.code t
    rw [rest t] at code
    exact code (FtState.view_running.mpr running)
  have counts : ∀ t f, (x.shared.users f).count t = fds (x.shared.ofile t) f := by
    intro t f
    by_cases running : x.shared.status t = .running
    · have refs := (clean t running).refs f
      rw [FtState.view_of_running running] at refs
      exact refs
    · exact inv.slots t running f
  have noHand : ∀ k w t, x.shared.ends k w ≠ .hand t := by
    intro k w t
    by_cases running : x.shared.status t = .running
    · have hand := (clean t running).hand k w
      rw [FtState.view_of_running running] at hand
      simpa using hand
    · exact (inv.quiet t running).2.2.1 k w
  have noOwner : ∀ k, x.shared.owner k = none := by
    intro k
    cases owned : x.shared.owner k with
    | none => rfl
    | some t =>
      by_cases running : x.shared.status t = .running
      · have owns := (clean t running).owns k
        rw [FtState.view_of_running running] at owns
        simp [owned] at owns
      · exact absurd owned ((inv.quiet t running).2.2.2.1 k)
  refine ⟨fun f => ?_, fun k => ?_⟩
  · rw [inv.refs, length_eq_sum_count, Finset.card_filter, Fintype.sum_prod_type]
    exact Finset.sum_congr rfl fun p _ => counts p f
  · rw [inv.count]
    -- An allocated page has an end that is not shut, and nobody has it in his hands.
    refine congrArg (x.shared.kfrees k + ·) (if_congr ⟨fun alloc => ?_, ?_⟩ rfl rfl)
    · obtain ⟨w, open'⟩ := inv.live k (noOwner k) alloc
      cases at' : x.shared.ends k w with
      | shut => exact absurd at' open'
      | hand t => exact absurd at' (noHand k w t)
      | file f =>
        obtain ⟨type, pipe, _⟩ := (inv.ends k w f).mp at'
        refine ⟨f, Nat.pos_of_ne_zero fun none => ?_, type, pipe⟩
        rw [inv.bare f (List.eq_nil_of_length_eq_zero (by rw [← inv.refs, none]))] at type
        cases type
    · rintro ⟨f, _, type, pipe⟩
      have atEnd := (inv.ends k _ f).mpr ⟨type, pipe, rfl⟩
      exact (inv.toPipeInv.used (w := (x.shared.file f).writable) (by rw [atEnd]; simp)).2

/-- The choice of a step that succeeds. -/
def succeeds : FtChoice := ⟨true, 0, initproc, 0, .file, 0⟩

/-- The first process makes a pipe and closes its reading end. -/
def halfClosed : List (Move ProcId FtChoice (ProcId × Syscall)) :=
  .call initproc (initproc, .sysPipe) :: List.replicate 10 (.act initproc succeeds) ++
    .call initproc (initproc, .sysClose 0) :: List.replicate 4 (.act initproc succeeds)

theorem file_refs_halfClosed : ∃ x : FtConfig, x.shared.kallocs 0 = 1 ∧ x.shared.kfrees 0 + (if
    ∃ f, 0 < (x.shared.file f).ref ∧ (x.shared.file f).type = .pipe ∧ (x.shared.file f).pipe =
    0 then 1 else 0) = 1 := by
  obtain ⟨x, run, found⟩ := Option.map_eq_some_iff.mp
    (show (drive ftMachine (fun _ _ _ => True) ftCalls halfClosed ftStart).map (fun x =>
      (x.shared.kallocs 0, (List.finRange NPROC).all fun t => match x.code t with
        | .ret () => true
        | .act _ _ => false)) = some (1, true) by decide +kernel)
  simp only [Prod.mk.injEq, List.all_eq_true] at found
  have rest : ∀ t, x.code t = pure () := by
    intro t
    have idle := found.2 t (List.mem_finRange t)
    cases code : x.code t with
    | ret value => rfl
    | act a next => rw [code] at idle; cases idle
  have count := ((file_refs (drive_reach run)).2.2.2.2.2 rest).2 0
  exact ⟨x, found.1, count.symm.trans found.1⟩

end Xv6.Ftable
