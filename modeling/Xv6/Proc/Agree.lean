import Xv6.Lib.Agree
import Xv6.Pages.Effects
import Xv6.Proc.Machine

/-! A process that no other one interrupts does with `kill`, `fork`, `wait` and `exit` what it does in the
model with memory. -/

namespace Xv6.Proc
open Threads Function
open Pages (Phase phase phase_unused phase_zombie Exits freeSlot zombieChild kill_effect fork_effect wait_effect
  exit_effect)

/-- What both models have of an entry of the process table. Which processes are asleep and which wait for a
processor is only in the one where they take turns. -/
structure Entry where
  phase : Phase
  killed : Bool
  xstate : Int
  pid : Int
  parent : Option ProcId

def Entry.blank : Entry := ⟨.unused, false, 0, 0, none⟩

/-- A process table. -/
structure Table where
  entry : ProcId → Entry
  nextpid : Int

def Table.put (T : Table) (q : ProcId) (e : Entry) : Table := { T with entry := update T.entry q e }

/-- `allocproc` up to where it needs memory. -/
def Table.take (T : Table) (q : ProcId) : Table :=
  ⟨update T.entry q { T.entry q with phase := .live, pid := T.nextpid }, (T.nextpid + 1).bmod (2 ^ 32)⟩

def Table.isChild (T : Table) (p pp : ProcId) : Bool := (T.entry pp).parent = some p

/-- A child that has exited. -/
def Table.isZombie (T : Table) (p pp : ProcId) : Bool :=
  decide ((T.entry pp).parent = some p ∧ (T.entry pp).phase = .zombie)

/-- An entry whose parent exits. -/
def Entry.orphan (p : ProcId) (e : Entry) : Entry :=
  if e.parent = some p then { e with parent := some initproc } else e

def Table.orphans (T : Table) (p : ProcId) (l : List ProcId) : Table :=
  ⟨fun q => if q ∈ l then (T.entry q).orphan p else T.entry q, T.nextpid⟩

def table {M : Monitors} (s : Kernel M) : Table where
  entry q := ⟨phase (s.proc q).state, (s.proc q).killed, (s.proc q).xstate, (s.proc q).pid, s.parent q⟩
  nextpid := s.nextpid

def entryOf (slot : Fork.Slot) : Entry :=
  ⟨phase slot.state, slot.killed ≠ 0, slot.xstate, slot.pid, slot.parent⟩

def tableOf (k : Fork.Kernel) : Table := ⟨fun q => entryOf (k.proc q), k.nextpid⟩

/-- Who runs where and with which locks, and the data that the locks of the monitors protect. -/
def locks {M : Monitors} (s : Kernel M) :
    (ProcId → Option Cpu) × (Lock M → Option Cpu) × (Cpu → Nat) × ((m : M.Lock) → M.Data m) :=
  (s.runs, s.holder, s.noff, s.data)

/-- The process runs on the processor with these locks; nobody has another one. -/
structure At {M : Monitors} (T : Table) (p : ProcId) (c : Cpu) (d : (m : M.Lock) → M.Data m)
    (held : List (Lock M)) (s : Kernel M) : Prop where
  table : table s = T
  data : s.data = d
  runs : s.runs p = some c
  holder (l) : s.holder l = if l ∈ held then some c else none
  noff : s.noff c = held.length

abbrev Can {M : Monitors} {α : Type} (p : ProcId) (prog : KProg M α) (s : Kernel M)
    (post : α → Kernel M → Prop) : Prop :=
  prog.Can (kernelMachine M) (.proc p) s post

section Steps

variable {M : Monitors} {α : Type} {T T' : Table} {p q : ProcId} {c : Cpu} {d : (m : M.Lock) → M.Data m}
  {held held' : List (Lock M)} {l : Lock M} {s s' : Kernel M} {post : α → Kernel M → Prop}

theorem running (runs : s.runs p = some c) (choice : Nat) (a : KAct M) :
    kernelMachine M (.proc p) choice a s = s.act (.proc p) c choice a := by
  simp only [kernelMachine, Kernel.cpu, runs]

theorem tableOf_put (k k' : Fork.Kernel) {slot : Fork.Slot} (proc : k'.proc = update k.proc q slot)
    (nextpid : k'.nextpid = k.nextpid) : tableOf k' = (tableOf k).put q (entryOf slot) := by
  unfold tableOf Table.put
  rw [proc, nextpid]
  refine congrArg (Table.mk · _) (funext fun r => ?_)
  exact apply_update (fun _ => entryOf) k.proc q slot r

theorem entry_put (s s' : Kernel M) {x : Xv6.Proc M} {parent : Option ProcId}
    (proc : s'.proc = update s.proc q x) (parents : s'.parent = update s.parent q parent) :
    (table s').entry = update (table s).entry q ⟨phase x.state, x.killed, x.xstate, x.pid, parent⟩ := by
  unfold table
  dsimp only
  rw [proc, parents]
  funext r
  by_cases here : r = q
  · rw [here, update_self, update_self, update_self]
  · rw [update_of_ne here, update_of_ne here, update_of_ne here]

theorem table_put (s s' : Kernel M) {x : Xv6.Proc M} {parent : Option ProcId}
    (proc : s'.proc = update s.proc q x) (parents : s'.parent = update s.parent q parent)
    (nextpid : s'.nextpid = s.nextpid) :
    table s' = (table s).put q ⟨phase x.state, x.killed, x.xstate, x.pid, parent⟩ :=
  congr (congrArg Table.mk (entry_put s s' proc parents)) nextpid

/-- Only the entry itself has changed, and not its parent. -/
theorem table_set (s s' : Kernel M) {x : Xv6.Proc M} (proc : s'.proc = update s.proc q x)
    (parents : s'.parent = s.parent) (nextpid : s'.nextpid = s.nextpid) :
    table s' = (table s).put q ⟨phase x.state, x.killed, x.xstate, x.pid, ((table s).entry q).parent⟩ :=
  table_put s s' proc (parents.trans (update_eq_self q s.parent).symm) nextpid

@[simp] theorem put_entry (T : Table) (q : ProcId) (e : Entry) : (T.put q e).entry q = e := update_self ..

theorem put_self (T : Table) (q : ProcId) : T.put q (T.entry q) = T :=
  congrArg (Table.mk · T.nextpid) (update_eq_self q T.entry)

theorem table_take (s : Kernel M) (q p : ProcId) : table (s.initProc q p) = (table s).take q :=
  congrArg (Table.mk · _) (entry_put s (s.initProc q p) rfl (update_eq_self q s.parent).symm)

theorem table_free (s : Kernel M) (q : ProcId) : table (s.freeProc q) = (table s).put q .blank :=
  table_put s (s.freeProc q) rfl rfl rfl

theorem table_parent (s : Kernel M) (q parent : ProcId) (creator : ProcId → ProcId × Nat)
    (leaving : ProcId → Bool) :
    table { s with parent := update s.parent q (some parent), creator, leaving } =
    (table s).put q { (table s).entry q with parent := some parent } :=
  table_put s { s with parent := update s.parent q (some parent), creator, leaving }
    (update_eq_self q s.proc).symm rfl rfl

/-- A process that is woken up stays live. -/
theorem table_wake (s : Kernel M) (q : ProcId) (chan : Chan M) : table (s.wakeProc q chan) = table s := by
  by_cases asleep : (s.proc q).state = .sleeping ∧ (s.proc q).chan = some chan
  · have woken : (s.wakeProc q chan).proc = update s.proc q { s.proc q with state := .runnable } :=
      if_pos asleep
    refine (table_set s (s.wakeProc q chan) woken rfl rfl).trans ?_
    refine Eq.trans (congrArg ((table s).put q) ?_) (put_self (table s) q)
    show Entry.mk .live .. = Entry.mk (phase (s.proc q).state) ..
    rw [asleep.1]
    rfl
  · have kept : (s.wakeProc q chan).proc = s.proc := if_neg asleep
    unfold table
    rw [kept]
    rfl

/-- A live process becomes runnable. -/
theorem table_runnable (s : Kernel M) (q : ProcId) (maker : ProcId → Option ProcId)
    (live : ((table s).entry q).phase = .live) :
    table { s.setProc q { s.proc q with state := .runnable } with maker } = table s := by
  refine (table_set s { s.setProc q { s.proc q with state := .runnable } with maker } rfl rfl rfl).trans ?_
  refine Eq.trans (congrArg ((table s).put q) ?_) (put_self (table s) q)
  show Entry.mk .live .. = _
  rw [← live]
  rfl

theorem table_exit (s : Kernel M) (q : ProcId) (status : Int) (exits : ProcId → Nat) (leaving : ProcId → Bool)
    (history : List LifeEvent) :
    table { s.setProc q { s.proc q with xstate := status, state := .zombie } with exits, leaving, history } =
    (table s).put q { (table s).entry q with phase := .zombie, xstate := status } :=
  table_set s { s.setProc q { s.proc q with xstate := status, state := .zombie } with exits, leaving, history }
    rfl rfl rfl

theorem orphans_nil (T : Table) (p : ProcId) : T.orphans p [] = T :=
  congrArg (Table.mk · T.nextpid) (funext fun _ => if_neg List.not_mem_nil)

theorem orphan_fields (p : ProcId) (e : Entry) : e.orphan p = { e with parent := (e.orphan p).parent } := by
  unfold Entry.orphan
  split <;> rfl

theorem orphan_orphan (other : p ≠ initproc) (e : Entry) : (e.orphan p).orphan p = e.orphan p := by
  unfold Entry.orphan
  split
  · exact if_neg fun same => other (Option.some.inj same).symm
  · rfl

theorem orphans_snoc (T : Table) (other : p ≠ initproc) (past : List ProcId) (q : ProcId) :
    (T.orphans p past).put q (((T.orphans p past).entry q).orphan p) = T.orphans p (past ++ [q]) := by
  refine congrArg (Table.mk · T.nextpid) (funext fun r => ?_)
  by_cases here : r = q
  · rw [here, update_self, if_pos (by simp)]
    show Entry.orphan p (if q ∈ past then (T.entry q).orphan p else T.entry q) = _
    split
    · exact orphan_orphan other _
    · rfl
  · rw [update_of_ne here]
    simp [Table.orphans, here]

theorem tableOf_take (k k' : Fork.Kernel) {slot : Fork.Slot} (proc : k'.proc = update k.proc q slot)
    (nextpid : k'.nextpid = k.nextpid + 1) (fits : (k.nextpid + 1).bmod (2 ^ 32) = k.nextpid + 1) :
    tableOf k' = ((tableOf k).take q).put q (entryOf slot) := by
  unfold tableOf Table.take Table.put
  dsimp only
  rw [proc, nextpid, fits, update_idem]
  exact congrArg (Table.mk · _) (funext fun r => apply_update (fun _ => entryOf) k.proc q slot r)

namespace At

/-- A step that leaves the locks as they are. -/
theorem step {a : KAct M} {f : a.Resp → KProg M α} {answer : a.Resp} (choice : Nat) (here : At T p c d held s)
    (does : s.act (.proc p) c choice a = .ok answer s') (same : locks s' = locks s) (table : Proc.table s' = T')
    (rest : ∀ s', At T' p c d held s' → Can p (f answer) s' post) : Can p (a.run >>= f) s post := by
  obtain ⟨runs, holder, noff, data⟩ : s'.runs = s.runs ∧ s'.holder = s.holder ∧ s'.noff = s.noff ∧
      s'.data = s.data := by simpa only [locks, Prod.mk.injEq] using same
  refine Prog.Can.bind (.step choice ?_ (rest s' ⟨table, ?_, ?_, fun l => ?_, ?_⟩))
  · rw [running here.runs, does]
  · rw [data, here.data]
  · rw [runs, here.runs]
  · rw [holder, here.holder]
  · rw [noff, here.noff]

theorem acquire {f : Unit → KProg M α} (here : At T p c d held s) (free : l ∉ held)
    (rest : ∀ s', At T p c d (l :: held) s' → Can p (f ()) s' post) :
    Can p ((KAct.acquire l).run >>= f) s post := by
  have unheld : s.holder l = none := by rw [here.holder, if_neg free]
  have taken : kernelMachine M (.proc p) 0 (.acquire l) s = .ok () (s.lock (.proc p) c l) := by
    rw [running here.runs]
    show (if s.holder l = some c then _ else if s.holder l ≠ none then _ else _) = _
    rw [unheld]
    rfl
  refine Prog.Can.bind (.step 0 taken (rest _ ⟨here.table, here.data, here.runs, fun l' => ?_, ?_⟩))
  · show update s.holder l (some c) l' = _
    by_cases eq : l' = l
    · rw [eq, update_self, if_pos (List.mem_cons_self ..)]
    · rw [update_of_ne eq, here.holder]
      simp [eq]
  · show update s.noff c (s.noff c + 1) c = _
    rw [update_self, here.noff, List.length_cons]

theorem release {f : Unit → KProg M α} (here : At T p c d held s) (held' : List (Lock M)) (mine : l ∈ held)
    (left : ∀ l', l' ∈ held' ↔ l' ∈ held ∧ l' ≠ l) (length : held'.length + 1 = held.length)
    (rest : ∀ s', At T p c d held' s' → Can p (f ()) s' post) :
    Can p ((KAct.release l).run >>= f) s post := by
  have own : s.holder l = some c := by rw [here.holder, if_pos mine]
  have given : kernelMachine M (.proc p) 0 (.release l) s = .ok () ((s.unlock c l).look (.proc p) l) :=
    (running here.runs 0 _).trans (if_neg (not_not_intro own))
  refine Prog.Can.bind (.step 0 given (rest _ ⟨?_, ?_, ?_, fun l' => ?_, ?_⟩))
  · rw [← here.table]
    cases l <;> rfl
  · rw [← here.data]
    cases l <;> rfl
  · rw [← here.runs]
    cases l <;> rfl
  · have holder : ((s.unlock c l).look (.proc p) l).holder = update s.holder l none := by cases l <;> rfl
    rw [holder, update_apply, here.holder]
    by_cases eq : l' = l <;> simp [left, eq]
  · have noff : ((s.unlock c l).look (.proc p) l).noff = update s.noff c (s.noff c - 1) := by cases l <;> rfl
    rw [noff, update_self, here.noff, ← length, Nat.add_sub_cancel]

/-- The lock taken last is given back. -/
theorem give {f : Unit → KProg M α} (here : At T p c d (l :: held) s) (free : l ∉ held)
    (rest : ∀ s', At T p c d held s' → Can p (f ()) s' post) : Can p ((KAct.release l).run >>= f) s post := by
  refine here.release held (List.mem_cons_self ..) (fun l' => ⟨fun member => ?_, fun both => ?_⟩) rfl rest
  · exact ⟨List.mem_cons_of_mem _ member, fun eq => free (eq ▸ member)⟩
  · exact (List.mem_cons.mp both.1).resolve_left both.2

theorem read {m : M.Lock} {f : M.Data m → KProg M α} (here : At T p c d held s)
    (rest : ∀ s', At T p c d held s' → Can p (f (d m)) s' post) : Can p ((KAct.read m).run >>= f) s post :=
  here.step 0 (congrArg (Outcome.ok · s) (congrFun here.data m)) rfl here.table rest

theorem write {m : M.Lock} {x : M.Data m} {f : Unit → KProg M α} (here : At T p c d held s)
    (rest : ∀ s', At T p c (update d m x) held s' → Can p (f ()) s' post) :
    Can p ((KAct.write m x).run >>= f) s post :=
  Prog.Can.bind (.step 0 (running here.runs 0 _)
    (rest _ ⟨here.table, congrArg (update · m x) here.data, here.runs, here.holder, here.noff⟩))

/-- The timer does not interrupt the process. -/
theorem preempt {f : Unit → KProg M α} (here : At T p c d held s)
    (rest : ∀ s', At T p c d held s' → Can p (f ()) s' post) : Can p (Xv6.preempt p >>= f) s post :=
  Prog.Can.bind (here.step 0 rfl rfl here.table fun s' there => .pure (rest s' there))

end At

end Steps

section Agree

variable {M : Monitors} {k : Fork.Kernel} {T T' : Table} {p q : ProcId} {c : Cpu} {d : (m : M.Lock) → M.Data m}
  {held : List (Lock M)} {s : Kernel M}

/-- The loop of `kill` stops at the first entry with the pid. -/
theorem killFrom_can (here : At T p c d [] s) (pid : Int) (l : List ProcId) :
    Can p (killFrom p pid l) s fun r s' =>
      (l.find? fun q => decide ((T.entry q).pid = pid)) = none ∧ r = -1 ∧ At T p c d [] s' ∨
      ∃ q, (l.find? fun q => decide ((T.entry q).pid = pid)) = some q ∧ r = 0 ∧
        At (T.put q { T.entry q with killed := true }) p c d [] s' := by
  induction l generalizing s with
  | nil => exact .pure (.inl ⟨rfl, rfl, here⟩)
  | cons q rest ih =>
    refine here.preempt fun s₁ at₁ => at₁.acquire List.not_mem_nil fun s₂ at₂ => ?_
    have same : (s₂.proc q).pid = (T.entry q).pid := by rw [← at₂.table]; rfl
    by_cases found : (T.entry q).pid = pid
    · have kills : s₂.act (.proc p) c 0 (.killProc q pid) = .ok true (s₂.killProc (.proc p) q) :=
        if_pos (same.trans found)
      have table : Proc.table (s₂.killProc (.proc p) q) = T.put q { T.entry q with killed := true } := by
        rw [← at₂.table]
        refine (table_set s₂ (s₂.killProc (.proc p) q) rfl rfl rfl).trans
          (congrArg ((Proc.table s₂).put q) ?_)
        show Entry.mk (phase (if _ then _ else _)) .. = _
        split
        next asleep => simp [Proc.table, asleep, phase]
        next => rfl
      refine at₂.step 0 kills rfl table fun s₃ at₃ => at₃.give List.not_mem_nil fun s₄ at₄ => .pure (.inr ?_)
      exact ⟨q, List.find?_cons_of_pos (decide_eq_true found), rfl, at₄⟩
    · have passes : s₂.act (.proc p) c 0 (.killProc q pid) = .ok false s₂ :=
        if_neg fun eq => found (same.symm.trans eq)
      refine at₂.step 0 passes rfl at₂.table fun s₃ at₃ => at₃.give List.not_mem_nil fun s₄ at₄ => ?_
      rw [List.find?_cons_of_neg (by simpa using found)]
      exact ih at₄

theorem kill_agrees (here : At (tableOf k) p c d [] s) (pid : Int) : Gives (Pages.kill pid) k fun r k' =>
    Can p (Xv6.kill p pid) s fun r' s' => r' = r ∧ At (tableOf k') p c d [] s' := by
  refine (kill_effect pid).mono fun r k' effect => ?_
  refine here.step 0 rfl rfl here.table fun s₁ at₁ =>
    .bind ((killFrom_can at₁ pid _).mono fun r' s₂ way => ?_)
  have same : (List.finRange NPROC).find? (fun q => decide (((tableOf k).entry q).pid = pid)) =
      (List.finRange NPROC).find? fun q => decide ((k.proc q).pid = pid) := rfl
  rw [same] at way
  obtain ⟨none, rfl, at₂⟩ | ⟨q, found, rfl, at₂⟩ := way
  · rw [none] at effect
    obtain ⟨rfl, rfl⟩ := effect
    exact at₂.step 0 rfl rfl at₂.table fun s₃ at₃ => .pure ⟨rfl, at₃⟩
  · rw [found] at effect
    obtain ⟨rfl, rfl⟩ := effect
    let k' : Fork.Kernel := { k with proc := update k.proc q { k.proc q with
      killed := 1, state := if (k.proc q).state = .sleeping then .runnable else (k.proc q).state } }
    have table : tableOf k' = (tableOf k).put q { (tableOf k).entry q with killed := true } := by
      refine (tableOf_put k k' rfl rfl).trans (congrArg ((tableOf k).put q) ?_)
      show Entry.mk (phase (if _ then _ else _)) .. = _
      split
      next asleep => simp [tableOf, entryOf, asleep, phase]
      next => rfl
    rw [table]
    exact at₂.step 0 rfl rfl at₂.table fun s₃ at₃ => .pure ⟨rfl, at₃⟩

/-- The loop of `allocproc` stops at the first entry not in use, where there is memory or there is none. -/
theorem allocprocFrom_can (here : At T p c d [] s) (l : List ProcId) (ok : Bool) :
    Can p (allocprocFrom p l) s fun r s' =>
      (l.find? fun q => decide ((T.entry q).phase = .unused)) = none ∧ r = none ∧ At T p c d [] s' ∨
      ∃ q, (l.find? fun q => decide ((T.entry q).phase = .unused)) = some q ∧
        if ok then r = some q ∧ At (T.take q) p c d [.proc q] s'
        else r = none ∧ At ((T.take q).put q .blank) p c d [] s' := by
  induction l generalizing s with
  | nil => exact .pure (.inl ⟨rfl, rfl, here⟩)
  | cons q rest ih =>
    refine here.preempt fun s₁ at₁ => at₁.acquire List.not_mem_nil fun s₂ at₂ =>
      at₂.step 0 rfl rfl at₂.table fun s₃ at₃ => ?_
    have same : (T.entry q).phase = .unused ↔ (s₂.proc q).state = .unused := by
      rw [← at₂.table]
      exact phase_unused
    by_cases found : (s₂.proc q).state = .unused
    · have first : ((q :: rest).find? fun q => decide ((T.entry q).phase = .unused)) = some q :=
        List.find?_cons_of_pos (decide_eq_true (same.mpr found))
      rw [decide_eq_true found, first]
      refine at₃.step 0 rfl rfl ((table_take s₃ q p).trans (by rw [at₃.table])) fun s₄ at₄ => ?_
      cases ok with
      | true => exact at₄.step 1 rfl rfl at₄.table fun s₅ at₅ => .pure (.inr ⟨q, rfl, rfl, at₅⟩)
      | false =>
        refine at₄.step 0 rfl rfl at₄.table fun s₅ at₅ => at₅.step 0 rfl rfl
          ((table_free s₅ q).trans (by rw [at₅.table])) fun s₆ at₆ =>
          at₆.give List.not_mem_nil fun s₇ at₇ => .pure (.inr ⟨q, rfl, rfl, at₇⟩)
    · have later : ((q :: rest).find? fun q => decide ((T.entry q).phase = .unused)) =
          rest.find? fun q => decide ((T.entry q).phase = .unused) :=
        List.find?_cons_of_neg (by simpa using fun eq => found (same.mp eq))
      rw [decide_eq_false found, later]
      exact at₃.give List.not_mem_nil fun s₄ at₄ => ih at₄

theorem fork_agrees (here : At (tableOf k) p c d [] s) (used : (k.proc p).state ≠ .unused)
    (fits : (k.nextpid + 1).bmod (2 ^ 32) = k.nextpid + 1) : Gives (Fork.fork p) k fun r k' =>
    Can p (Xv6.fork p) s fun r' s' => r' = r ∧ At (tableOf k') p c d [] s' := by
  refine (fork_effect used).mono fun r k' forks => ?_
  have same : (List.finRange NPROC).find? (fun q => decide (((tableOf k).entry q).phase = .unused)) =
    freeSlot k :=
    congrArg (fun f => (List.finRange NPROC).find? f) (funext fun q => decide_eq_decide.mpr phase_unused)
  cases forks with
  | full empty proc nextpid _ =>
    refine .bind ((allocprocFrom_can here _ true).mono fun r s₁ way => ?_)
    rw [same, empty] at way
    obtain ⟨-, rfl, at₁⟩ | ⟨_, found, -⟩ := way
    · have table : tableOf k' = tableOf k := by
        unfold tableOf
        rw [proc, nextpid]
      exact .pure ⟨rfl, table ▸ at₁⟩
    · cases found
  | @failed np slot first proc _ _ nextpid _ =>
    refine .bind ((allocprocFrom_can here _ false).mono fun r s₁ way => ?_)
    rw [same, first] at way
    obtain ⟨found, -⟩ | ⟨_, found, taken⟩ := way
    · cases found
    cases found
    obtain ⟨rfl, at₁⟩ := taken
    exact .pure ⟨rfl, tableOf_take k k' proc nextpid fits ▸ at₁⟩
  | @made np slot first proc child nextpid _ _ =>
    refine .bind ((allocprocFrom_can here _ true).mono fun r s₁ way => ?_)
    rw [same, first] at way
    obtain ⟨found, -⟩ | ⟨_, found, taken⟩ := way
    · cases found
    cases found
    obtain ⟨rfl, at₁⟩ := taken
    have mine : ((tableOf k).take np).entry np =
        { (tableOf k).entry np with phase := .live, pid := k.nextpid } := update_self ..
    have made : { ((tableOf k).take np).entry np with parent := some p } = entryOf slot := by
      rw [mine]
      unfold entryOf
      rw [child.state, child.killed, child.xstate, child.pid, child.parent]
      rfl
    rw [tableOf_take k k' proc nextpid fits, ← made]
    refine at₁.step 1 rfl rfl at₁.table fun s₂ at₂ => at₂.step 0 rfl rfl at₂.table fun s₃ at₃ => ?_
    have pid : (s₂.proc np).pid = k.nextpid := by
      show ((table s₂).entry np).pid = _
      rw [at₂.table, mine]
    refine at₃.give List.not_mem_nil fun s₄ at₄ => at₄.preempt fun s₅ at₅ => at₅.acquire List.not_mem_nil
      fun s₆ at₆ => at₆.step 0 rfl rfl ((table_parent s₆ np p _ _).trans (by rw [at₆.table]))
      fun s₇ at₇ => at₇.give List.not_mem_nil fun s₈ at₈ => at₈.preempt fun s₉ at₉ =>
      at₉.acquire List.not_mem_nil fun s₁₀ at₁₀ => ?_
    have live : ((table s₁₀).entry np).phase = .live := by
      rw [at₁₀.table, put_entry, mine]
    exact at₁₀.step 0 rfl rfl ((table_runnable s₁₀ np _ live).trans at₁₀.table) fun s₁₁ at₁₁ =>
      at₁₁.give List.not_mem_nil fun s₁₂ at₁₂ => .pure ⟨pid, at₁₂⟩

/-- The scan of `wait` stops at the first child that has exited, whose status can be stored or cannot. -/
theorem waitScan_can (here : At T p c d [.wait] s) (addr ok : Bool) (may : ok = false → addr = true)
    (havekids : Bool) (l : List ProcId) : Can p (waitScan p addr havekids l) s fun r s' =>
      l.find? (T.isZombie p) = none ∧ r = .inr (havekids || l.any (T.isChild p)) ∧ At T p c d [.wait] s' ∨
      ∃ pp, l.find? (T.isZombie p) = some pp ∧
        if ok then r = .inl (T.entry pp).pid ∧ At (T.put pp .blank) p c d [] s'
        else r = .inl (-1) ∧ At T p c d [] s' := by
  induction l generalizing s havekids with
  | nil => exact .pure (.inl ⟨rfl, by simp, here⟩)
  | cons pp rest ih =>
    have parent : s.parent pp = (T.entry pp).parent := by rw [← here.table]; rfl
    refine here.step 0 rfl rfl here.table fun s₁ at₁ => ?_
    rw [parent]
    by_cases child : (T.entry pp).parent = some p
    · rw [if_pos child]
      have apart : Lock.proc pp ∉ [(Lock.wait : Lock M)] := by simp
      refine at₁.acquire apart fun s₂ at₂ => at₂.step 0 rfl rfl at₂.table fun s₃ at₃ => ?_
      have same : (s₂.proc pp).state = .zombie ↔ (T.entry pp).phase = .zombie := by
        rw [← at₂.table]
        exact phase_zombie.symm
      have pid : (s₂.proc pp).pid = (T.entry pp).pid := by rw [← at₂.table]; rfl
      by_cases zombie : (s₂.proc pp).state = .zombie
      · have first : (pp :: rest).find? (T.isZombie p) = some pp :=
          List.find?_cons_of_pos (decide_eq_true ⟨child, same.mp zombie⟩)
        rw [if_pos zombie, pid, first]
        have taken {s₄ : Kernel M} (at₄ : At T p c d [.proc pp, .wait] s₄) : Can p (do
            (KAct.reap pp p addr).run
            (KAct.release (.proc pp)).run
            (KAct.release .wait).run
            return .inl (T.entry pp).pid) s₄ fun r s' =>
            r = (.inl (T.entry pp).pid : Int ⊕ Bool) ∧ At (T.put pp .blank) p c d [] s' :=
          at₄.step 0 rfl rfl ((table_free s₄ pp).trans (by rw [at₄.table])) fun s₅ at₅ =>
            at₅.give apart fun s₆ at₆ => at₆.give List.not_mem_nil fun s₇ at₇ => .pure ⟨rfl, at₇⟩
        refine Prog.Can.mono (?_ : Can p _ s₃ fun r s' =>
          if ok then r = .inl (T.entry pp).pid ∧ At (T.put pp .blank) p c d [] s'
          else r = .inl (-1) ∧ At T p c d [] s') fun _ _ done => .inr ⟨pp, rfl, done⟩
        cases addr with
        | false =>
          cases ok with
          | false => cases may rfl
          | true => exact taken at₃
        | true =>
          cases ok with
          | true => exact at₃.step 1 rfl rfl at₃.table fun s₄ at₄ => taken at₄
          | false =>
            exact at₃.step 0 rfl rfl at₃.table fun s₄ at₄ => at₄.give apart fun s₅ at₅ =>
              at₅.give List.not_mem_nil fun s₆ at₆ => .pure ⟨rfl, at₆⟩
      · have later : (pp :: rest).find? (T.isZombie p) = rest.find? (T.isZombie p) :=
          List.find?_cons_of_neg (by simpa [Table.isZombie, child] using fun eq => zombie (same.mpr eq))
        rw [if_neg zombie, later]
        refine at₃.give apart fun s₄ at₄ => (ih at₄ true).mono fun r s' way => way.imp_left fun nothing => ?_
        obtain ⟨nothing, rfl, at₅⟩ := nothing
        refine ⟨nothing, ?_, at₅⟩
        have mine : T.isChild p pp = true := decide_eq_true child
        rw [List.any_cons, mine, Bool.true_or, Bool.or_true]
    · have later : (pp :: rest).find? (T.isZombie p) = rest.find? (T.isZombie p) :=
        List.find?_cons_of_neg (by simp [Table.isZombie, child])
      have other : T.isChild p pp = false := decide_eq_false child
      rw [if_neg child, later, List.any_cons, other, Bool.false_or]
      exact ih at₁ havekids

/-- A process without children, or that has been killed, does not wait any longer. -/
theorem waitRound_stops (here : At T p c d [.wait] s) (addr : Bool)
    (clean : (List.finRange NPROC).find? (T.isZombie p) = none)
    (stop : (List.finRange NPROC).any (T.isChild p) = false ∨ (T.entry p).killed = true) :
    Can p (waitRound p addr) s fun r s' => r = .inl (-1) ∧ At T p c d [] s' := by
  refine .bind ((waitScan_can here addr true nofun false _).mono fun r s₁ way => ?_)
  obtain ⟨-, rfl, at₁⟩ | ⟨_, found, -⟩ := way
  · have leaves {s₂ : Kernel M} (at₂ : At T p c d [.wait] s₂) : Can p (do
        (KAct.release .wait).run
        return .inl (-1)) s₂ fun r s' => r = (.inl (-1) : Int ⊕ Unit) ∧ At T p c d [] s' :=
      at₂.give List.not_mem_nil fun s₃ at₃ => .pure ⟨rfl, at₃⟩
    cases kids : (List.finRange NPROC).any (T.isChild p) with
    | false => exact leaves at₁
    | true =>
      have dead : (T.entry p).killed = true := stop.resolve_left fun childless => by
        cases kids.symm.trans childless
      have apart : Lock.proc p ∉ [(Lock.wait : Lock M)] := by simp
      refine .bind (at₁.acquire apart fun s₂ at₂ => ?_)
      have set : (s₂.proc p).killed = true := by
        rw [← dead, ← at₂.table]
        rfl
      exact at₂.step 0 (if_pos set) rfl at₂.table fun s₃ at₃ => at₃.give apart fun s₄ at₄ => .pure (leaves at₄)
  · cases clean.symm.trans found

/-- A `wait` whose first round has an answer. -/
theorem wait_can {addr : Bool} {value : Int} (here : At T p c d [] s)
    (round : ∀ s₁, At T p c d [.wait] s₁ →
      Can p (waitRound p addr) s₁ fun r s₂ => r = .inl value ∧ At T' p c d [] s₂) :
    Can p (Xv6.wait p addr) s fun r s' => r = value ∧ At T' p c d [] s' := by
  refine here.step 0 rfl rfl here.table fun s₁ at₁ => at₁.acquire List.not_mem_nil fun s₂ at₂ => ?_
  refine .bind (at₂.step 1 rfl rfl at₂.table fun s₃ at₃ => .bind ((round s₃ at₃).mono fun r s₄ answer => ?_))
  obtain ⟨rfl, at₄⟩ := answer
  exact .pure (at₄.step 0 rfl rfl at₄.table fun s₅ at₅ => .pure ⟨rfl, at₅⟩)

/-- A round of the loop of `wait` that has an answer. -/
theorem wait_agrees (here : At (tableOf k) p c d [] s) (addr : Nat) : Gives (Pages.wait p addr) k fun r k' =>
    ∀ value, r = some value →
      Can p (Xv6.wait p (addr ≠ 0)) s fun r' s' => r' = value ∧ At (tableOf k') p c d [] s' := by
  refine (wait_effect addr).mono fun r k' effect value returns => ?_
  obtain ⟨nextpid, -, waits⟩ := effect
  have found : (List.finRange NPROC).find? ((tableOf k).isZombie p) = zombieChild k p :=
    congrArg (fun f => (List.finRange NPROC).find? f)
      (funext fun q => decide_eq_decide.mpr (and_congr_right' phase_zombie))
  have kept (proc : k'.proc = k.proc) : tableOf k' = tableOf k := by
    unfold tableOf
    rw [proc, nextpid]
  cases waits with
  | @reaped pp child proc =>
    cases returns
    refine wait_can here fun s₁ at₁ => .bind ((waitScan_can at₁ _ true nofun false _).mono fun r s₂ way => ?_)
    rw [found, child] at way
    obtain ⟨none, -⟩ | ⟨_, eq, taken⟩ := way
    · cases none
    cases eq
    obtain ⟨rfl, at₂⟩ := taken
    exact .pure ⟨rfl, tableOf_put k k' proc nextpid ▸ at₂⟩
  | @refused pp child given proc =>
    cases returns
    refine wait_can here fun s₁ at₁ =>
      .bind ((waitScan_can at₁ _ false (fun _ => decide_eq_true given) false _).mono fun r s₂ way => ?_)
    rw [found, child] at way
    obtain ⟨none, -⟩ | ⟨_, -, taken⟩ := way
    · cases none
    obtain ⟨rfl, at₂⟩ := taken
    exact .pure ⟨rfl, kept proc ▸ at₂⟩
  | stops child stop proc =>
    cases returns
    rw [kept proc]
    exact wait_can here fun s₁ at₁ => waitRound_stops at₁ _ (found.trans child) (stop.imp_right decide_eq_true)
  | sleeps => cases returns

theorem wakeup_can (here : At T p c d held s) (apart : ∀ q, q ≠ p → .proc q ∉ held) (chan : Chan M) :
    Can p (wakeup (.proc p) chan) s fun _ s' => At T p c d held s' := by
  refine Prog.Can.forEach (J := fun _ s => At T p c d held s) (fun q _ s here => ?_) here
  by_cases self : q = p
  · rw [if_neg (fun other => other (self ▸ rfl))]
    exact .pure here
  · rw [if_pos fun eq => self (Tid.proc.inj eq).symm]
    exact here.acquire (apart q self) fun s₁ at₁ =>
      at₁.step 0 rfl rfl ((table_wake s₁ q chan).trans at₁.table) fun s₂ at₂ =>
      at₂.give (apart q self) fun s₃ at₃ => .pure at₃

theorem reparent_can (here : At T p c d [.wait] s) (other : p ≠ initproc) :
    Can p (reparent p) s fun _ s' => At (T.orphans p (List.finRange NPROC)) p c d [.wait] s' := by
  have apart (q : ProcId) (_ : q ≠ p) : Lock.proc q ∉ [(Lock.wait : Lock M)] := by simp
  let J (l : List ProcId) (s : Kernel M) : Prop :=
    ∃ past, past ++ l = List.finRange NPROC ∧ At (T.orphans p past) p c d [.wait] s
  have start : J (List.finRange NPROC) s := ⟨[], rfl, (orphans_nil T p).symm ▸ here⟩
  refine (Prog.Can.forEach (J := J) (fun q rest s now => ?_) start).mono fun _ s' done => ?_
  · obtain ⟨past, all, here⟩ := now
    suffices next : At (T.orphans p past) p c d [.wait] s → Can p (do
        if (← (KAct.getParent q).run) = some p then
          (KAct.adopt q p).run
          wakeup (.proc p) (.proc initproc)) s fun _ s' => At (T.orphans p (past ++ [q])) p c d [.wait] s' from
      (next here).mono fun _ s' here => ⟨past ++ [q], by rw [List.append_assoc]; exact all, here⟩
    intro here
    have parent : s.parent q = ((T.orphans p past).entry q).parent := by rw [← here.table]; rfl
    refine here.step 0 rfl rfl here.table fun s₁ at₁ => ?_
    rw [parent, ← orphans_snoc T other]
    by_cases child : ((T.orphans p past).entry q).parent = some p
    · rw [if_pos child, Entry.orphan, if_pos child]
      refine at₁.step 0 rfl rfl ((table_parent s₁ q initproc _ _).trans (by rw [at₁.table])) fun s₂ at₂ => ?_
      exact wakeup_can at₂ apart _
    · rw [if_neg child, Entry.orphan, if_neg child, put_self]
      exact .pure at₁
  · obtain ⟨past, all, here⟩ := done
    rw [List.append_nil] at all
    exact all ▸ here

theorem exits_table {k' : Fork.Kernel} {status : Int} (exits : Exits k k' p status) :
    tableOf k' = ((tableOf k).orphans p (List.finRange NPROC)).put p
      { ((tableOf k).orphans p (List.finRange NPROC)).entry p with phase := .zombie, xstate := status } := by
  refine congr (congrArg Table.mk (funext fun q => ?_)) exits.nextpid
  have old : ((tableOf k).orphans p (List.finRange NPROC)).entry q = (entryOf (k.proc q)).orphan p :=
    if_pos (List.mem_finRange q)
  have parent : ((entryOf (k.proc q)).orphan p).parent = (k'.proc q).parent := by
    rw [exits.parent]
    by_cases child : (k.proc q).parent = some p
    · exact (congrArg Entry.parent (if_pos child)).trans (if_pos child).symm
    · exact (congrArg Entry.parent (if_neg child)).trans (if_neg child).symm
  have same : (entryOf (k.proc q)).orphan p = { entryOf (k.proc q) with parent := (k'.proc q).parent } := by
    rw [← parent]
    exact orphan_fields p _
  by_cases here : q = p
  · subst here
    obtain ⟨pid, killed, -⟩ := exits.own
    rw [update_self, old, same]
    unfold entryOf
    rw [exits.zombie, exits.xstate, pid, killed]
    rfl
  · rw [update_of_ne here, old, same]
    exact congrArg entryOf (exits.others here)

/-- `exit` up to where the process gives its processor back. -/
theorem exit_agrees (here : At (tableOf k) p c d [] s) (status : Int) : Gives (Pages.exit p status) k fun _ k' =>
    Can p (exitProc p status) s fun _ s' => table s' = tableOf k' := by
  refine (exit_effect status).mono fun _ k' effect => ?_
  obtain ⟨other, exits, -⟩ := effect
  have apart (q : ProcId) (_ : q ≠ p) : Lock.proc q ∉ [(Lock.wait : Lock M)] := by simp
  refine here.acquire List.not_mem_nil fun s₁ at₁ => .bind ((reparent_can at₁ other).mono fun _ s₂ at₂ => ?_)
  refine at₂.step 0 rfl rfl at₂.table fun s₃ at₃ => ?_
  have leaves (s₄ : Kernel M) (at₄ : At ((tableOf k).orphans p (List.finRange NPROC)) p c d [.wait] s₄) :
      Can p (do
        (KAct.acquire (.proc p)).run
        (KAct.setZombie p status).run
        (KAct.release .wait).run
        (KAct.swtch p).run) s₄ fun _ s' => table s' = tableOf k' := by
    refine at₄.acquire (by simp) fun s₅ at₅ => ?_
    refine at₅.step 0 rfl rfl ((table_exit s₅ p status _ _ _).trans (by rw [at₅.table])) fun s₆ at₆ => ?_
    refine at₆.release [.proc p] (by simp) (fun l' => ?_) rfl fun s₇ at₇ => ?_
    · cases l' <;> simp
    have zombie : ((table s₇).entry p).phase = .zombie := by rw [at₇.table, put_entry]
    have own : s₇.holder (.proc p) = some c := by rw [at₇.holder, if_pos (List.mem_singleton_self _)]
    have state : (s₇.proc p).state ≠ .running := fun running => by
      rw [phase_zombie.mp zombie] at running
      cases running
    have away : s₇.act (.proc p) c 0 (.swtch p) = .ok () { s₇ with
        runs := update s₇.runs p none, inside := update s₇.inside (.proc p) false } :=
      (if_neg (not_not_intro own)).trans ((if_neg (not_not_intro at₇.noff)).trans (if_neg state))
    exact .step 0 ((running at₇.runs 0 _).trans away) (at₇.table.trans (exits_table exits).symm)
  cases s₂.parent p with
  | some parent => exact .bind ((wakeup_can at₃ apart _).mono fun _ s₄ at₄ => leaves s₄ at₄)
  | none => exact leaves s₃ at₃

end Agree

end Xv6.Proc
