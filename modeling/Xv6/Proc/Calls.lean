import Xv6.Proc.Monitor
import Xv6.Proc.Pipe

namespace Xv6
open Threads Function

/-- The steps that are considered: all of them; those where no writer of a pipe that has stored bytes
since it last woke the readers is found killed; those where `kill` does not come to a free slot with the
pid 0; those where it does not find a process that has found itself not killed and sleeps next. -/
inductive Rule where
  | any
  | prompt
  | tidy
  | wary

variable {D : Type}

def Rule.allowed : Rule → Tid → KAct (devices D) → Kernel (devices D) → Prop
  | .any => fun _ _ _ => True
  | .prompt => fun _ a s => match a with
    | .getKilled p _ true => (s.proc p).killed = false
    | _ => True
  | .tidy => fun _ a s => match a with
    | .killProc p pid => (s.proc p).state = .unused → pid ≠ 0
    | _ => True
  | .wary => fun _ a s => match a with
    | .killProc p pid => (s.proc p).pid = pid → s.window p = none
    | _ => True

instance (rule : Rule) (t : Tid) (a : KAct (devices D)) (s : Kernel (devices D)) :
    Decidable (rule.allowed t a s) := by
  cases rule with
  | any => exact isTrue trivial
  | prompt =>
    cases a with
    | getKilled p next unannounced =>
      cases unannounced with
      | false => exact isTrue trivial
      | true => exact inferInstanceAs (Decidable ((s.proc p).killed = false))
    | _ => exact isTrue trivial
  | tidy =>
    cases a with
    | killProc p pid => exact inferInstanceAs (Decidable ((s.proc p).state = .unused → pid ≠ 0))
    | _ => exact isTrue trivial
  | wary =>
    cases a with
    | killProc p pid => exact inferInstanceAs (Decidable ((s.proc p).pid = pid → s.window p = none))
    | _ => exact isTrue trivial

/-- The channels of the loops that a kill is to end. -/
def Chan.interruptible : Chan (devices D) → Prop
  | .mon .user _ => False
  | _ => True

/-- When no reader or writer of a pipe is to be asleep. -/
def Pipe.due (pi : Pipe) : PipeChan → Prop
  | .nread => pi.empty = false ∨ pi.writeopen = false
  | .nwrite => pi.full = false ∨ pi.readopen = false

def devTerms (cond : D → Bool) (rule : Rule) : Terms (devices D) where
  allowed := rule.allowed
  good
    | .pipe _, pi => Pipe.Fifo pi
    | _, _ => True
  due
    | .pipe _, x, pi => (x = PipeChan.nread → rule = .prompt) ∧ Pipe.due pi x
    | .user, _, d => cond d = true
    | _, _, _ => False
  tidy := rule = .tidy
  wary chan := rule = .wary ∧ chan.interruptible
  prompt := rule = .prompt
  tidy_spec := by
    rintro rfl _ _ _ _ allowed
    exact allowed
  wary_spec := by
    rintro chan ⟨rfl, _⟩ _ _ _ s allowed found
    rw [show s.window _ = none from allowed found]
    simp
  prompt_spec := by
    rintro rfl _ _ _ _ allowed
    exact allowed

variable {cond : D → Bool} {rule : Rule} {t : Tid} {p : ProcId} {b : Mine (devices D)}

/-- Under a lock of the devices, with nothing else held. -/
abbrev under (m : DevLock) (i : Info (M := devices D) (.mon m)) (b : Mine (devices D)) : View (devices D) :=
  .one (.mon m) i b

section Pipes

variable {k : Nat} {pi : Pipe} {z : PipeChan → ProcId → Bool}

/-- What holds of a pipe while its lock is free. -/
structure PipeFree (rule : Rule) (pi : Pipe) (z : PipeChan → ProcId → Bool) : Prop where
  fifo : pi.Fifo
  nread : rule = .prompt → pi.due .nread → ∀ r, z .nread r = false
  nwrite : pi.due .nwrite → ∀ r, z .nwrite r = false

theorem pipeFree_iff : (devTerms cond rule).Free (.mon (.pipe k)) (pi, z) ↔ PipeFree rule pi z := by
  constructor
  · rintro ⟨fifo, due⟩
    exact ⟨fifo, fun prompt waits => due PipeChan.nread ⟨fun _ => prompt, waits⟩,
      fun waits => due PipeChan.nwrite ⟨fun same => (by cases same), waits⟩⟩
  · rintro ⟨fifo, nread, nwrite⟩
    refine ⟨fifo, fun x due => ?_⟩
    cases x with
    | nread => exact nread (due.1 rfl) due.2
    | nwrite => exact nwrite due.2

theorem PipeFree.fewer {z' : PipeChan → ProcId → Bool} (h : PipeFree rule pi z)
    (fewer : ∀ y r, z y r = false → z' y r = false) : PipeFree rule pi z' :=
  ⟨h.fifo, fun prompt due r => fewer _ _ (h.nread prompt due r), fun due r => fewer _ _ (h.nwrite due r)⟩

/-- A writer leaves the ring as it should be, with every waiting reader woken if bytes were stored. -/
structure PipeWriting (rule : Rule) (unannounced : Bool) (pi : Pipe) (z : PipeChan → ProcId →
      Bool) (p : ProcId) :
    Prop where
  fifo : pi.Fifo
  nread : rule = .prompt → unannounced = false → pi.due .nread → ∀ r, z .nread r = false
  nwrite : pi.due .nwrite → ∀ r, z .nwrite r = false
  own : ∀ x, z x p = false
  open' : unannounced = true → pi.readopen = true

theorem PipeWriting.free (h : PipeWriting rule false pi z p) : PipeFree rule pi z :=
  ⟨h.fifo, fun prompt => h.nread prompt rfl, h.nwrite⟩

theorem PipeFree.writing (h : PipeFree rule pi z) (own : ∀ x, z x p = false) :
    PipeWriting rule false pi z p :=
  ⟨h.fifo, fun prompt _ => h.nread prompt, h.nwrite, own, fun eq => (by cases eq)⟩

/-- Waking the readers announces the bytes. -/
theorem PipeWriting.announce {unannounced : Bool} {z' : PipeChan → ProcId → Bool}
    (h : PipeWriting rule unannounced pi z p)
    (fewer : ∀ y r, z y r = false → z' y r = false) (woken : ∀ r, z' .nread r = false) :
    PipeWriting rule false pi z' p :=
  ⟨h.fifo, fun _ _ _ => woken, fun due r => fewer _ _ (h.nwrite due r), fun x => fewer _ _ (h.own x),
    fun eq => (by cases eq)⟩

theorem PipeWriting.put {unannounced : Bool} {ch : UInt8} (h : PipeWriting rule unannounced pi z p)
    (room : pi.full = false)
    (readopen : pi.readopen = true) : PipeWriting rule true (pi.put ch) z p :=
  ⟨h.fifo.put room, fun _ eq => (by cases eq), fun _ => h.nwrite (.inl room), h.own, fun _ => readopen⟩

variable {Q : Int → View (devices D) → Prop}

theorem pipewriteDone_wp (clean : b.Clean) {n : Nat} {unannounced : Bool}
    (writing : PipeWriting rule unannounced pi z p)
    {R : Int ⊕ Nat × Bool → View (devices D) → Prop} (post : R (.inl n) (.quiet b)) :
    wp (kernelMachine (devices D)) (kOutline (devTerms cond rule)) (.proc p) (pipewriteDone p k n) R
      (under (.pipe k) (pi, z) b) := by
  refine wp_seq (wakeupUnder_wp clean.picked clean.bed fun q same => ?_) ?_
  · cases same
    exact writing.own _
  · rintro _ _ ⟨z', rfl, fewer, woken⟩
    exact wp_bind (releaseUnder_wp (pipeFree_iff.mpr (writing.announce fewer woken).free) post)

theorem pipewrite_wp (clean : b.Clean) (stays : b.leaving = false) {n : Int} :
    wp (kernelMachine (devices D)) (kOutline (devTerms cond rule)) (.proc p) (pipewrite p k n)
      (fun _ v => v = .quiet b) (.quiet b) := by
  refine wp_bind (acquireUnder_wp clean fun i free own => ?_)
  obtain ⟨pi, z⟩ := i
  refine forever_wp (J := fun x v => ∃ pi z, v = under (.pipe k) (pi, z) b ∧
    PipeWriting rule x.2 pi z p) ?_ ?_
    ⟨pi, z, rfl, (pipeFree_iff.mp free).writing (own p rfl)⟩
  · rintro _ _ ⟨pi, z, rfl, _⟩
    rfl
  · rintro ⟨j, unannounced⟩ _ ⟨pi, z, rfl, writing⟩
    unfold pipewriteRound
    dsimp only
    by_cases more : (j : Int) < n
    · rw [if_pos more]
      refine wp_bind (readUnder_wp clean ?_)
      -- Nothing was stored without being announced when the call fails.
      have stop : (rule = .prompt → unannounced = false) →
          wp (kernelMachine (devices D)) (kOutline (devTerms cond rule)) (.proc p)
            (do (KAct.release (pipeLock k)).run; return .inl (-1) : DevProg D (Int ⊕ Nat × Bool))
            (fun r v => match r with
              | .inl _ => v = .quiet b
              | .inr x => ∃ pi z, v = under (.pipe k) (pi, z) b ∧ PipeWriting rule x.2 pi z p)
            (under (.pipe k) (pi, z) b) := fun announced =>
        wp_bind (releaseUnder_wp (pipeFree_iff.mpr ⟨writing.fifo,
          fun prompt => writing.nread prompt (announced prompt), writing.nwrite⟩) rfl)
      cases readopen : pi.readopen with
      | false =>
        refine stop fun _ => ?_
        cases unannounced with
        | false => rfl
        | true => rw [writing.open' rfl] at readopen; cases readopen
      | true =>
        refine wp_seq (killedUnder_wp clean (by simp)) ?_
        rintro stopped _ (⟨rfl, announced, rfl⟩ | ⟨rfl, rfl⟩)
        · exact stop announced
        · cases full : pi.full with
          | true =>
            -- The ring is full: whoever waits for bytes is woken before the writer sleeps.
            refine wp_seq (wakeupUnder_wp clean.picked clean.bed fun q same => ?_) ?_
            · cases same
              exact writing.own _
            · rintro _ _ ⟨z', rfl, fewer, woken⟩
              refine wp_seq (sleepUnder_wp clean stays
                (pipeFree_iff.mpr ⟨writing.fifo, fun _ _ r => ?_, fun due => ?_⟩)
                fun _ => rfl) ?_
              · by_cases same : r = p
                · subst same; simp
                · rw [update_of_ne same]; exact woken r
              · rcases due with room | closed
                · rw [full] at room; cases room
                · rw [readopen] at closed; cases closed
              · rintro _ _ ⟨⟨pi', z''⟩, free', own', rfl⟩
                exact ⟨pi', z'', rfl, (pipeFree_iff.mp free').writing own'⟩
          | false =>
            have same : ({ b with window := none } : Mine (devices D)) = b := by rw [← clean.window]
            change wp _ _ _ _ _ (under (.pipe k) (pi, z) { b with window := none })
            rw [same]
            refine wp_bind (wp_bind (choose_wp rfl fun byte => ?_))
            cases byte with
            | zero => exact pipewriteDone_wp clean writing rfl
            | succ byte =>
              refine wp_bind (writeUnder_wp ?_)
              exact ⟨_, z, rfl, writing.put full readopen⟩
    · rw [if_neg more]
      exact pipewriteDone_wp clean writing rfl

/-- A reader that takes out bytes leaves the writers to be woken. -/
structure Reading (rule : Rule) (pi : Pipe) (z : PipeChan → ProcId → Bool) (p : ProcId) : Prop where
  fifo : pi.Fifo
  nread : rule = .prompt → pi.due .nread → ∀ r, z .nread r = false
  own : ∀ x, z x p = false

theorem Reading.next {pi' : Pipe} (h : Reading rule pi z p) (fifo : pi'.Fifo) (some : pi.empty = false) :
    Reading rule pi' z p :=
  ⟨fifo, fun prompt _ => h.nread prompt (.inl some), h.own⟩

theorem pipereadCopy_wp (clean : b.Clean) (left j : Nat) (reading : Reading rule pi z p) :
    wp (kernelMachine (devices D)) (kOutline (devTerms cond rule)) (.proc p) (pipereadCopy k left j)
      (fun _ v => ∃ pi', v = under (.pipe k) (pi', z) b ∧ Reading rule pi' z p)
      (under (.pipe k) (pi, z) b) := by
  induction left generalizing j pi with
  | zero => exact ⟨pi, rfl, reading⟩
  | succ left ih =>
    refine wp_bind (readUnder_wp clean ?_)
    cases some : pi.empty with
    | true => exact ⟨pi, rfl, reading⟩
    | false =>
      refine wp_bind (writeUnder_wp ?_)
      refine wp_bind (wp_bind (choose_wp rfl fun ok => ?_))
      cases ok with
      | zero =>
        refine wp_bind (writeUnder_wp ?_)
        exact ⟨_, rfl, reading.next (reading.fifo.lose some) some⟩
      | succ ok =>
        refine wp_bind (writeUnder_wp ?_)
        exact ih _ (reading.next (reading.fifo.take some) some)

theorem piperead_wp (clean : b.Clean) (stays : b.leaving = false) {n : Int} :
    wp (kernelMachine (devices D)) (kOutline (devTerms cond rule)) (.proc p) (piperead p k n)
      (fun _ v => v = .quiet b) (.quiet b) := by
  refine wp_bind (acquireUnder_wp clean fun i free own => ?_)
  obtain ⟨pi, z⟩ := i
  refine wp_seq (R := fun go v => (go = false ∧ v = .quiet b) ∨ (go = true ∧ ∃ pi z,
    v = under (.pipe k) (pi, z) b ∧ PipeFree rule pi z ∧ ∀ x, z x p = false)) ?_ ?_
  · refine forever_wp (J := fun _ v => ∃ pi z, v = under (.pipe k) (pi, z) b ∧ PipeFree rule pi z ∧
      ∀ x, z x p = false) ?_ ?_ ⟨pi, z, rfl, pipeFree_iff.mp free, own p rfl⟩
    · rintro _ _ ⟨pi, z, rfl, _⟩
      rfl
    · rintro _ _ ⟨pi, z, rfl, free, own⟩
      refine wp_bind (readUnder_wp clean ?_)
      by_cases waits : pi.empty ∧ pi.writeopen
      · dsimp only
        rw [if_pos waits]
        refine wp_seq (killedUnder_wp clean (by simp)) ?_
        rintro stopped _ (⟨rfl, _, rfl⟩ | ⟨rfl, rfl⟩)
        · exact wp_bind (releaseUnder_wp (pipeFree_iff.mpr free) (.inl ⟨rfl, rfl⟩))
        · -- The reader sleeps on an empty ring that may still be filled.
          refine wp_seq (sleepUnder_wp clean stays
            (pipeFree_iff.mpr ⟨free.fifo, fun _ due => ?_, fun due r => ?_⟩)
            fun _ => rfl) ?_
          · rcases due with some | closed
            · rw [waits.1] at some; cases some
            · rw [waits.2] at closed; cases closed
          · by_cases same : r = p
            · subst same; simp
            · rw [update_of_ne same]; exact free.nwrite due r
          · rintro _ _ ⟨⟨pi', z'⟩, free', own', rfl⟩
            exact ⟨pi', z', rfl, pipeFree_iff.mp free', own'⟩
      · dsimp only
        rw [if_neg waits]
        exact .inr ⟨rfl, pi, z, rfl, free, own⟩
  · rintro go _ (⟨rfl, rfl⟩ | ⟨rfl, pi, z, rfl, free, own⟩)
    · exact rfl
    · refine wp_seq (pipereadCopy_wp clean n.toNat 0 ⟨free.fifo, free.nread, own⟩) ?_
      rintro _ _ ⟨pi', rfl, reading⟩
      refine wp_seq (wakeupUnder_wp clean.picked clean.bed fun q same => ?_) ?_
      · cases same
        exact reading.own _
      · rintro _ _ ⟨z', rfl, fewer, woken⟩
        refine wp_bind (releaseUnder_wp (pipeFree_iff.mpr ⟨reading.fifo, fun prompt due r => ?_,
          fun _ => woken⟩) rfl)
        exact fewer _ _ (reading.nread prompt due r)

theorem pipeclose_wp (clean : b.Clean) {writable : Bool} :
    wp (kernelMachine (devices D)) (kOutline (devTerms cond rule)) (.proc p) (pipeclose p k writable)
      (fun _ v => v = .quiet b) (.quiet b) := by
  refine wp_bind (acquireUnder_wp clean fun i free own => ?_)
  obtain ⟨pi, z⟩ := i
  have free := pipeFree_iff.mp free
  have own := own p rfl
  refine wp_bind (readUnder_wp clean ?_)
  cases writable with
  | true =>
    refine wp_bind (writeUnder_wp ?_)
    refine wp_seq (wakeupUnder_wp clean.picked clean.bed fun q same => ?_) ?_
    · cases same
      exact own _
    · rintro _ _ ⟨z', rfl, fewer, woken⟩
      refine releaseUnder_wp (pipeFree_iff.mpr ⟨⟨free.fifo.bound, free.fifo.order⟩, fun _ _ => woken,
        fun due r => ?_⟩) rfl
      exact fewer _ _ (free.nwrite due r)
  | false =>
    refine wp_bind (writeUnder_wp ?_)
    refine wp_seq (wakeupUnder_wp clean.picked clean.bed fun q same => ?_) ?_
    · cases same
      exact own _
    · rintro _ _ ⟨z', rfl, fewer, woken⟩
      refine releaseUnder_wp (pipeFree_iff.mpr ⟨⟨free.fifo.bound, free.fifo.order⟩, fun prompt due r => ?_,
        fun _ => woken⟩) rfl
      exact fewer _ _ (free.nread prompt due r)

end Pipes

section Console

theorem cons_free {i : Info (M := devices D) (.mon .cons)} : (devTerms cond rule).Free (.mon .cons) i :=
  ⟨trivial, fun _ due => due.elim⟩

theorem ticks_free {i : Info (M := devices D) (.mon .ticks)} : (devTerms cond rule).Free (.mon .ticks) i :=
  ⟨trivial, fun _ due => due.elim⟩

theorem consolereadFrom_wp (clean : b.Clean) (stays : b.leaving = false) {target : Nat} (n : Nat)
    {i : Info (M := devices D) (.mon .cons)} :
    wp (kernelMachine (devices D)) (kOutline (devTerms cond rule)) (.proc p) (consolereadFrom p target n)
      (fun _ v => v = .quiet b) (under .cons i b) := by
  have done : ∀ {i : Info (M := devices D) (.mon .cons)} (r : Int),
      wp (kernelMachine (devices D)) (kOutline (devTerms cond rule)) (.proc p)
        (do (KAct.release consLock).run; return r : DevProg D Int) (fun _ v => v = .quiet b)
        (under .cons i b) :=
    fun r => wp_bind (releaseUnder_wp cons_free rfl)
  induction n generalizing i with
  | zero => exact done _
  | succ n ih =>
    refine wp_seq (R := fun go v => (go = false ∧ v = .quiet b) ∨
      (go = true ∧ ∃ i, v = under .cons i b)) ?_ ?_
    · refine forever_wp (J := fun _ v => ∃ i, v = under .cons i b) ?_ ?_ ⟨i, rfl⟩
      · rintro _ _ ⟨i, rfl⟩
        rfl
      · rintro _ _ ⟨i, rfl⟩
        refine wp_bind (readUnder_wp clean ?_)
        split
        · refine wp_seq (killedUnder_wp clean (by simp)) ?_
          rintro stopped _ (⟨rfl, _, rfl⟩ | ⟨rfl, rfl⟩)
          · exact wp_bind (releaseUnder_wp cons_free (.inl ⟨rfl, rfl⟩))
          · refine wp_seq (sleepUnder_wp clean stays cons_free fun _ => rfl) ?_
            rintro _ _ ⟨i', _, _, rfl⟩
            exact ⟨i', rfl⟩
        · exact .inr ⟨rfl, i, rfl⟩
    · rintro go _ (⟨rfl, rfl⟩ | ⟨rfl, i, rfl⟩)
      · exact rfl
      · refine wp_bind (readUnder_wp clean (wp_bind (writeUnder_wp ?_)))
        dsimp only
        split
        · split
          · exact wp_bind (writeUnder_wp (done _))
          · exact done _
        · refine wp_bind (wp_bind (choose_wp rfl fun ok => ?_))
          cases ok with
          | zero => exact done _
          | succ ok =>
            show wp _ _ _ (if _ then _ else _) _ _
            split
            · split
              · exact done _
              · exact ih
            · exact done _

theorem consoleread_wp (clean : b.Clean) (stays : b.leaving = false) {n : Int} :
    wp (kernelMachine (devices D)) (kOutline (devTerms cond rule)) (.proc p) (consoleread p n)
      (fun _ v => v = .quiet b) (.quiet b) :=
  wp_bind (acquireUnder_wp clean fun _ _ _ => consolereadFrom_wp clean stays _)

theorem consoleintr_wp (clean : b.Clean) {c : UInt8} :
    wp (kernelMachine (devices D)) (kOutline (devTerms cond rule)) t (consoleintr t c)
      (fun _ v => v = .quiet b) (.quiet b) := by
  refine wp_bind (acquireUnder_wp clean fun i _ own =>
    wp_bind (readUnder_wp clean (wp_bind (writeUnder_wp ?_))))
  split
  · refine wp_seq (wakeupUnder_wp clean.picked clean.bed fun q same => own q same _) ?_
    rintro _ _ ⟨z', rfl, _⟩
    exact releaseUnder_wp cons_free rfl
  · exact releaseUnder_wp cons_free rfl

theorem sysSleep_wp (clean : b.Clean) (stays : b.leaving = false) {n : Int} :
    wp (kernelMachine (devices D)) (kOutline (devTerms cond rule)) (.proc p) (sysSleep p n)
      (fun _ v => v = .quiet b) (.quiet b) := by
  refine wp_bind (acquireUnder_wp clean fun i _ _ => wp_bind (readUnder_wp clean ?_))
  refine forever_wp (J := fun _ v => ∃ i, v = under .ticks i b) ?_ ?_ ⟨i, rfl⟩
  · rintro _ _ ⟨i, rfl⟩
    rfl
  · rintro _ _ ⟨i, rfl⟩
    refine wp_bind (readUnder_wp clean ?_)
    split
    · refine wp_seq (killedUnder_wp clean (by simp)) ?_
      rintro stopped _ (⟨rfl, _, rfl⟩ | ⟨rfl, rfl⟩)
      · exact wp_bind (releaseUnder_wp ticks_free rfl)
      · refine wp_seq (sleepUnder_wp clean stays ticks_free fun _ => rfl) ?_
        rintro _ _ ⟨i', _, _, rfl⟩
        exact ⟨i', rfl⟩
    · exact wp_bind (releaseUnder_wp ticks_free rfl)

theorem clockintr_wp (clean : b.Clean) :
    wp (kernelMachine (devices D)) (kOutline (devTerms cond rule)) t (clockintr t)
      (fun _ v => v = .quiet b) (.quiet b) := by
  refine wp_bind (acquireUnder_wp clean fun i _ own =>
    wp_bind (readUnder_wp clean (wp_bind (writeUnder_wp ?_))))
  refine wp_seq (wakeupUnder_wp clean.picked clean.bed fun q same => own q same _) ?_
  rintro _ _ ⟨z', rfl, _⟩
  exact releaseUnder_wp ticks_free rfl

end Console

section User

variable {d : D} {z : Unit → ProcId → Bool}

theorem userFree_iff : (devTerms cond rule).Free (.mon .user) (d, z) ↔
    (cond d = true → ∀ r, z () r = false) :=
  ⟨fun h due => h.2 () due, fun h => ⟨trivial, fun _ due => h due⟩⟩

theorem await_wp (clean : b.Clean) (stays : b.leaving = false) {body : D → D} :
    wp (kernelMachine (devices D)) (kOutline (devTerms cond rule)) (.proc p) (await cond p body)
      (fun _ v => v = .quiet b) (.quiet b) := by
  refine wp_bind (acquireUnder_wp clean fun i free own => ?_)
  refine forever_wp (J := fun _ v => ∃ i, v = under .user i b ∧
    (devTerms cond rule).Free (.mon .user) i) ?_ ?_
    ⟨i, rfl, free⟩
  · rintro _ _ ⟨i, rfl, _⟩
    rfl
  · rintro _ _ ⟨⟨d, z⟩, rfl, free⟩
    have free := userFree_iff.mp free
    refine wp_bind (readUnder_wp clean ?_)
    split
    next holds =>
      refine wp_bind (writeUnder_wp (wp_bind (releaseUnder_wp (userFree_iff.mpr fun _ => free holds) rfl)))
    next fails =>
      have same : ({ b with window := none } : Mine (devices D)) = b := by rw [← clean.window]
      rw [← same]
      refine wp_seq (sleepUnder_wp (w := none) clean stays (userFree_iff.mpr fun holds => absurd holds fails)
        fun careful => careful.2.elim) ?_
      rintro _ _ ⟨i', free', _, rfl⟩
      exact ⟨i', by rw [same], free'⟩

theorem signal_wp (clean : b.Clean) {set : D → D} :
    wp (kernelMachine (devices D)) (kOutline (devTerms cond rule)) t (signal t set)
      (fun _ v => v = .quiet b) (.quiet b) := by
  refine wp_bind (acquireUnder_wp clean fun i _ own =>
    wp_bind (readUnder_wp clean (wp_bind (writeUnder_wp ?_))))
  refine wp_seq (wakeupUnder_wp clean.picked clean.bed fun q same => own q same _) ?_
  rintro _ _ ⟨z', rfl, _, woken⟩
  exact releaseUnder_wp (userFree_iff.mpr fun _ => woken) rfl

end User

end Xv6
