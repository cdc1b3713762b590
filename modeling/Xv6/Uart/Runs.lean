import Xv6.Uart.Machine

namespace Xv6
open Threads Function

namespace Uart

variable {u : Uart} {c : UInt8}

section Ring

theorem w_eq (u : Uart) : u.w.toNat = (u.r.toNat + (u.w - u.r).toNat) % 2 ^ 64 := by
  have first := u.r.toNat_lt
  have second := u.w.toNat_lt
  rw [UInt64.toNat_sub]
  omega

/-- The ring is full exactly when it holds `UART_TX_BUF_SIZE` characters. -/
theorem Fifo.room (h : u.Fifo) (room : u.full = false) : (u.w - u.r).toNat < UART_TX_BUF_SIZE := by
  refine Nat.lt_of_le_of_ne h.bound fun all => ?_
  have full : u.w = u.r + 32 := by
    rw [← UInt64.toNat_inj, w_eq, all, UInt64.toNat_add]
    rfl
  rw [Uart.full, decide_eq_false_iff_not] at room
  exact room full

theorem Fifo.put (h : u.Fifo) (room : u.full = false) : (u.put c).Fifo := by
  have less := h.room room
  have count : ((u.put c).w - (u.put c).r).toNat = (u.w - u.r).toNat + 1 := by
    have first := u.r.toNat_lt
    have second := u.w.toNat_lt
    have one : (1 : UInt64).toNat = 1 := rfl
    rw [UART_TX_BUF_SIZE] at less
    simp only [Uart.put, UInt64.toNat_sub, UInt64.toNat_add, one] at less ⊢
    omega
  have place : index u.w = Cyclic.place (by decide) (u.r.toNat + (u.w - u.r).toNat) := by
    rw [index, w_eq, Cyclic.place_mod (by decide)]
  refine ⟨by rw [count]; exact less, ?_⟩
  have grown : (u.put c).ring = u.ring ++ [c] := by
    rw [ring, ring, count, ← Cyclic.queue_put less, ← place]
    rfl
  rw [grown, ← List.append_assoc]
  exact congrArg (· ++ [c]) h.order

/-- Taking a character out and writing it to THR. -/
theorem Fifo.send (h : u.Fifo) (some : u.empty = false) :
    { u with r := u.r + 1, sent := u.sent ++ [u.buf (index u.r)] }.Fifo := by
  have count : (u.w - u.r).toNat = (u.w - (u.r + 1)).toNat + 1 := by
    have different : u.w.toNat ≠ u.r.toNat := fun same => by
      rw [empty, decide_eq_false_iff_not] at some
      exact some (UInt64.toNat_inj.mp same)
    have first := u.r.toNat_lt
    have second := u.w.toNat_lt
    have one : (1 : UInt64).toNat = 1 := rfl
    simp only [UInt64.toNat_sub, UInt64.toNat_add, one]
    omega
  have next : (u.r + 1).toNat = (u.r.toNat + 1) % 2 ^ 64 := by
    rw [UInt64.toNat_add]
    rfl
  have first : u.ring = u.buf (index u.r) :: { u with r := u.r + 1 }.ring := by
    rw [ring, ring, count, Cyclic.queue_take, next, Cyclic.queue_mod (by decide)]
    rfl
  have bound := h.bound
  have order := h.order
  rw [first] at order
  refine ⟨?_, ?_⟩
  · show (u.w - (u.r + 1)).toNat ≤ _
    omega
  · rw [← order, List.append_assoc]
    rfl

end Ring

/-- Under `uart_tx_lock` the ring is in order whenever the lock is free, and nobody sleeps while
it has room. -/
def ttyTerms : Terms tty where
  allowed _ _ _ := True
  good
    | .tx, u => Fifo u
    | .cons, _ => True
  due
    | .tx, _, u => full u = false
    | .cons, _, _ => False
  tidy := False
  wary _ := False
  prompt := False
  tidy_spec := False.elim
  wary_spec := False.elim
  prompt_spec := False.elim

variable {t : Tid} {p : ProcId} {b : Mine tty} {z : Unit → ProcId → Bool}

/-- What holds of the ring while its lock is free. -/
structure TxFree (u : Uart) (z : Unit → ProcId → Bool) : Prop where
  fifo : u.Fifo
  awake : u.full = false → ∀ p, z () p = false

theorem txFree_iff : ttyTerms.Free (.mon .tx) (u, z) ↔ TxFree u z :=
  ⟨fun h => ⟨h.1, h.2 ()⟩, fun h => ⟨h.fifo, fun _ => h.awake⟩⟩

/-- Under `uart_tx_lock`, with nothing else held, and with the caller awake. -/
def UnderTx (t : Tid) (b : Mine tty) (v : View tty) : Prop :=
  ∃ u z, v = .one (.mon .tx) (u, z) b ∧ TxFree u z ∧ ∀ p, t = .proc p → ∀ x, z x p = false

theorem uartstart_wp (clean : b.Clean) {v : View tty} (start : UnderTx t b v) :
    wp (kernelMachine tty) (kOutline ttyTerms) t (uartstart t) (fun _ => UnderTx t b) v := by
  refine forever_wp (J := fun _ => UnderTx t b) ?_ ?_ start
  · rintro _ _ ⟨u, z, rfl, _⟩
    rfl
  · rintro _ _ ⟨u, z, rfl, free, own⟩
    refine wp_bind (readUnder_wp clean ?_)
    cases some : u.empty with
    | true => exact ⟨u, z, rfl, free, own⟩
    | false =>
      refine wp_bind (choose_wp rfl fun idle => ?_)
      by_cases busy : idle = 0
      · rw [if_pos busy]
        exact ⟨u, z, rfl, free, own⟩
      · rw [if_neg busy]
        refine wp_bind (writeUnder_wp (wp_seq (wakeupUnder_wp clean.picked clean.bed fun p same =>
          own p same ()) ?_))
        rintro _ _ ⟨z', rfl, fewer, woken⟩
        refine wp_bind (writeUnder_wp ?_)
        exact ⟨_, z', rfl, ⟨free.fifo.send some, fun _ => woken⟩, fun p same x => fewer x p (own p same x)⟩

theorem uartputc_wp (clean : b.Clean) (stays : b.leaving = false) :
    wp (kernelMachine tty) (kOutline ttyTerms) (.proc p) (uartputc p c) (fun _ v => v =
      .quiet b) (.quiet b) := by
  refine wp_bind (acquireUnder_wp clean fun i free own => ?_)
  obtain ⟨u, z⟩ := i
  refine wp_bind (choose_wp rfl fun panicked => ?_)
  by_cases runs : panicked = 0
  · rw [if_pos runs]
    refine wp_seq (R := fun u v => ∃ z, v = .one (.mon .tx) (u, z) b ∧ TxFree u z ∧ (∀ x, z x p = false) ∧
      u.full = false) ?_ ?_
    · refine forever_wp (J := fun _ => UnderTx (.proc p) b) ?_ ?_ ⟨u, z, rfl, txFree_iff.mp free, own⟩
      · rintro _ _ ⟨u, z, rfl, _⟩
        rfl
      · rintro _ _ ⟨u, z, rfl, free, own⟩
        refine wp_bind (readUnder_wp clean ?_)
        cases full : u.full with
        | false => exact ⟨z, rfl, free, own p rfl, full⟩
        | true =>
          -- The writer sleeps on a full ring.
          have same : ({ b with window := none } : Mine tty) = b := by rw [← clean.window]
          rw [← same]
          refine wp_seq (sleepUnder_wp (w := none) clean stays
            (txFree_iff.mpr ⟨free.fifo, fun room => ?_⟩) False.elim) ?_
          · rw [full] at room
            cases room
          · rintro _ _ ⟨⟨u', z'⟩, free', own', rfl⟩
            exact ⟨u', z', by rw [same], txFree_iff.mp free', fun q eq => by cases eq; exact own'⟩
    · rintro u _ ⟨z, rfl, free, own, room⟩
      refine wp_bind (writeUnder_wp (wp_seq (uartstart_wp clean ⟨u.put c, z, rfl,
        ⟨free.fifo.put room, fun _ => free.awake room⟩, fun q eq => by cases eq; exact own⟩) ?_))
      rintro _ _ ⟨u', z', rfl, free', -⟩
      exact releaseUnder_wp (txFree_iff.mpr free') rfl
  · rw [if_neg runs]
    exact wp_bind (stuck_wp rfl)

theorem cons_free {i : Info (M := tty) (.mon .cons)} : ttyTerms.Free (.mon .cons) i :=
  ⟨trivial, fun _ due => due.elim⟩

theorem consoleintr_wp (clean : b.Clean) :
    wp (kernelMachine tty) (kOutline ttyTerms) t (consoleintr t c) (fun _ v => v = .quiet b) (.quiet b) := by
  refine wp_bind (acquireUnder_wp clean fun i _ own =>
    wp_bind (readUnder_wp clean (wp_bind (writeUnder_wp ?_))))
  split
  · refine wp_seq (wakeupUnder_wp clean.picked clean.bed fun q same => own q same _) ?_
    rintro _ _ ⟨z', rfl, _⟩
    exact releaseUnder_wp cons_free rfl
  · exact releaseUnder_wp cons_free rfl

theorem uartintr_wp (clean : b.Clean) :
    wp (kernelMachine tty) (kOutline ttyTerms) t (uartintr t) (fun _ v => v = .quiet b) (.quiet b) := by
  refine wp_seq (R := fun _ v => v = .quiet b) ?_ ?_
  · refine forever_wp (J := fun _ v => v = .quiet b) ?_ ?_ rfl
    · rintro _ _ rfl
      rfl
    · rintro _ _ rfl
      refine wp_bind (wp_bind (choose_wp rfl fun input => ?_))
      cases input with
      | zero => exact rfl
      | succ input => exact wp_seq (consoleintr_wp clean) fun _ _ same => same
  · rintro _ _ rfl
    refine wp_bind (acquireUnder_wp clean fun i free own => ?_)
    refine wp_seq (uartstart_wp clean ⟨i.1, i.2, rfl, txFree_iff.mp free, own⟩) ?_
    rintro _ _ ⟨u, z, rfl, free, -⟩
    exact releaseUnder_wp (txFree_iff.mpr free) rfl

theorem entry_wp {s : Kernel tty} {e : Entry} (calm : Calm t (s.view t)) (legal : e.legal t s) :
    wp (kernelMachine tty) (kOutline ttyTerms) t e.code (fun _ => Calm t) (s.view t) := by
  cases e with
  | putc p c =>
    obtain ⟨rfl, within⟩ := legal
    obtain ⟨b, calm, here⟩ := calm.inside within
    rw [here]
    exact wp_mono (fun _ => calm.back) (uartputc_wp calm.toClean calm.leaving)
  | intr t' =>
    obtain ⟨rfl, within⟩ := legal
    obtain ⟨b, calm, here⟩ := calm.inside within
    rw [here]
    exact wp_mono (fun _ => calm.back) (uartintr_wp calm.toClean)
  | common e => exact Common.code_wp calm legal

theorem ttyReach_inv {crew : Crew} {y : TtyConfig}
    (run : Reach (kernelMachine tty) (fun _ _ _ => True) ttyCalls (ttyStart crew) y) :
    KInv ttyTerms y.shared := by
  have good : ∀ m, ttyTerms.good m (ttyData m) := by
    intro m
    cases m with
    | tx => exact ⟨Nat.zero_le _, rfl⟩
    | cons => trivial
  have start : (kOutline ttyTerms).Holds (kernelMachine tty) Calm (ttyStart crew) :=
    ⟨Crew.boot_inv good, fun t => wp_pure.mpr (Crew.boot_calm t)⟩
  exact (start.reach (kOutline_isolated _) (fun t s e _ calm legal => entry_wp calm legal) run).inv

/-- While `uart_tx_lock` is free the ring is not overfull, what was written to THR and what is in the ring is
what was accepted, and nobody sleeps on a ring that has room. -/
theorem ring_in_order {crew : Crew} {y : TtyConfig}
    (run : Reach (kernelMachine tty) (fun _ _ _ => True) ttyCalls (ttyStart crew) y)
    (free : y.shared.holder txLock = none) :
    ((ofKernel y.shared).w - (ofKernel y.shared).r).toNat ≤ UART_TX_BUF_SIZE ∧
    (ofKernel y.shared).sent ++ (ofKernel y.shared).ring = (ofKernel y.shared).accepted ∧
    ∀ p, (y.shared.proc p).state = .sleeping → (y.shared.proc p).chan = some txChan →
      (ofKernel y.shared).w = (ofKernel y.shared).r + 32 := by
  have inv := ttyReach_inv run
  have tx : TxFree (ofKernel y.shared) _ := txFree_iff.mp (inv.free txLock free)
  refine ⟨tx.fifo.bound, tx.fifo.order, fun p asleep place => ?_⟩
  obtain ⟨chan, eq, dozing⟩ := (inv.slot p).asleep asleep
  rw [place] at eq
  cases eq
  by_contra room
  exact absurd dozing (of_decide_eq_false (tx.awake (decide_eq_false room) p))

/-- So many steps of one flow of control, with what each leaves open. -/
def steps (t : Tid) (choices : List Nat) : List (Move Tid Nat Entry) := choices.map (.act t)

/-- The first process alone. -/
def alone : Crew := ⟨fun p => decide (p = initproc), fun _ => 1, by decide, by decide⟩

/-- The first process stores as many characters as fit while the device is busy, and sleeps on the next. -/
def fill : List (Move Tid Nat Entry) :=
  .call (.cpu 0) (.common (.slot initproc)) :: steps (.cpu 0) [0, 0] ++
    .call (.proc initproc) (.common (.forkret initproc)) :: steps (.proc initproc) [0, 0] ++
    (List.replicate UART_TX_BUF_SIZE (.call (.proc initproc) (.putc initproc 65) ::
      steps (.proc initproc) [0, 0, 1, 0, 0, 1, 0, 0, 0])).flatten ++
    .call (.proc initproc) (.putc initproc 66) :: steps (.proc initproc) [0, 0, 1, 0, 0, 0, 0, 0]

theorem fill_ends : (drive (kernelMachine tty) (fun _ _ _ => True) ttyCalls fill
      (ttyStart alone)).map (fun y =>
    (y.shared.holder txLock, (y.shared.proc initproc).state, (y.shared.proc initproc).chan,
      (ofKernel y.shared).accepted.length)) = some (none, .sleeping, some txChan, 32) := by decide +kernel

theorem ring_in_order_full : ∃ y : TtyConfig, (ofKernel y.shared).accepted.length = 32 ∧
    (ofKernel y.shared).w = (ofKernel y.shared).r + 32 := by
  obtain ⟨y, run, found⟩ := Option.map_eq_some_iff.mp fill_ends
  simp only [Prod.mk.injEq] at found
  obtain ⟨free, asleep, place, count⟩ := found
  exact ⟨y, count, (ring_in_order (drive_reach run) free).2.2 initproc asleep place⟩

end Uart

end Xv6
