import Xv6.Console.Machine
import Xv6.Proc.Agree
import Xv6.Reads.Lost

/-! `consoleread` does the same in all three models while nobody else uses the console: it finds input each
time that it looks, or it is killed. -/

namespace Xv6.Reads
open Threads Function Vm
open Console (conMachine ConState ConAct ConProg)

/-- Nobody else has the lock in between: a process that would sleep is killed, or asleep for good. -/
theorem await_alone {α : Type} (empty : α → Bool) (m : Nat) (x : α) : await empty (List.replicate m none) x =
    if empty x then (if m = 0 then .asleep else .killed) else .ready x (List.replicate m none) := by
  cases m with
  | zero => rfl
  | succ m =>
    rw [List.replicate_succ, await]
    split <;> rfl

/-- `cons.r++` -/
def taken (cons : Cons) : Cons := { cons with r := cons.r + 1 }

/-- The byte that `cons.r` is at. -/
def front (cons : Cons) : UInt8 := cons.buf (Cons.index cons.r)

/-- How a round of `consoleread` goes that has an answer, if `left + 1` bytes are still to read. -/
inductive Round (pt : Pagetable) (target left m : Nat) (dst : UInt64) (s s' : System) (value : Int) : Prop
  | killed : s.cons.r = s.cons.w → m ≠ 0 → value = -1 → s' = s → Round pt target left m dst s s' value
  | eof : s.cons.r ≠ s.cons.w → front s.cons = ctrl 'D' → value = target - (left + 1) →
    s'.cons = (if left + 1 < target then s.cons else taken s.cons) → s'.copied = s.copied →
    Round pt target left m dst s s' value
  | fault : s.cons.r ≠ s.cons.w → front s.cons ≠ ctrl 'D' → value = target - (left + 1) →
    s'.cons = taken s.cons → s'.lost = true → Round pt target left m dst s s' value
  | line : s.cons.r ≠ s.cons.w → front s.cons ≠ ctrl 'D' → front s.cons = newline → value = target - left →
    s'.cons = taken s.cons → s'.copied = s.copied ++ [front s.cons] → Round pt target left m dst s s' value
  | more (s₁ : System) : s.cons.r ≠ s.cons.w → front s.cons ≠ ctrl 'D' → front s.cons ≠ newline →
    s₁.cons = taken s.cons → s₁.copied = s.copied ++ [front s.cons] →
    consolereadLoop pt target left (dst + 1) (List.replicate m none) s₁ = .ok (some value, s') →
    Round pt target left m dst s s' value

/-- The console changes. -/
abbrev setCons {D : Type} (d : (m : DevLock) → DevLock.Data D m) (cons : Cons) :
    (m : DevLock) → DevLock.Data D m := update d .cons cons

section Agree

variable {pt : Pagetable} {dst : UInt64} {s s' : System} {t : ConState} {p : ProcId} {value : Int} {m : Nat}

theorem waitInput_ready (ready : t.cons.r ≠ t.cons.w) :
    Console.waitInput.Finishes conMachine (.proc p) t true t :=
  .seq 1 rfl (.bind (.seq 0 rfl (by rw [if_neg ready]; exact .pure)) .pure)

theorem waitInput_killed (vacant : t.cons.r = t.cons.w) :
    Console.waitInput.Finishes conMachine (.proc p) t false t :=
  .seq 1 rfl (.bind (.seq 0 rfl (by rw [if_pos vacant]; exact .seq 1 rfl .pure)) .pure)

theorem round_cases {target left : Nat}
    (run : consolereadLoop pt target (left + 1) dst (List.replicate m none) s = .ok (some value, s')) :
    Round pt target left m dst s s' value := by
  rw [consolereadLoop_round, await_alone] at run
  by_cases vacant : s.cons.r = s.cons.w
  · rw [if_pos (decide_eq_true vacant)] at run
    by_cases none : m = 0
    · rw [if_pos none] at run
      cases run
    · rw [if_neg none] at run
      cases run
      exact .killed vacant none rfl rfl
  rw [if_neg (by simpa using vacant)] at run
  dsimp only at run
  by_cases eof : s.cons.buf (Cons.index s.cons.r) = ctrl 'D'
  · rw [if_pos eof] at run
    cases run
    refine .eof vacant eof rfl ?_ ?_
    · split
      · show Cons.mk s.cons.buf (s.cons.r + 1 - 1) s.cons.w s.cons.e = s.cons
        rw [UInt32.add_sub_cancel]
      · rfl
    · split <;> rfl
  rw [if_neg eof] at run
  cases reach : pt.target dst.toNat with
  | none =>
    rw [reach] at run
    cases run
    exact .fault vacant eof rfl rfl rfl
  | some pa =>
    rw [reach] at run
    dsimp only at run
    by_cases last : s.cons.buf (Cons.index s.cons.r) = newline
    · rw [if_pos last] at run
      cases run
      exact .line vacant eof last rfl rfl rfl
    · rw [if_neg last] at run
      exact .more _ vacant eof last rfl rfl run

/-- The end of a read. -/
theorem finish_can (value : Int) (eof : Bool) :
    (Console.finish p value eof).Can conMachine (.proc p) t fun r t' =>
    r = value ∧ t'.cons = t.cons ∧ t'.holder = none ∧ Console.got p t'.log = Console.got p t.log :=
  .bind (.step 0 rfl (.bind (.step 0 rfl (.pure ⟨rfl, rfl, rfl, rfl⟩))))

/-- Only in this model can a byte be lost. -/
theorem consolereadFrom_console {target left : Nat}
    (run : consolereadLoop pt target left dst (List.replicate m none) s = .ok (some value, s'))
    (whole : s'.lost = false) (same : t.cons = s.cons) :
    (Console.consolereadFrom p target left).Can conMachine (.proc p) t fun r t' => r = value ∧
    t'.cons = s'.cons ∧
      t'.holder = none ∧ ∃ bytes, s'.copied = s.copied ++ bytes ∧
      Console.got p t'.log = Console.got p t.log ++ bytes := by
  induction left generalizing dst s t with
  | zero =>
    cases run
    refine (finish_can _ _).mono fun r t' done => ?_
    obtain ⟨rfl, cons, holder, got⟩ := done
    exact ⟨rfl, cons.trans same, holder, [], (List.append_nil _).symm, got.trans (List.append_nil _).symm⟩
  | succ left ih =>
    have here : t.cons.buf (Cons.index t.cons.r) = front s.cons := by rw [same]; rfl
    have after : { t.cons with r := t.cons.r + 1 } = taken s.cons := by rw [same]; rfl
    cases round_cases run with
    | killed vacant _ answer still =>
      refine .bind ⟨false, t, waitInput_killed (same ▸ vacant), ?_⟩
      refine .bind (.step 0 rfl (.bind (.step 0 rfl (.pure ?_))))
      rw [answer, still]
      exact ⟨rfl, same, rfl, [], (List.append_nil _).symm, (List.append_nil _).symm⟩
    | eof ready end' answer cons copied =>
      refine .bind ⟨true, t, waitInput_ready (same ▸ ready), .bind (.step 0 rfl (.bind (.step 0 rfl ?_)))⟩
      rw [answer, cons, copied, if_pos (here.trans end')]
      split
      · refine .bind (.step 0 rfl ((finish_can _ _).mono fun r t' done => ?_))
        obtain ⟨rfl, cons, holder, got⟩ := done
        exact ⟨rfl, cons.trans same, holder, [], (List.append_nil _).symm,
          got.trans (List.append_nil _).symm⟩
      · refine (finish_can _ _).mono fun r t' done => ?_
        obtain ⟨rfl, cons, holder, got⟩ := done
        exact ⟨rfl, cons.trans after, holder, [], (List.append_nil _).symm,
          got.trans (List.append_nil _).symm⟩
    | fault _ _ _ _ lost => cases whole.symm.trans lost
    | line ready ends last answer cons copied =>
      refine .bind ⟨true, t, waitInput_ready (same ▸ ready), .bind (.step 0 rfl (.bind (.step 0 rfl ?_)))⟩
      rw [answer, cons, copied, if_neg (here ▸ ends)]
      refine .bind (.step 0 rfl ?_)
      rw [if_pos (here.trans last)]
      refine (finish_can _ _).mono fun r t' done => ?_
      obtain ⟨rfl, cons, holder, got⟩ := done
      refine ⟨rfl, cons.trans after, holder, [front s.cons], rfl, got.trans ?_⟩
      rw [here]
      exact if_pos rfl
    | more s₁ ready ends long cons copied rest =>
      refine .bind ⟨true, t, waitInput_ready (same ▸ ready), .bind (.step 0 rfl (.bind (.step 0 rfl ?_)))⟩
      rw [if_neg (here ▸ ends)]
      refine .bind (.step 0 rfl ?_)
      rw [if_neg (here ▸ long)]
      refine (ih rest (after.trans cons.symm)).mono fun r t' done => ?_
      obtain ⟨value, cons', holder, bytes, copied', got⟩ := done
      refine ⟨value, cons', holder, front s.cons :: bytes, ?_, got.trans ?_⟩
      · rw [copied', copied, List.append_assoc]
        rfl
      · rw [here]
        exact (congrArg (· ++ bytes) (if_pos rfl)).trans (List.append_assoc ..)

/-- A read whose copies succeed, by a process that is killed when it would sleep or is left asleep. -/
theorem consoleread_console (n : Int) (free : t.holder = none) (same : t.cons = s.cons) :
    Gives (consoleread pt dst n (List.replicate m none)) s fun r s' => s'.lost = false →
    ∀ value, r = some value →
    (Console.consoleread p n).Can conMachine (.proc p) t fun r' t' => r' = value ∧ t'.cons = s'.cons ∧
      t'.holder = none ∧ s'.copied = s.copied ++ Console.got p t'.log := by
  intro r s' run whole value answer
  have locked : conMachine (.proc p) 0 .acquire t = .ok () { t with holder := some (.proc p) } := by
    simp only [conMachine, free]
  let began : ConState := { t with holder := some (.proc p), log := .began p n :: t.log }
  refine .bind (.step 0 locked (.bind (.step 0 rfl ?_)))
  refine (consolereadFrom_console (t := began) (answer ▸ run) whole same).mono fun r' t' done => ?_
  obtain ⟨value, cons, holder, bytes, copied, got⟩ := done
  have fresh : Console.got p began.log = [] := if_pos rfl
  rw [fresh, List.nil_append] at got
  exact ⟨value, cons, holder, copied.trans (by rw [got])⟩

variable {D : Type} {T : Proc.Table} {c : Cpu} {d : (m : DevLock) → DevLock.Data D m} {k : Kernel (devices D)}

theorem consolereadRound_ready (here : Proc.At T p c d [consLock] k) (ready : (d .cons).r ≠ (d .cons).w) :
    Proc.Can p (forever (fun _ => consolereadRound p) ()) k fun r k' => r = true ∧
    Proc.At T p c d [consLock] k' := by
  refine here.step 1 rfl rfl here.table fun k₁ at₁ => .bind (at₁.read fun k₂ at₂ => ?_)
  rw [if_neg ready]
  exact .pure (.pure ⟨rfl, at₂⟩)

theorem consolereadRound_killed (here : Proc.At T p c d [consLock] k) (vacant : (d .cons).r = (d .cons).w)
    (dead : (T.entry p).killed = true) :
    Proc.Can p (forever (fun _ => consolereadRound p) ()) k fun r k' => r = false ∧ Proc.At T p c d [] k' :=
  by
  have apart : Lock.proc p ∉ [(consLock : Lock (devices D))] := by simp
  refine here.step 1 rfl rfl here.table fun k₁ at₁ => .bind (at₁.read fun k₂ at₂ => ?_)
  rw [if_pos vacant]
  refine .bind (at₂.acquire apart fun k₃ at₃ => ?_)
  have set : (k₃.proc p).killed = true := by
    rw [← dead, ← at₃.table]
    rfl
  refine at₃.step 0 (if_pos set) rfl at₃.table fun k₄ at₄ => at₄.give apart fun k₅ at₅ => .pure ?_
  exact at₅.give List.not_mem_nil fun k₆ at₆ => .pure (.pure ⟨rfl, at₆⟩)

theorem consolereadFrom_devices {target left : Nat}
    (run : consolereadLoop pt target left dst (List.replicate m none) s = .ok (some value, s'))
    (dead : m ≠ 0 → (T.entry p).killed = true) (here : Proc.At T p c d [consLock] k)
    (same : d .cons = s.cons) :
    Proc.Can p (Xv6.consolereadFrom p target left) k fun r k' =>
      r = value ∧ ∃ d', Proc.At T p c d' [] k' ∧ d' .cons = s'.cons := by
  induction left generalizing dst s k d with
  | zero =>
    cases run
    exact here.give List.not_mem_nil fun k₁ at₁ => .pure ⟨rfl, d, at₁, same⟩
  | succ left ih =>
    have byte : (d .cons).buf (Cons.index (d .cons).r) = front s.cons := by rw [same]; rfl
    have next : { d .cons with r := (d .cons).r + 1 } = taken s.cons := by rw [same]; rfl
    have input {post : Int → Kernel (devices D) → Prop} (ready : s.cons.r ≠ s.cons.w)
        (rest : ∀ k₁, Proc.At T p c (setCons d (taken s.cons)) [consLock] k₁ → Proc.Can p (do
          if front s.cons = ctrl 'D' then
            if left + 1 < target then writeCons s.cons
            (KAct.release consLock).run
            return (target : Int) - (left + 1)
          else if ← copyoutByte then
            if front s.cons = newline then
              (KAct.release consLock).run
              return (target : Int) - left
            else Xv6.consolereadFrom p target left
          else
            (KAct.release consLock).run
            return (target : Int) - (left + 1)) k₁ post) :
        Proc.Can p (Xv6.consolereadFrom p target (left + 1)) k post := by
      refine .bind ((consolereadRound_ready here (same ▸ ready)).mono fun r k₁ found => ?_)
      obtain ⟨rfl, at₁⟩ := found
      refine at₁.read fun k₂ at₂ => at₂.write fun k₃ at₃ => ?_
      rw [next] at at₃
      rw [byte, same]
      exact rest k₃ at₃
    cases round_cases run with
    | killed vacant asked answer still =>
      refine .bind ((consolereadRound_killed here (same ▸ vacant) (dead asked)).mono fun r k₁ found => ?_)
      obtain ⟨rfl, at₁⟩ := found
      exact .pure ⟨answer.symm, d, at₁, same.trans (congrArg System.cons still.symm)⟩
    | eof ready ends answer cons copied =>
      refine input ready fun k₁ at₁ => ?_
      rw [answer, cons, if_pos ends]
      split
      · exact at₁.write fun k₂ at₂ => at₂.give List.not_mem_nil fun k₃ at₃ =>
          .pure ⟨rfl, _, at₃, update_self ..⟩
      · exact at₁.give List.not_mem_nil fun k₂ at₂ => .pure ⟨rfl, _, at₂, update_self ..⟩
    | fault ready ends answer cons lost =>
      refine input ready fun k₁ at₁ => ?_
      rw [answer, cons, if_neg ends]
      refine .bind (at₁.step 0 rfl rfl at₁.table fun k₂ at₂ => .pure ?_)
      exact at₂.give List.not_mem_nil fun k₃ at₃ => .pure ⟨rfl, _, at₃, update_self ..⟩
    | line ready ends last answer cons copied =>
      refine input ready fun k₁ at₁ => ?_
      rw [answer, cons, if_neg ends]
      refine .bind (at₁.step 1 rfl rfl at₁.table fun k₂ at₂ => .pure ?_)
      rw [if_pos last]
      exact at₂.give List.not_mem_nil fun k₃ at₃ => .pure ⟨rfl, _, at₃, update_self ..⟩
    | more s₁ ready ends long cons copied rest =>
      refine input ready fun k₁ at₁ => ?_
      rw [if_neg ends]
      refine .bind (at₁.step 1 rfl rfl at₁.table fun k₂ at₂ => .pure ?_)
      rw [if_neg long]
      exact ih rest at₂ ((update_self ..).trans cons.symm)

/-- A read that looks at the console under its lock, whether or not its copies succeed. -/
theorem consoleread_devices (n : Int) (dead : m ≠ 0 → (T.entry p).killed = true) (here : Proc.At T p c d [] k)
    (same : d .cons = s.cons) : Gives (consoleread pt dst n (List.replicate m none)) s fun r s' =>
      ∀ value, r = some value → Proc.Can p (Xv6.consoleread p n) k fun r' k' =>
        r' = value ∧ ∃ d', Proc.At T p c d' [] k' ∧ d' .cons = s'.cons :=
  fun _ _ run _ answer => here.acquire List.not_mem_nil fun _ at₁ => consolereadFrom_devices
  (answer ▸ run) dead at₁ same

end Agree

end Xv6.Reads
