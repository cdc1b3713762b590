import Xv6.Reads.Machine
import Xv6.Proc.Pipe

namespace Xv6.Reads
open Function Vm

section Lost

variable {pt : Pagetable} {addr dst : UInt64} {n : Int} {s s' : System} {r : Int} {α : Type}
  {empty : α → Bool}
  {sleeps rest : List (Option α)} {x y : α}

theorem await_ready (done : await empty sleeps x = .ready y rest) :
    empty y = false ∧ (empty x = false → y = x) := by
  induction sleeps generalizing x with
  | nil =>
    unfold await at done
    split at done
    next => cases done
    next full =>
      cases done
      exact ⟨by simpa using full, fun _ => rfl⟩
  | cons w sleeps ih =>
    unfold await at done
    split at done
    next waits =>
      split at done
      next => cases done
      next z => exact ⟨(ih done).1, fun full => absurd full (by simp [waits])⟩
    next full =>
      cases done
      exact ⟨by simpa using full, fun _ => rfl⟩

theorem copyByte (pt : Pagetable) (va : Nat) (c : UInt8) (s : System) :
    (pt.target va = none → onMemory (copyout pt va (fun _ => c) 1) s = .ok (-1, s)) ∧
    ∀ pa, pt.target va = some pa → onMemory (copyout pt va (fun _ => c) 1) s =
      .ok (0, { s with memory := s.memory.write pa (va % PGSIZE) 1 fun _ => c }) := by
  constructor
  · intro missing
    unfold onMemory
    rw [copyout_byte, missing]
    rfl
  · intro pa found
    unfold onMemory
    rw [copyout_byte, found]
    rfl

theorem ring_length (pi : Pipe) : pi.ring.length = (pi.nwrite - pi.nread).toNat := by simp [Pipe.ring]

theorem ring_eq_nil {pi : Pipe} (vacant : pi.empty = true) : pi.ring = [] := by
  have same : pi.nread = pi.nwrite := by simpa [Pipe.empty] using vacant
  simp [Pipe.ring, same]

/-- A round of the copying in `piperead`. -/
theorem pipereadCopy_round (left i : Nat) : pipereadCopy pt addr (left + 1) i s =
    if s.pipe.empty then .ok (i, s)
    else match pt.target (addr + UInt64.ofNat i).toNat with
      | none => .ok (i, s.setPipe { take s.pipe with lost := true })
      | some pa => pipereadCopy pt addr left (i + 1) (({ s.setPipe (take s.pipe) with
          memory := s.memory.write pa ((addr + UInt64.ofNat i).toNat % PGSIZE) 1 fun _ => first s.pipe } :
          System).setPipe { take s.pipe with delivered := s.pipe.delivered ++ [first s.pipe] }) := by
  rw [pipereadCopy]
  show (if s.pipe.empty then (return i : SysM Nat) else _) s = _
  by_cases vacant : s.pipe.empty = true
  · rw [if_pos vacant, if_pos vacant]
    rfl
  rw [if_neg vacant, if_neg vacant]
  obtain ⟨fault, stored⟩ := copyByte pt (addr + UInt64.ofNat i).toNat (first s.pipe) (s.setPipe (take s.pipe))
  show (onMemory _ _ >>= _) = _
  cases found : pt.target (addr + UInt64.ofNat i).toNat with
  | none =>
    rw [fault found]
    rfl
  | some pa =>
    rw [stored pa found]
    rfl

/-- A read copies bytes until an address stops it, and then one byte is gone. -/
theorem pipereadCopy_spec (pt : Pagetable) (addr : UInt64) (left i : Nat) (s : System) :
    ∃ k s', pipereadCopy pt addr left i s = .ok (i + k, s') ∧
      (∀ j < k, pt.target (addr + UInt64.ofNat (i + j)).toNat ≠ none) ∧
      (k = min left s.pipe.ring.length ∧ s'.pipe.delivered ++ s'.pipe.ring = s.pipe.delivered ++ s.pipe.ring ∨
        k < min left s.pipe.ring.length ∧ pt.target (addr + UInt64.ofNat (i + k)).toNat = none ∧
          ∃ ch, s'.pipe.delivered ++ ch :: s'.pipe.ring = s.pipe.delivered ++ s.pipe.ring) := by
  induction left generalizing i s with
  | zero => exact ⟨0, s, rfl, fun _ below => absurd below (Nat.not_lt_zero _), .inl ⟨by simp, rfl⟩⟩
  | succ left ih =>
    rw [pipereadCopy_round]
    cases vacant : s.pipe.empty with
    | true =>
      exact ⟨0, s, rfl, fun _ below => absurd below (Nat.not_lt_zero _),
        .inl ⟨by simp [ring_eq_nil vacant], rfl⟩⟩
    | false =>
      have taken : s.pipe.ring = first s.pipe :: (take s.pipe).ring := Pipe.ring_take vacant
      have length := congrArg List.length taken
      rw [List.length_cons] at length
      rw [if_neg (by decide)]
      cases found : pt.target (addr + UInt64.ofNat i).toNat with
      | none =>
        exact ⟨0, s.setPipe { take s.pipe with lost := true }, rfl, fun _ below => absurd below
          (Nat.not_lt_zero _),
          .inr ⟨by omega, found, first s.pipe, congrArg (s.pipe.delivered ++ ·) taken.symm⟩⟩
      | some pa =>
        have whole : s.pipe.delivered ++ [first s.pipe] ++ (take s.pipe).ring =
          s.pipe.delivered ++ s.pipe.ring := by
          rw [List.append_assoc, List.singleton_append, ← taken]
        obtain ⟨k, s', run, reach, ending⟩ := ih (i + 1) (({ s.setPipe (take s.pipe) with
          memory := s.memory.write pa ((addr + UInt64.ofNat i).toNat % PGSIZE) 1 fun _ => first s.pipe } :
          System).setPipe { take s.pipe with delivered := s.pipe.delivered ++ [first s.pipe] })
        replace ending : k = min left (take s.pipe).ring.length ∧ s'.pipe.delivered ++ s'.pipe.ring =
              s.pipe.delivered ++ [first s.pipe] ++ (take s.pipe).ring ∨
            k < min left (take s.pipe).ring.length ∧
            pt.target (addr + UInt64.ofNat (i + 1 + k)).toNat = none ∧
              ∃ ch, s'.pipe.delivered ++ ch :: s'.pipe.ring =
                s.pipe.delivered ++ [first s.pipe] ++ (take s.pipe).ring := ending
        rw [whole] at ending
        have next : i + (k + 1) = i + 1 + k := by omega
        refine ⟨k + 1, s', by rw [next]; exact run, fun j below => ?_, ?_⟩
        · by_cases initial : j = 0
          · rw [initial, Nat.add_zero, found]
            exact Option.some_ne_none pa
          · have later := reach (j - 1) (by omega)
            rwa [show i + 1 + (j - 1) = i + j by omega] at later
        · rw [next]
          rcases ending with ⟨all, kept⟩ | ⟨short, stop, lost⟩
          · exact .inl ⟨by omega, kept⟩
          · exact .inr ⟨by omega, stop, lost⟩

theorem piperead_await (pt : Pagetable) (addr : UInt64) (n : Int) (pipes : List (Option Pipe)) (s : System) :
    piperead pt addr n pipes s = match await (fun pi => pi.empty && pi.writeopen) pipes s.pipe with
      | .asleep => .ok (none, s)
      | .killed => .ok (some (-1), s)
      | .ready pi _ => (pipereadCopy pt addr n.toNat 0 (s.setPipe pi)).map fun r => (some
          (r.1 : Int), r.2) := by
  unfold piperead
  show (match await (fun pi => pi.empty && pi.writeopen) pipes s.pipe with
    | .asleep => return none
    | .killed => return some (-1)
    | .ready pi _ => do
      modify fun s => s.setPipe pi
      let i ← pipereadCopy pt addr n.toNat 0
      return some i : SysM (Option Int)) s = _
  cases await (fun pi => pi.empty && pi.writeopen) pipes s.pipe with
  | asleep => rfl
  | killed => rfl
  | ready pi rest =>
    show (pipereadCopy pt addr n.toNat 0 (s.setPipe pi) >>= _) =
      (pipereadCopy pt addr n.toNat 0 (s.setPipe pi)).map fun r => (some (r.1 : Int), r.2)
    cases pipereadCopy pt addr n.toNat 0 (s.setPipe pi) with
    | error e => rfl
    | ok r => rfl

/-- The pipe keeps what it cannot deliver exactly if there is no such byte. -/
theorem piperead_kept_iff {pipes rest : List (Option Pipe)} {pi : Pipe}
    (ready : await (fun pi => pi.empty && pi.writeopen) pipes s.pipe = .ready pi rest)
    (run : piperead pt addr n pipes s = .ok (some r, s')) :
    s'.pipe.delivered ++ s'.pipe.ring = pi.delivered ++ pi.ring ↔
      ∀ i < min n.toNat pi.ring.length, pt.target (addr + UInt64.ofNat i).toNat ≠ none := by
  obtain ⟨k, t, copy, reach, ending⟩ := pipereadCopy_spec pt addr n.toNat 0 (s.setPipe pi)
  rw [piperead_await, ready] at run
  simp only [copy] at run
  obtain rfl : t = s' := congrArg Prod.snd (Except.ok.inj run)
  rcases ending with ⟨all, kept⟩ | ⟨short, stop, ch, lost⟩
  · refine ⟨fun _ i below => ?_, fun _ => kept⟩
    have copied := reach i (lt_of_lt_of_eq below all.symm)
    rwa [Nat.zero_add] at copied
  · refine ⟨fun kept => ?_, fun every => ?_⟩
    · have length := congrArg List.length (lost.trans kept.symm)
      simp only [List.length_append, List.length_cons] at length
      omega
    · rw [Nat.zero_add] at stop
      exact absurd stop (every k short)

/-- A round of `consoleread`. -/
theorem consolereadLoop_round (target left : Nat) (conss : List (Option Cons)) :
    consolereadLoop pt target (left + 1) dst conss s =
      match await (fun cons => decide (cons.r = cons.w)) conss s.cons with
      | .asleep => .ok (none, s)
      | .killed => .ok (some (-1), s)
      | .ready cons sleeps =>
        let c := cons.buf (Cons.index cons.r)
        if c = ctrl 'D' then .ok (some ((target : Int) - (left + 1)),
          if left + 1 < target then { s.takeCons cons with cons := { cons with r := cons.r + 1 - 1 } }
          else s.takeCons cons)
        else match pt.target dst.toNat with
          | none => .ok (some ((target : Int) - (left + 1)), { s.takeCons cons with lost := true })
          | some pa =>
            let s' := { s.takeCons cons with
              memory := s.memory.write pa (dst.toNat % PGSIZE) 1 fun _ => c
              copied := s.copied ++ [c] }
            if c = newline then .ok (some ((target : Int) - left), s')
            else consolereadLoop pt target left (dst + 1) sleeps s' := by
  rw [consolereadLoop]
  show (match await (fun cons => decide (cons.r = cons.w)) conss s.cons with
    | .asleep => return none
    | .killed => return some (-1)
    | .ready cons sleeps => do
      modify fun s => s.takeCons cons
      if cons.buf (Cons.index cons.r) = ctrl 'D' then
        if left + 1 < target then
          modify fun s => { s with cons := { s.cons with r := s.cons.r - 1 } }
        return some ((target : Int) - (left + 1))
      else if (← onMemory (copyout pt dst.toNat (fun _ => cons.buf (Cons.index cons.r)) 1)) = -1 then
        modify fun s => { s with lost := true }
        return some ((target : Int) - (left + 1))
      else
        modify fun s => { s with copied := s.copied ++ [cons.buf (Cons.index cons.r)] }
        if cons.buf (Cons.index cons.r) = newline then return some ((target : Int) - left)
        else consolereadLoop pt target left (dst + 1) sleeps : SysM (Option Int)) s = _
  cases await (fun cons => decide (cons.r = cons.w)) conss s.cons with
  | asleep => rfl
  | killed => rfl
  | ready cons sleeps =>
    by_cases eof : cons.buf (Cons.index cons.r) = ctrl 'D'
    · simp only [eof, if_true]
      split <;> rfl
    · obtain ⟨fault, stored⟩ := copyByte pt dst.toNat (cons.buf (Cons.index cons.r)) (s.takeCons cons)
      simp only [eof, if_false]
      show (onMemory _ _ >>= _) = _
      cases reach : pt.target dst.toNat with
      | none =>
        rw [fault reach]
        rfl
      | some pa =>
        rw [stored pa reach]
        by_cases last : cons.buf (Cons.index cons.r) = newline
        · simp only [last, if_true]
          rfl
        · simp only [last, if_false]
          rfl

/-- A console read that an address stops has taken out one more byte than it copied. -/
theorem consolereadLoop_lost {target left : Nat} {conss : List (Option Cons)}
    (run : consolereadLoop pt target left dst conss s = .ok (some r, s')) (before : s.lost = false)
    (after : s'.lost = true) : ∃ c A, s'.arrived = s.arrived ++ A ∧
      s'.copied ++ c :: s'.cons.unread = s.copied ++ s.cons.unread ++ A := by
  induction left generalizing s dst conss with
  | zero =>
    cases run
    rw [before] at after
    cases after
  | succ left ih =>
    rw [consolereadLoop_round] at run
    cases ready : await (fun cons => decide (cons.r = cons.w)) conss s.cons with
    | asleep =>
      rw [ready] at run
      cases run
    | killed =>
      rw [ready] at run
      cases run
      rw [before] at after
      cases after
    | ready cons sleeps =>
      rw [ready] at run
      obtain ⟨full, same⟩ := await_ready ready
      have apart : cons.r ≠ cons.w := by simpa using full
      have head : cons.unread = cons.buf (Cons.index cons.r) :: cons.span (cons.r + 1) cons.w :=
        Cons.span_head apart
      -- What was there before, with what came while the process slept, is what it finds.
      obtain ⟨A, arrived, found⟩ : ∃ A, (s.takeCons cons).arrived = s.arrived ++ A ∧
          s.cons.unread ++ A = cons.unread := by
        by_cases slept : s.cons.r = s.cons.w
        · refine ⟨cons.unread, if_pos slept, ?_⟩
          rw [show s.cons.unread = [] from Cons.span_eq_nil.mpr slept, List.nil_append]
        · refine ⟨[], by rw [System.takeCons, if_neg slept, List.append_nil], ?_⟩
          rw [same (by simpa using slept), List.append_nil]
      simp only at run
      split at run
      next eof =>
        cases run
        have kept : s.lost = true := by split at after <;> exact after
        exact absurd (kept.symm.trans before) (by decide)
      next =>
        split at run
        next =>
          cases run
          refine ⟨cons.buf (Cons.index cons.r), A, arrived, ?_⟩
          rw [List.append_assoc, found, head]
          rfl
        next pa _ =>
          split at run
          next =>
            cases run
            exact absurd ((show s.lost = true from after).symm.trans before) (by decide)
          next =>
            obtain ⟨c, B, more, whole⟩ := ih run before
            refine ⟨c, A ++ B, by rw [more, ← List.append_assoc, ← arrived], whole.trans ?_⟩
            rw [← List.append_assoc, List.append_assoc s.copied _ A, found, head]
            show s.copied ++ [cons.buf (Cons.index cons.r)] ++ cons.span (cons.r + 1) cons.w ++ B = _
            rw [List.append_assoc s.copied, List.singleton_append]

end Lost

/-- A read that cannot deliver a byte consumes it. For a pipe as `piperead` finds it when it stops waiting,
what was delivered and what is left is what was there exactly if every address that a byte is for can be
written to. A console read that is stopped by an address never has copied and left what was there and what
came while it slept. -/
theorem read_loses_byte (pt : Pagetable) (addr : UInt64) (n : Int) (s s' : System) (r : Int) :
    (∀ pipes pi rest, await (fun pi => pi.empty && pi.writeopen) pipes s.pipe = .ready pi rest →
      piperead pt addr n pipes s = .ok (some r, s') →
      (s'.pipe.delivered ++ s'.pipe.ring = pi.delivered ++ pi.ring ↔
        ∀ i < min n.toNat pi.ring.length, pt.target (addr + UInt64.ofNat i).toNat ≠ none)) ∧
    (∀ conss, s.copied = [] → s.arrived = [] → s.lost = false →
      consoleread pt addr n conss s = .ok (some r, s') → s'.lost = true →
      s'.copied ++ s'.cons.unread ≠ s.cons.unread ++ s'.arrived) := by
  refine ⟨fun pipes pi rest ready run => piperead_kept_iff ready run,
    fun conss copied arrived before run after kept => ?_⟩
  obtain ⟨c, A, came, whole⟩ := consolereadLoop_lost run before after
  rw [arrived, List.nil_append] at came
  rw [copied, List.nil_append, ← came, ← kept] at whole
  have length := congrArg List.length whole
  simp only [List.length_append, List.length_cons] at length
  omega

/-- A page table without user pages. -/
def noPages : Pagetable := ⟨0, fun _ => none, fun _ => none, fun _ => none⟩

/-- One byte is in the pipe and one line on the console. -/
def oneByte : System where
  memory := ⟨0, 0, fun _ _ => 0, [], fun _ _ => false⟩
  volume := ⟨0, fun _ => false, fun _ _ => 0, fun _ => ⟨0, 0, 0, fun _ => 0⟩, 0, 0⟩
  pipe := pipealloc.put 5
  cons := ⟨fun _ => newline, 0, 1, 1⟩
  copied := []
  arrived := []
  lost := false

theorem noPages_target (va : Nat) : noPages.target va = none := by simp [Pagetable.target, noPages]

theorem piperead_oneByte : piperead noPages 0 1 [] oneByte =
    .ok (some 0, oneByte.setPipe { take oneByte.pipe with lost := true }) := by
  have ready : await (fun pi => pi.empty && pi.writeopen) [] oneByte.pipe = .ready oneByte.pipe [] := rfl
  rw [piperead_await, ready]
  simp only [Int.toNat_one, pipereadCopy_round, noPages_target]
  rfl

theorem consoleread_oneByte : consoleread noPages 0 1 [] oneByte =
    .ok (some 0, { oneByte.takeCons oneByte.cons with lost := true }) := by
  rw [consoleread, Int.toNat_one, consolereadLoop_round, noPages_target]
  rfl

/-- The byte goes to an address that is not mapped. -/
theorem read_loses_last : ∃ s' s'' : System,
    piperead noPages 0 1 [] oneByte = .ok (some 0, s') ∧ oneByte.pipe.ring = [5] ∧
      s'.pipe.delivered ++ s'.pipe.ring = [] ∧
      consoleread noPages 0 1 [] oneByte = .ok (some 0, s'') ∧ oneByte.cons.unread = [newline] ∧
      s''.copied ++ s''.cons.unread = [] :=
  ⟨_, _, piperead_oneByte, by decide, by decide, consoleread_oneByte, by decide, by decide⟩

theorem read_loses_byte_unmapped : ∃ s' s'' : System,
    s'.pipe.delivered ++ s'.pipe.ring ≠ oneByte.pipe.delivered ++ oneByte.pipe.ring ∧
      s''.copied ++ s''.cons.unread ≠ oneByte.cons.unread ++ s''.arrived :=
  ⟨_, _, fun kept => ((read_loses_byte noPages 0 1 oneByte _ 0).1 [] _ [] rfl piperead_oneByte).mp kept 0
      (by decide) (noPages_target _),
    (read_loses_byte noPages 0 1 oneByte _ 0).2 [] rfl rfl rfl consoleread_oneByte rfl⟩

end Xv6.Reads
