import Xv6.Console.Ring

namespace Xv6.Console
open Function

/-- A line editor: all that was ever committed, how much of it has been read, and the line that can still be
edited. -/
@[ext] structure Editor where
  committed : List UInt8
  taken : Nat
  line : List UInt8

namespace Editor

/-- Nothing typed yet. -/
def fresh : Editor := ⟨[], 0, []⟩

/-- The number of bytes that no read has taken. -/
def pending (ed : Editor) : Nat := (ed.committed.drop ed.taken).length + ed.line.length

/-- The next byte to read. -/
def next (ed : Editor) : Option UInt8 := (ed.committed.drop ed.taken).head?

def take (ed : Editor) : Editor := { ed with taken := ed.taken + 1 }

def commit (ed : Editor) (line : List UInt8) : Editor :=
  { ed with committed := ed.committed ++ line, line := [] }

/-- One key, of which some are not for the line: control-U kills the line, backspace and delete erase its last
byte, and any other key is entered unless the bytes pending are as many as the ring has slots. A carriage
return is a newline; a newline, control-D and the last slot commit the line. -/
def key (ignored : List UInt8) (ed : Editor) (c : UInt8) : Editor :=
  if c ∈ ignored then ed
  else if c = ctrl 'U' then { ed with line := [] }
  else if c = ctrl 'H' ∨ c = 127 then { ed with line := ed.line.dropLast }
  else if ed.pending = INPUT_BUF_SIZE then ed
  else
    let c := if c = 13 then newline else c
    if c = newline ∨ c = ctrl 'D' ∨ ed.pending + 1 = INPUT_BUF_SIZE then ed.commit (ed.line ++ [c])
    else { ed with line := ed.line ++ [c] }

end Editor

/-- The keys that `consoleintr` does not enter: control-P, which prints the processes, and the zero byte. -/
def ignored : List UInt8 := [ctrl 'P', 0]

end Xv6.Console

namespace Xv6.Cons
open Function Console

/-- The indices are in order, and the ring shows what the editor has. -/
structure Shows (cons : Cons) (ed : Editor) : Prop where
  order : (cons.w - cons.r).toNat ≤ (cons.e - cons.r).toNat
  room : (cons.e - cons.r).toNat ≤ INPUT_BUF_SIZE
  unread : cons.unread = ed.committed.drop ed.taken
  line : cons.line = ed.line
  taken : ed.taken ≤ ed.committed.length
  raw : newline ∉ ed.line

section Shows

variable {cons : Cons} {ed : Editor} {c : UInt8}

theorem Shows.whole (h : cons.Shows ed) : cons.unread ++ cons.line = cons.span cons.r cons.e :=
  span_append h.order

theorem Shows.pending (h : cons.Shows ed) : ed.pending = (cons.e - cons.r).toNat := by
  have sum := congrArg List.length h.whole
  rw [List.length_append, span_length] at sum
  rw [Editor.pending, ← h.unread, ← h.line]
  exact sum

theorem Shows.next (h : cons.Shows ed) (some : cons.r ≠ cons.w) :
    ed.next = .some (cons.buf (index cons.r)) := by
  rw [Editor.next, ← h.unread, Cons.unread, span_head some]
  rfl

/-- `cons.r++` -/
theorem Shows.take (h : cons.Shows ed) (some : cons.r ≠ cons.w) :
    { cons with r := cons.r + 1 }.Shows ed.take := by
  have least := distance_head some
  have order := h.order
  have apart : cons.r ≠ cons.e := by
    intro same
    rw [← same, least, UInt32.sub_self, UInt32.toNat_zero] at order
    omega
  have most := distance_head apart
  have head := @span_head cons _ _ some
  have room := h.room
  have unread := h.unread
  rw [Cons.unread, head] at unread
  have more : ed.taken < ed.committed.length := by
    by_contra none
    rw [List.drop_eq_nil_of_le (by omega)] at unread
    cases unread
  refine ⟨?_, ?_, ?_, h.line, more, h.raw⟩
  · show (cons.w - (cons.r + 1)).toNat ≤ (cons.e - (cons.r + 1)).toNat
    omega
  · show (cons.e - (cons.r + 1)).toNat ≤ INPUT_BUF_SIZE
    omega
  · rw [List.drop_eq_getElem_cons more] at unread
    exact (List.cons.inj unread).2

/-- The ends of the line after its last byte is gone. -/
theorem last_slot (apart : cons.w ≠ cons.e) (order : (cons.w - cons.r).toNat ≤ (cons.e - cons.r).toNat) :
    (cons.e - cons.w).toNat = (cons.e - 1 - cons.w).toNat + 1 ∧
      (cons.w - cons.r).toNat ≤ (cons.e - 1 - cons.r).toNat ∧
      (cons.e - cons.r).toNat = (cons.e - 1 - cons.r).toNat + 1 := by
  have apart : cons.w.toNat ≠ cons.e.toNat := fun same => apart (UInt32.toNat_inj.mp same)
  have first := cons.r.toNat_lt
  have second := cons.w.toNat_lt
  have third := cons.e.toNat_lt
  simp only [UInt32.toNat_sub] at order ⊢
  rw [show (1 : UInt32).toNat = 1 from rfl]
  omega

theorem line_last (apart : cons.w ≠ cons.e) (order : (cons.w - cons.r).toNat ≤ (cons.e - cons.r).toNat) :
    cons.line = cons.span cons.w (cons.e - 1) ++ [cons.buf (index (cons.e - 1))] := by
  have size := (cons.e - cons.w).toNat_lt
  have last := @span_last cons cons.w (cons.e - 1) (by
    have := (last_slot apart order).1
    omega)
  rw [UInt32.sub_add_cancel] at last
  exact last

/-- Erasing the last byte of the line. -/
theorem Shows.erase (h : cons.Shows ed) (apart : cons.w ≠ cons.e) :
    { cons with e := cons.e - 1 }.Shows { ed with line := ed.line.dropLast } := by
  obtain ⟨-, order, shrinks⟩ := last_slot apart h.order
  have last := line_last apart h.order
  have room := h.room
  refine ⟨order, ?_, h.unread, ?_, h.taken, fun member => h.raw (List.dropLast_subset _ member)⟩
  · show (cons.e - 1 - cons.r).toNat ≤ INPUT_BUF_SIZE
    omega
  · rw [← h.line, last, List.dropLast_concat]
    rfl

/-- Control-U erases the whole line, since no newline stands in it. -/
theorem Shows.killLine (h : cons.Shows ed) {n : Nat} (whole : n = (cons.e - cons.w).toNat) :
    (cons.killLine n).Shows { ed with line := [] } := by
  induction n generalizing cons ed with
  | zero =>
    have size := span_length cons cons.w cons.e
    have none : ed.line = [] := by
      rw [← h.line]
      exact List.eq_nil_of_length_eq_zero (by rw [Cons.line]; omega)
    exact none ▸ h
  | succ n ih =>
    have apart : cons.w ≠ cons.e := by
      intro same
      rw [same, UInt32.sub_self] at whole
      cases whole
    have last := line_last apart h.order
    have other : cons.buf (index (cons.e - 1)) ≠ newline := by
      intro same
      refine h.raw ?_
      rw [← h.line, last, same]
      simp
    rw [Cons.killLine, if_pos ⟨apart.symm, other⟩]
    have shorter := (last_slot apart h.order).1
    have rest := ih (h.erase apart) (by show n = (cons.e - 1 - cons.w).toNat; omega)
    exact rest

/-- Storing a byte in the slot after the line. -/
theorem Shows.store (h : cons.Shows ed) (room : (cons.e - cons.r).toNat < INPUT_BUF_SIZE) {stored : Cons}
    (same : stored = { cons with buf := update cons.buf (index cons.e) c, e := cons.e + 1 }) :
    stored.unread = cons.unread ∧ stored.line = cons.line ++ [c] ∧
      (stored.e - stored.r).toNat = (cons.e - cons.r).toNat + 1 := by
  have small : INPUT_BUF_SIZE = 128 := rfl
  have order := h.order
  have part : (cons.e - cons.w).toNat ≤ (cons.e - cons.r).toNat := by
    have sum := congrArg List.length h.whole
    rw [List.length_append, Cons.unread, Cons.line, span_length, span_length, span_length] at sum
    omega
  have grown := distance_last (a := cons.r) (b := cons.e) (by omega)
  have last := @span_last stored cons.w cons.e (by omega)
  have buf : stored.buf = update cons.buf (index cons.e) c := by rw [same]
  have kept : stored.span cons.w cons.e = cons.span cons.w cons.e := span_store (by omega) stored buf
  have all : stored.span cons.r cons.e = cons.span cons.r cons.e := span_store room stored buf
  have front : stored.span cons.r cons.w = cons.span cons.r cons.w := by
    have whole := h.whole
    rw [← all, ← span_append order, kept] at whole
    exact (List.append_cancel_right whole).symm
  refine ⟨?_, ?_, ?_⟩
  · rw [Cons.unread, show stored.r = cons.r by rw [same], show stored.w = cons.w by rw [same]]
    exact front
  · rw [Cons.line, Cons.line, ← kept, show stored.w = cons.w by rw [same],
      show stored.e = cons.e + 1 by rw [same], last, buf, update_self]
  · rw [show stored.e = cons.e + 1 by rw [same], show stored.r = cons.r by rw [same], grown]

/-- Entering a byte, which may commit the line. -/
theorem Shows.enter (h : cons.Shows ed) (free : (cons.e - cons.r).toNat < INPUT_BUF_SIZE) {stored : Cons}
    (same : stored = { cons with buf := update cons.buf (index cons.e) c, e := cons.e + 1 }) :
    (if c = newline ∨ c = ctrl 'D' ∨ (stored.e - stored.r).toNat = INPUT_BUF_SIZE then
      ({ stored with w := stored.e }, true) else (stored, false)).1.Shows
    (if c = newline ∨ c = ctrl 'D' ∨ ed.pending + 1 = INPUT_BUF_SIZE then ed.commit (ed.line ++ [c])
      else { ed with line := ed.line ++ [c] }) := by
  obtain ⟨unread, line, grown⟩ := h.store free same
  have order := h.order
  have read : stored.r = cons.r := by rw [same]
  have written : stored.w = cons.w := by rw [same]
  have small : (stored.e - stored.r).toNat ≤ INPUT_BUF_SIZE := by omega
  have order' : (stored.w - stored.r).toNat ≤ (stored.e - stored.r).toNat := by
    rw [grown, read, written]
    omega
  rw [h.pending, ← grown]
  by_cases commits : c = newline ∨ c = ctrl 'D' ∨ (stored.e - stored.r).toNat = INPUT_BUF_SIZE
  · rw [if_pos commits, if_pos commits]
    have whole : stored.unread ++ stored.line = stored.span stored.r stored.e := span_append order'
    refine ⟨Nat.le_refl _, small, ?_, span_self .., ?_, List.not_mem_nil⟩
    · show stored.span stored.r stored.e = (ed.committed ++ (ed.line ++ [c])).drop ed.taken
      rw [← whole, unread, line, h.unread, h.line, List.drop_append_of_le_length h.taken]
    · show ed.taken ≤ (ed.committed ++ (ed.line ++ [c])).length
      rw [List.length_append]
      exact Nat.le_trans h.taken (Nat.le_add_right ..)
  · rw [if_neg commits, if_neg commits]
    refine ⟨order', small, unread.trans h.unread, line.trans (by rw [h.line]), h.taken, fun member => ?_⟩
    rcases List.mem_append.mp member with old | last
    · exact h.raw old
    · exact commits (.inl (List.mem_singleton.mp last).symm)

/-- A character does to the console what it does to the line editor. -/
theorem Shows.input (h : cons.Shows ed) (c : UInt8) : (cons.input c).1.Shows (ed.key ignored c) := by
  have pending := h.pending
  have room := h.room
  have small : INPUT_BUF_SIZE = 128 := rfl
  unfold Cons.input Editor.key
  by_cases print : c = ctrl 'P'
  · rw [if_pos print, if_pos (by simp [ignored, print])]
    exact h
  rw [if_neg print]
  by_cases kill : c = ctrl 'U'
  · rw [if_pos kill, if_neg (by rw [kill]; decide), if_pos kill]
    exact h.killLine rfl
  rw [if_neg kill]
  by_cases erase : c = ctrl 'H' ∨ c = 127
  · have entered : c ∉ ignored := by rcases erase with rfl | rfl <;> decide
    rw [if_pos erase, if_neg entered, if_neg kill, if_pos erase]
    by_cases apart : cons.e ≠ cons.w
    · rw [if_pos apart]
      exact h.erase apart.symm
    · rw [if_neg apart]
      have none : ed.line = [] := by
        rw [← h.line]
        exact span_eq_nil.mpr (not_not.mp apart).symm
      rw [none, List.dropLast_nil, ← none]
      exact h
  rw [if_neg erase]
  by_cases zero : c = 0
  · rw [if_neg (fun both => both.1 zero), if_pos (by simp [ignored, zero])]
    exact h
  rw [if_neg (show c ∉ ignored by simp [ignored, print, zero]), if_neg kill, if_neg erase]
  by_cases full : ed.pending = INPUT_BUF_SIZE
  · rw [if_pos full, if_neg (fun both => by omega)]
    exact h
  have free : (cons.e - cons.r).toNat < INPUT_BUF_SIZE := by omega
  rw [if_neg full, if_pos ⟨zero, free⟩]
  exact h.enter free rfl

end Shows

end Xv6.Cons
