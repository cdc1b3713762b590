import Xv6.Grep.Machine
import Xv6.Lib.Lines
import Mathlib.Data.List.GetD

/-! `grep` over a stream: what it writes, and when it reads the stream to its end. -/

namespace Xv6.Grep

/-- The lines that a pattern accepts, each with its newline. -/
def accepted (pattern : List UInt8) (lines : List (List UInt8)) : List UInt8 :=
  (lines.filter (matchText pattern)).flatMap (· ++ [newline])

/-- Every line fits in `buf` together with its newline and a NUL, and what follows the last newline fits
together with a NUL. -/
def Fits (stream : List UInt8) : Prop :=
  (∀ line ∈ (Lines.split newline stream).1, line.length < bufSize - 1) ∧
    (Lines.split newline stream).2.length < bufSize

section Stream

variable {pattern stream text line rest : List UInt8} {buf : Bytes} {p room : Nat}

/-- A string and its NUL are at a place of `buf`. -/
def Holds (buf : Bytes) (p : Nat) (text : List UInt8) : Prop := ∀ i ≤ text.length, buf (p + i) = text.getD i 0

theorem Holds.tail {c : UInt8} (held : Holds buf p (c :: text)) : Holds buf (p + 1) text := by
  intro i small
  rw [Nat.add_assoc, Nat.add_comm 1 i, held (i + 1) (Nat.succ_le_succ small), List.getD_cons_succ]

theorem Holds.drop (held : Holds buf p (line ++ text)) : Holds buf (p + line.length) text := by
  induction line generalizing p with
  | nil => exact held
  | cons c line ih =>
    rw [List.length_cons, Nat.add_comm line.length, ← Nat.add_assoc]
    exact ih held.tail

theorem Holds.congr {buf' : Bytes} (held : Holds buf p text) (same : ∀ x, p ≤ x → buf' x = buf x) :
    Holds buf' p text :=
  fun i small => (same _ (Nat.le_add_right p i)).trans (held i small)

theorem Holds.str (held : Holds buf p text) (nonzero : 0 ∉ text) (fits : p + text.length < bufSize) :
    stringAt buf p = text := by
  have ends : buf.drop p text.length = 0 :=
    (held _ (Nat.le_refl _)).trans (List.getD_eq_default _ _ (Nat.le_refl _))
  have same : ∀ x < text.length, buf.drop p x = Bytes.ofList text x :=
    fun x inside => held x (Nat.le_of_lt inside)
  calc stringAt buf p = Bytes.str text.length (buf.drop p) := Bytes.str_of_end ends (by omega)
    _ = Bytes.str text.length (Bytes.ofList text) := Bytes.str_congr same
    _ = text.take text.length := Bytes.str_ofList fun b member zero => nonzero (zero ▸ member)
    _ = text := List.take_length

theorem strchr_none {c : UInt8} (held : Holds buf p text) (nonzero : 0 ∉ text) (free : c ∉ text)
    (enough : text.length < room) :
    strchr buf c room p = .ok none := by
  induction text generalizing p room with
  | nil =>
    cases room with
    | zero => cases enough
    | succ room =>
      have here : buf p = 0 := held 0 (Nat.le_refl _)
      rw [strchr, if_pos here]
      rfl
  | cons d text ih =>
    obtain ⟨differs, later⟩ := List.ne_and_not_mem_of_not_mem_cons free
    obtain ⟨nonzero, nonzero'⟩ := List.ne_and_not_mem_of_not_mem_cons nonzero
    cases room with
    | zero => cases enough
    | succ room =>
      have here : buf p = d := held 0 (Nat.zero_le _)
      rw [strchr, here, if_neg nonzero.symm, if_neg differs.symm]
      exact ih held.tail nonzero' later (Nat.lt_of_succ_lt_succ enough)

theorem strchr_some {c : UInt8} (held : Holds buf p (line ++ c :: rest))
    (nonzero : 0 ∉ line ++ c :: rest) (free : c ∉ line)
    (enough : line.length < room) : strchr buf c room p = .ok (some (p + line.length)) := by
  induction line generalizing p room with
  | nil =>
    cases room with
    | zero => cases enough
    | succ room =>
      have here : buf p = c := held 0 (Nat.zero_le _)
      rw [strchr, here, if_neg (List.ne_of_not_mem_cons nonzero).symm, if_pos rfl]
      rfl
  | cons d line ih =>
    obtain ⟨differs, later⟩ := List.ne_and_not_mem_of_not_mem_cons free
    obtain ⟨nonzero, nonzero'⟩ := List.ne_and_not_mem_of_not_mem_cons nonzero
    cases room with
    | zero => cases enough
    | succ room =>
      have here : buf p = d := held 0 (Nat.zero_le _)
      rw [strchr, here, if_neg nonzero.symm, if_neg differs.symm, ih held.tail nonzero' later
        (Nat.lt_of_succ_lt_succ enough),
        List.length_cons, Nat.add_assoc, Nat.add_comm 1]

theorem store_inside {x : Nat} {c : UInt8} (inside : x < bufSize) :
    store buf x c = .ok (Function.update buf x c) := if_pos inside

theorem bytesAt_eq {n : Nat} (size : text.length = n) (same : ∀ i < n, buf (p + i) = text.getD i 0) :
    bytesAt buf p n = text := by
  refine List.ext_getElem (by simp [bytesAt, size]) fun i small small' => ?_
  have here := same i (size ▸ small')
  rw [List.getD_eq_getElem _ _ small'] at here
  simpa [bytesAt] using here

/-- One line of `buf`: it is written if the pattern accepts it, and what follows stays where it is. -/
theorem lineLoop_line (pattern : List UInt8) (lines : Nat) (held : Holds buf p (line ++ newline :: rest))
    (nonzero : 0 ∉ line ++ newline :: rest)
    (free : newline ∉ line) (fits : p + (line ++ newline :: rest).length < bufSize) :
    ∃ buf', Holds buf' (p + line.length + 1) rest ∧ lineLoop pattern (lines + 1) buf p =
      (lineLoop pattern lines buf' (p + line.length + 1)).map fun r =>
      (accepted pattern [line] ++ r.1, r.2) := by
  rw [List.length_append, List.length_cons] at fits
  have found : strchr buf newline (bufSize - p) p = .ok (some (p + line.length)) :=
    strchr_some held nonzero free (by omega)
  have inside : p + line.length < bufSize := by omega
  have later : Holds buf (p + line.length + 1) rest := held.drop.tail
  have lineNonzero : 0 ∉ line := fun member => nonzero (List.mem_append_left _ member)
  have cut : Holds (Function.update buf (p + line.length) 0) p line := by
    intro i small
    rcases Nat.lt_or_eq_of_le small with before | rfl
    · rw [Function.update_of_ne (by omega), held i (by rw [List.length_append]; omega),
        List.getD_append _ _ _ _ before]
    · rw [Function.update_self, List.getD_eq_default _ _ (Nat.le_refl _)]
  have string := cut.str lineNonzero (by omega)
  by_cases accepts : matchText pattern line = true
  · refine ⟨Function.update (Function.update buf (p + line.length) 0) (p + line.length) newline,
      later.congr fun x above => ?_, ?_⟩
    · rw [Function.update_of_ne (by omega), Function.update_of_ne (by omega)]
    · have whole : bytesAt (Function.update (Function.update buf (p + line.length) 0)
          (p + line.length) newline) p
          (p + line.length + 1 - p) = accepted pattern [line] := by
        rw [accepted, List.filter_cons_of_pos accepts, List.filter_nil, List.flatMap_singleton]
        refine bytesAt_eq (by rw [List.length_append, List.length_singleton]; omega) fun i small => ?_
        rcases Nat.lt_or_eq_of_le (Nat.le_of_lt_succ (by omega : i < line.length + 1)) with before | rfl
        · rw [Function.update_of_ne (by omega), Function.update_of_ne (by omega),
            held i (by rw [List.length_append]; omega), List.getD_append _ _ _ _ before,
            List.getD_append _ _ _ _ before]
        · rw [Function.update_self, List.getD_append_right _ _ _ _ (Nat.le_refl _), Nat.sub_self]
          rfl
      simp only [lineLoop, found, store_inside inside, string, accepts, if_true, whole, bind,
        Except.bind, pure, Except.pure]
      cases lineLoop pattern lines (Function.update (Function.update buf (p + line.length) 0)
        (p + line.length) newline)
        (p + line.length + 1) <;> rfl
  · refine ⟨Function.update buf (p + line.length) 0, later.congr fun x above => Function.update_of_ne
      (by omega) .., ?_⟩
    have nothing : accepted pattern [line] = [] := by
      rw [accepted, List.filter_cons_of_neg accepts]
      rfl
    simp only [lineLoop, found, store_inside inside, string, accepts, nothing, bind,
      Except.bind, List.nil_append]
    cases lineLoop pattern lines (Function.update buf (p + line.length) 0) (p + line.length + 1) <;> rfl

theorem accepted_append (pattern : List UInt8) (lines lines' : List (List UInt8)) :
    accepted pattern (lines ++ lines') = accepted pattern lines ++ accepted pattern lines' := by
  rw [accepted, List.filter_append, List.flatMap_append, accepted, accepted]

/-- All the lines in `buf`: the end that no newline ends stays where it is. -/
theorem lineLoop_spec (pattern : List UInt8) (lines : Nat) (held : Holds buf p text) (nonzero : 0 ∉ text)
    (fits : p + text.length < bufSize)
    (enough : text.length < lines) : ∃ buf' p',
    lineLoop pattern lines buf p = .ok (accepted pattern (Lines.split newline text).1, buf', p') ∧
      p' + (Lines.split newline text).2.length = p + text.length ∧
      Holds buf' p' (Lines.split newline text).2 := by
  induction text using Lines.rec_line newline generalizing buf p lines with
  | none text free =>
    refine ⟨buf, p, ?_, ?_⟩
    · cases lines with
      | zero => cases enough
      | succ lines =>
        rw [lineLoop, strchr_none held nonzero free (by omega), Lines.split_free free]
        rfl
    · rw [Lines.split_free free]
      exact ⟨rfl, held⟩
  | line line rest free ih =>
    cases lines with
    | zero => cases enough
    | succ lines =>
      obtain ⟨buf₁, later, first⟩ := lineLoop_line pattern lines held nonzero free fits
      rw [List.length_append, List.length_cons] at fits enough
      obtain ⟨buf₂, p', loop, place, left⟩ := ih lines later
        (fun zero => nonzero (List.mem_append_right _ (List.mem_cons_of_mem _ zero))) (by omega) (by omega)
      rw [Lines.split_line free]
      refine ⟨buf₂, p', ?_, ?_, left⟩
      · have both : accepted pattern (line :: (Lines.split newline rest).1) =
            accepted pattern [line] ++ accepted pattern (Lines.split newline rest).1 :=
              accepted_append pattern [line] _
        rw [first, loop, both]
        rfl
      · rw [List.length_append, List.length_cons]
        show p' + (Lines.split newline rest).2.length = _
        omega

theorem readCount_zero {size n left : Nat} (done : ¬0 < readCount size n left) : n = 0 ∨ left = 0 := by
  unfold readCount at done
  split at done
  next nothing => exact nothing
  next => omega

theorem readCount_le_want (size n left : Nat) : readCount size n left ≤ n := by
  unfold readCount
  split <;> omega

/-- After a read of some bytes and the NUL behind them. -/
theorem holds_read {tail : List UInt8} {n : Nat} (held : ∀ i < tail.length, buf i = tail.getD i 0)
    (bound : n ≤ stream.length) :
    Holds (Function.update (buf.splice tail.length n (Bytes.ofList stream)) (tail.length + n) 0) 0
    (tail ++ stream.take n) := by
  intro i small
  rw [List.length_append, List.length_take, Nat.min_eq_left bound] at small
  rw [Nat.zero_add]
  rcases Nat.lt_or_eq_of_le small with before | rfl
  · rw [Function.update_of_ne (by omega)]
    rcases Nat.lt_or_ge i tail.length with old | new
    · rw [Bytes.splice_outside (by omega), List.getD_append _ _ _ _ old]
      exact held i old
    · rw [Bytes.splice_inside new before, List.getD_append_right _ _ _ _ new]
      have taken : i - tail.length < n := by omega
      simp [Bytes.ofList, taken]
  · rw [Function.update_self, List.getD_eq_default]
    rw [List.length_append, List.length_take, Nat.min_eq_left bound]

/-- What `grep` does with a stream after a tail that is in `buf`: it stops at the end, or when the tail leaves
no room. -/
theorem grepLoop_spec (pattern : List UInt8) (sizes : Nat → Nat) (calls : Nat) {tail : List UInt8}
    (free : newline ∉ tail)
    (room : tail.length < bufSize) (nonzero : 0 ∉ tail ++ stream)
    (held : ∀ i < tail.length, buf i = tail.getD i 0) :
    ∃ consumed left, stream = consumed ++ left ∧
      grepLoop pattern sizes calls buf tail.length stream =
      .ok (accepted pattern (Lines.split newline (tail ++ consumed)).1, left) ∧
      (left = [] ∨ (Lines.split newline (tail ++ consumed)).2.length = bufSize - 1) ∧
      Fits (tail ++ consumed) := by
  induction size : stream.length using Nat.strongRecOn generalizing calls buf tail stream with
  | _ length ih =>
    subst size
    rw [grepLoop]
    by_cases more : 0 < readCount (sizes calls) (bufSize - tail.length - 1) stream.length
    · have bound := readCount_le (sizes calls) (bufSize - tail.length - 1) stream.length
      have want := readCount_le_want (sizes calls) (bufSize - tail.length - 1) stream.length
      rw [if_pos more]
      generalize readCount (sizes calls) (bufSize - tail.length - 1) stream.length = n at more bound want ⊢
      have whole : tail ++ stream = (tail ++ stream.take n) ++ stream.drop n := by
        rw [List.append_assoc, List.take_append_drop]
      have count : (tail ++ stream.take n).length = tail.length + n := by
        rw [List.length_append, List.length_take, Nat.min_eq_left bound]
      obtain ⟨buf₁, p, inner, place, ends⟩ := lineLoop_spec pattern bufSize (holds_read held bound)
        (fun zero => nonzero (whole ▸ List.mem_append_left _ zero)) (by omega) (by omega)
      have moved : ∀ i < (Lines.split newline (tail ++ stream.take n)).2.length,
          memmove buf₁ 0 p (Lines.split newline (tail ++ stream.take n)).2.length i =
            (Lines.split newline (tail ++ stream.take n)).2.getD i 0 := by
        intro i small
        rw [memmove_eq, Bytes.splice_inside (Nat.zero_le i) (by omega)]
        exact ends i (Nat.le_of_lt small)
      have short := Lines.tail_length_le newline (tail ++ stream.take n)
      have fewer : (stream.drop n).length < stream.length := by
        rw [List.length_drop]
        omega
      have nonzero' : 0 ∉ (Lines.split newline (tail ++ stream.take n)).2 ++ stream.drop n := fun zero =>
        nonzero (whole ▸ (List.mem_append.mp zero).elim (fun old => List.mem_append_left _
          (Lines.mem_of_mem_tail old))
          (List.mem_append_right _))
      obtain ⟨consumed, left, rest, outer, stop, fits⟩ := ih _ fewer (calls + 1)
        (Lines.tail_free newline (tail ++ stream.take n)) (by omega) nonzero' moved rfl
      refine ⟨stream.take n ++ consumed, left, by rw [List.append_assoc, ← rest, List.take_append_drop], ?_⟩
      have next : tail.length + n - p = (Lines.split newline (tail ++ stream.take n)).2.length := by omega
      rw [Fits, ← List.append_assoc, Lines.split_append, accepted_append]
      refine ⟨?_, stop, ?_, fits.2⟩
      · rw [store_inside (by omega)]
        show (lineLoop pattern bufSize _ 0 >>= fun r => _) = _
        rw [inner]
        show (grepLoop pattern sizes (calls + 1) (memmove buf₁ 0 p (tail.length + n - p))
          (tail.length + n - p) (stream.drop n) >>=
          fun r => _) = _
        rw [next, outer]
        rfl
      · intro line member
        rcases List.mem_append.mp member with old | new
        · have shorter := Lines.line_length_lt old
          omega
        · exact fits.1 line new
    · refine ⟨[], stream, rfl, ?_⟩
      rw [if_neg more, List.append_nil, Fits, Lines.split_free free]
      refine ⟨rfl, ?_, nofun, room⟩
      rcases readCount_zero more with full | done
      · exact .inr (by show tail.length = _; omega)
      · exact .inl (List.eq_nil_of_length_eq_zero done)

theorem grep_spec (pattern : List UInt8) (sizes : Nat → Nat) (buf : Bytes) (nonzero : 0 ∉ stream) :
    ∃ consumed left, stream = consumed ++ left ∧
      grep pattern sizes buf stream = .ok (accepted pattern (Lines.split newline consumed).1, left) ∧
      (left = [] ∨ (Lines.split newline consumed).2.length = bufSize - 1) ∧ Fits consumed := by
  have empty : ∀ i < ([] : List UInt8).length, buf i = [].getD i 0 := nofun
  exact grepLoop_spec pattern sizes 0 List.not_mem_nil (by decide) nonzero empty

/-- A stream that stops in the middle of a tail that fills `buf` does not fit. -/
theorem fits_all {consumed left : List UInt8} (fits : Fits (consumed ++ left))
    (full : (Lines.split newline consumed).2.length = bufSize - 1) : left = [] := by
  obtain ⟨lines, tail⟩ := fits
  rw [Lines.split_append] at lines tail
  have free := Lines.tail_free newline consumed
  generalize (Lines.split newline consumed).2 = start at lines tail free full
  rcases Lines.cases_line newline left with free' | ⟨line, rest, free', rfl⟩
  · have whole : newline ∉ start ++ left := fun member => (List.mem_append.mp member).elim free free'
    rw [Lines.split_free whole] at tail
    rw [List.length_append, full, bufSize] at tail
    exact List.eq_nil_of_length_eq_zero (by omega)
  · have whole : newline ∉ start ++ line := fun member => (List.mem_append.mp member).elim free free'
    rw [← List.append_assoc, Lines.split_line whole] at lines
    have short := lines (start ++ line) (List.mem_append_right _ List.mem_cons_self)
    rw [List.length_append, full] at short
    omega

/-- However read splits the stream, `grep` writes the accepted lines and reads the stream to its end just when
the lines fit in `buf`. -/
theorem grep_iff (pattern : List UInt8) (sizes : Nat → Nat) (buf : Bytes) (nonzero : 0 ∉ stream) :
    grep pattern sizes buf stream = .ok (accepted pattern (Lines.split newline stream).1, []) ↔
    Fits stream := by
  obtain ⟨consumed, left, rfl, loop, stop, fits⟩ := grep_spec pattern sizes buf nonzero
  refine (Eq.congr loop rfl).trans ?_
  constructor
  · intro same
    obtain ⟨-, rfl⟩ := Prod.mk.inj (Except.ok.inj same)
    rwa [List.append_nil]
  · intro all
    rcases stop with rfl | full
    · rw [List.append_nil]
    · rw [fits_all all full, List.append_nil]

theorem grep_iff_short : grep [97] (fun _ => 1) (fun _ => 0) [97, newline, 98] =
    .ok (accepted [97] (Lines.split newline [97, newline, 98]).1, []) ↔ Fits [97, newline, 98] :=
  grep_iff [97] (fun _ => 1) (fun _ => 0) (by decide)

/-- Behind a line of 1023 characters read has no room left, and what it answers is taken for the end of the
stream. -/
theorem grep_long_line : let stream := List.replicate 1023 97 ++ [newline]
    grep [97] (fun _ => 1024) (fun _ => 0) stream ≠
      .ok (accepted [97] (Lines.split newline stream).1, []) := by
  intro stream same
  have free : newline ∉ List.replicate 1023 (97 : UInt8) :=
    fun member => absurd (List.eq_of_mem_replicate member) (by decide)
  have nonzero : 0 ∉ stream := fun member => (List.mem_append.mp member).elim
    (fun early => absurd (List.eq_of_mem_replicate early) (by decide)) (by decide)
  obtain ⟨consumed, left, rest, loop, -, fits⟩ := grep_spec [97] (fun _ => 1024) (fun _ => 0) nonzero
  have done : left = [] := (Prod.mk.inj (Except.ok.inj (loop.symm.trans same))).2
  have line := fits.1 (List.replicate 1023 97)
  rw [← List.append_nil consumed, ← done, ← rest, Lines.split_line free] at line
  have short := line List.mem_cons_self
  rw [List.length_replicate] at short
  exact absurd short (by decide)

end Stream

end Xv6.Grep
