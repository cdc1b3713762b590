import Xv6.Shell.Machine

namespace Xv6.Shell

/-- What the parser says when it gives up. -/
def messages : List String :=
  ["syntax", "missing file for redirection", "parseblock", "syntax - missing )", "too many args"]

/-- A call ends: it panics, or returns with its pointer further on in the line. -/
def Ends {A : Type} (line : List Char) (s : Nat) (r : Parse (A × Nat)) : Prop :=
  (∃ a s', r = .ok (a, s') ∧ s ≤ s' ∧ s' ≤ line.length) ∨ ∃ message ∈ messages, r = .error (.panic message)

section Bounds

variable {A B : Type} {line : List Char} {s s' fuel : Nat} {r : Parse (A × Nat)} {toks : List Char}

theorem drop_takeWhile {A : Type} (p : A → Bool) (l : List A) :
    l.drop (l.takeWhile p).length = l.dropWhile p := by
  induction l with
  | nil => rfl
  | cons c l ih =>
    cases good : p c with
    | true => rw [List.takeWhile_cons_of_pos good, List.dropWhile_cons_of_pos good, List.length_cons,
        List.drop_succ_cons, ih]
    | false =>
      have bad : ¬ p c = true := by rw [good]; decide
      rw [List.takeWhile_cons_of_neg bad, List.dropWhile_cons_of_neg bad]
      rfl

theorem skip_bounds (inside : s ≤ line.length) : s ≤ skip line s ∧ skip line s ≤ line.length := by
  have short := (List.takeWhile_prefix (p := (· ∈ whitespace)) (l := line.drop s)).length_le
  rw [List.length_drop] at short
  unfold skip
  omega

theorem skip_drop (line : List Char) (s : Nat) :
    line.drop (skip line s) = (line.drop s).dropWhile (· ∈ whitespace) := by
  rw [skip, ← List.drop_drop, drop_takeWhile]

theorem charAt_drop (line : List Char) (s : Nat) : charAt line s = (line.drop s).headD '\x00' := by
  unfold charAt
  rw [List.headD_eq_head?_getD, List.head?_drop, List.getD_eq_getElem?_getD]

theorem charAt_nul (proper : '\x00' ∉ line) : charAt line s = '\x00' ↔ line.length ≤ s := by
  rw [charAt_drop]
  cases rest : line.drop s with
  | nil =>
    simp only [List.headD_nil, true_iff]
    exact List.drop_eq_nil_iff.mp rest
  | cons c others =>
    have member : c ∈ line := List.mem_of_mem_drop (rest ▸ List.mem_cons_self ..)
    have here : s < line.length := by
      by_contra past
      rw [List.drop_eq_nil_iff.mpr (by omega)] at rest
      cases rest
    refine iff_of_false (fun nul => proper ?_) (by omega)
    exact (show c = '\x00' from nul) ▸ member

/-- After the whitespace comes something else. -/
theorem charAt_skip (line : List Char) (s : Nat) : charAt line (skip line s) ∉ whitespace := by
  rw [charAt_drop, skip_drop]
  cases rest : (line.drop s).dropWhile (· ∈ whitespace) with
  | nil => decide
  | cons c others =>
    have first := List.head?_dropWhile_not (p := (· ∈ whitespace)) (line.drop s)
    rw [rest] at first
    simpa using first

theorem skip_skip (line : List Char) (s : Nat) : skip line (skip line s) = skip line s := by
  have first := charAt_skip line s
  rw [charAt_drop] at first
  conv_lhs => rw [skip]
  cases rest : line.drop (skip line s) with
  | nil => rfl
  | cons c others =>
    rw [rest] at first
    have other : ¬ c ∈ whitespace := first
    simp [other]

theorem skipWord_bounds (inside : s ≤ line.length) : s ≤ skipWord line s ∧ skipWord line s ≤ line.length := by
  have short := (List.takeWhile_prefix (p := wordChar) (l := line.drop s)).length_le
  rw [List.length_drop] at short
  unfold skipWord
  omega

theorem skipWord_lt (some : charAt line s ≠ '\x00') (good : wordChar (charAt line s) = true) :
    s < skipWord line s := by
  rw [charAt_drop] at some good
  unfold skipWord
  cases rest : line.drop s with
  | nil =>
    rw [rest] at some
    exact absurd rfl some
  | cons c others =>
    rw [rest, List.headD_cons] at good
    rw [List.takeWhile_cons_of_pos good, List.length_cons]
    omega

theorem token_bounds (proper : '\x00' ∉ line) (inside : s ≤ line.length) :
    s ≤ (token line s).2 ∧ (token line s).2 ≤ line.length ∧
    ((token line s).1 = '\x00' ↔ charAt line s = '\x00') ∧
    (charAt line s ≠ '\x00' → charAt line s ∉ whitespace → s < (token line s).2) := by
  have nul := charAt_nul (s := s) proper
  have nul' := charAt_nul (s := s + 1) proper
  have within : charAt line s ≠ '\x00' → s < line.length := fun some => by
    by_contra past
    exact some (nul.mpr (by omega))
  have single : ∀ c, charAt line s = c → c ≠ '\x00' → s ≤ s + 1 ∧ s + 1 ≤ line.length ∧
      (c = '\x00' ↔ charAt line s = '\x00') ∧
      (charAt line s ≠ '\x00' → charAt line s ∉ whitespace → s < s + 1) := fun c here some =>
    ⟨Nat.le_succ s, within (here ▸ some), by rw [here], fun _ _ => Nat.lt_succ_self s⟩
  unfold token
  split
  case h_1 here => exact ⟨Nat.le_refl s, inside, iff_of_true rfl here, fun some => absurd here some⟩
  case h_8 here =>
    have one := single '>' here (by decide)
    split
    next twice =>
      have within' : s + 1 < line.length := by
        by_contra past
        have zero := nul'.mpr (by omega)
        rw [twice] at zero
        exact absurd zero (by decide)
      dsimp only
      exact ⟨by omega, within', iff_of_false (by decide) (by rw [here]; decide), fun _ _ => by omega⟩
    next => exact one
  case h_9 zero bar left right semicolon amp less greater =>
    have bounds := skipWord_bounds inside
    dsimp only
    refine ⟨bounds.1, bounds.2, iff_of_false (by decide) zero, fun some space => skipWord_lt some ?_⟩
    refine decide_eq_true ⟨space, fun symbol => ?_⟩
    simp only [symbols, List.mem_cons, List.not_mem_nil, or_false] at symbol
    rcases symbol with here | here | here | here | here | here | here
    · exact less here
    · exact bar here
    · exact greater here
    · exact amp here
    · exact semicolon here
    · exact left here
    · exact right here
  all_goals
    dsimp only
    exact single _ ‹_› (by decide)

theorem gettoken_bounds (proper : '\x00' ∉ line) (inside : s ≤ line.length) :
    s ≤ (gettoken line s).2.2.2 ∧ (gettoken line s).2.2.2 ≤ line.length ∧
    ((gettoken line s).1 ≠ '\x00' → s < (gettoken line s).2.2.2) := by
  obtain ⟨lower, upper⟩ := skip_bounds inside
  obtain ⟨first, last, nul, progress⟩ := token_bounds proper upper
  obtain ⟨lower', upper'⟩ := skip_bounds last
  unfold gettoken
  dsimp only
  refine ⟨by omega, upper', fun some => ?_⟩
  have more := progress (fun zero => some (nul.mpr zero)) (charAt_skip line s)
  omega

theorem peek_bounds (toks : List Char) (inside : s ≤ line.length) :
    s ≤ (peek line s toks).2 ∧ (peek line s toks).2 ≤ line.length := skip_bounds inside

/-- What has been seen is read. -/
theorem peek_progress (proper : '\x00' ∉ line) (inside : s ≤ line.length)
    (found : (peek line s toks).1 = true) :
    s < (gettoken line (peek line s toks).2).2.2.2 ∧
    (gettoken line (peek line s toks).2).2.2.2 ≤ line.length := by
  obtain ⟨lower, upper⟩ := peek_bounds toks inside
  obtain ⟨first, last, progress⟩ := gettoken_bounds proper upper
  have some : (gettoken line (peek line s toks).2).1 ≠ '\x00' := fun zero => by
    have same := (token_bounds (s := skip line (skip line s)) proper
      (by rw [skip_skip]; exact upper)).2.2.1.mp zero
    rw [skip_skip] at same
    exact (of_decide_eq_true found).1 same
  have more := progress some
  omega

end Bounds

section Ends

variable {A B : Type} {line : List Char} {s s' fuel argc : Nat} {r : Parse (A × Nat)} {cmd : Cmd (Nat × Nat)}

theorem Ends.returns (a : A) (lower : s ≤ s') (upper : s' ≤ line.length) :
    Ends line s (Except.ok (a, s') : Parse (A × Nat)) :=
  .inl ⟨a, s', rfl, lower, upper⟩

theorem Ends.panic {message : String} (member : message ∈ messages) :
    Ends line s (Except.error (.panic message) : Parse (A × Nat)) := .inr ⟨message, member, rfl⟩

theorem Ends.from (ends : Ends line s' r) (lower : s ≤ s') : Ends line s r := by
  rcases ends with ⟨a, t, rfl, after, inside⟩ | panics
  · exact .inl ⟨a, t, rfl, by omega, inside⟩
  · exact .inr panics

theorem Ends.bind (ends : Ends line s r) {f : A × Nat → Parse (B × Nat)}
    (next : ∀ a s', s ≤ s' → s' ≤ line.length → Ends line s' (f (a, s'))) : Ends line s (r >>= f) := by
  rcases ends with ⟨a, s', rfl, lower, upper⟩ | ⟨message, member, rfl⟩
  · exact (next a s' lower upper).from lower
  · exact .inr ⟨message, member, rfl⟩

theorem parseredirs_ends (proper : '\x00' ∉ line) (inside : s ≤ line.length)
    (enough : line.length - s < fuel) :
    Ends line s (parseredirs line fuel cmd s) := by
  induction fuel generalizing cmd s with
  | zero => omega
  | succ fuel ih =>
    rw [parseredirs]
    obtain ⟨lower, upper⟩ := peek_bounds ['<', '>'] inside
    cases found : (peek line s ['<', '>']).1 with
    | false =>
      simp only [found, Bool.false_eq_true, if_false]
      exact Ends.returns cmd lower upper
    | true =>
      obtain ⟨more, upper'⟩ := peek_progress proper inside found
      obtain ⟨lower'', upper'', -⟩ := gettoken_bounds proper upper'
      simp only [found, if_true]
      split
      · exact Ends.panic (by decide)
      · exact (ih upper'' (by omega)).from (by omega)

theorem parseargs_ends (proper : '\x00' ∉ line) (inside : s ≤ line.length) (enough : line.length - s < fuel) :
    Ends line s (parseargs line fuel argc cmd s) := by
  induction fuel generalizing cmd s argc with
  | zero => omega
  | succ fuel ih =>
    rw [parseargs]
    obtain ⟨lower, upper⟩ := peek_bounds ['|', ')', '&', ';'] inside
    cases found : (peek line s ['|', ')', '&', ';']).1 with
    | true =>
      simp only [found, if_true]
      exact Ends.returns cmd lower upper
    | false =>
      obtain ⟨lower', upper', progress⟩ := gettoken_bounds proper upper
      have read : s ≤ (gettoken line (peek line s ['|', ')', '&', ';']).2).2.2.2 := Nat.le_trans lower lower'
      simp only [found, Bool.false_eq_true, if_false]
      split
      · exact Ends.returns cmd read upper'
      next some =>
        have more := progress some
        split
        · exact Ends.panic (by decide)
        split
        · exact Ends.panic (by decide)
        refine Ends.from (Ends.bind (parseredirs_ends proper upper' (by omega))
          fun ret t after within => ?_) read
        exact ih within (by omega)

theorem parsebacks_ends (proper : '\x00' ∉ line) (inside : s ≤ line.length)
    (enough : line.length - s < fuel) :
    Ends line s (parsebacks line fuel cmd s) := by
  induction fuel generalizing cmd s with
  | zero => omega
  | succ fuel ih =>
    rw [parsebacks]
    obtain ⟨lower, upper⟩ := peek_bounds ['&'] inside
    cases found : (peek line s ['&']).1 with
    | false =>
      simp only [found, Bool.false_eq_true, if_false]
      exact Ends.returns cmd lower upper
    | true =>
      obtain ⟨more, upper'⟩ := peek_progress proper inside found
      simp only [found, if_true]
      exact (ih upper' (by omega)).from (by omega)

/-- Each function of the parser ends, given four calls for each character that is left. -/
theorem parse_ends (proper : '\x00' ∉ line) (fuel : Nat) : ∀ s ≤ line.length,
    (4 * (line.length - s) + 4 ≤ fuel → Ends line s (parseline line fuel s)) ∧
    (4 * (line.length - s) + 3 ≤ fuel → Ends line s (parsepipe line fuel s)) ∧
    (4 * (line.length - s) + 2 ≤ fuel → Ends line s (parseexec line fuel s)) ∧
    (4 * (line.length - s) + 1 ≤ fuel → Ends line s (parseblock line fuel s)) := by
  induction fuel with
  | zero => exact fun s _ => ⟨fun enough =>
      by omega, fun enough => by omega, fun enough => by omega, fun enough => by omega⟩
  | succ fuel ih =>
    intro s inside
    refine ⟨fun enough => ?_, fun enough => ?_, fun enough => ?_, fun enough => ?_⟩
    · rw [parseline]
      refine Ends.bind ((ih s inside).2.1 (by omega)) fun cmd s₁ after₁ inside₁ => ?_
      refine Ends.bind (parsebacks_ends proper inside₁ (by omega)) fun cmd s₂ after₂ inside₂ => ?_
      obtain ⟨lower, upper⟩ := peek_bounds [';'] inside₂
      cases found : (peek line s₂ [';']).1 with
      | false =>
        simp only [found, Bool.false_eq_true, if_false]
        exact Ends.returns _ lower upper
      | true =>
        obtain ⟨more, upper'⟩ := peek_progress proper inside₂ found
        simp only [found, if_true]
        refine Ends.from (Ends.bind ((ih _ upper').1 (by omega)) fun right s₃ after₃ inside₃ => ?_)
          (Nat.le_of_lt more)
        exact Ends.returns _ (Nat.le_refl s₃) inside₃
    · rw [parsepipe]
      refine Ends.bind ((ih s inside).2.2.1 (by omega)) fun cmd s₁ after₁ inside₁ => ?_
      obtain ⟨lower, upper⟩ := peek_bounds ['|'] inside₁
      cases found : (peek line s₁ ['|']).1 with
      | false =>
        simp only [found, Bool.false_eq_true, if_false]
        exact Ends.returns _ lower upper
      | true =>
        obtain ⟨more, upper'⟩ := peek_progress proper inside₁ found
        simp only [found, if_true]
        refine Ends.from (Ends.bind ((ih _ upper').2.1 (by omega)) fun right s₂ after₂ inside₂ => ?_)
          (Nat.le_of_lt more)
        exact Ends.returns _ (Nat.le_refl s₂) inside₂
    · rw [parseexec]
      obtain ⟨lower, upper⟩ := peek_bounds ['('] inside
      cases found : (peek line s ['(']).1 with
      | true =>
        simp only [found, if_true]
        exact ((ih _ upper).2.2.2 (by omega)).from lower
      | false =>
        simp only [found, Bool.false_eq_true, if_false]
        refine Ends.from (Ends.bind (parseredirs_ends proper upper (by omega))
          fun ret s₁ after₁ inside₁ => ?_) lower
        exact parseargs_ends proper inside₁ (by omega)
    · rw [parseblock]
      cases found : (peek line s ['(']).1 with
      | false =>
        simp only [found, Bool.not_false, if_true]
        exact Ends.panic (by decide)
      | true =>
        obtain ⟨more, upper'⟩ := peek_progress proper inside found
        simp only [found, Bool.not_true, Bool.false_eq_true, if_false]
        refine Ends.from (Ends.bind ((ih _ upper').1 (by omega)) fun cmd s₁ after₁ inside₁ => ?_)
          (Nat.le_of_lt more)
        cases closed : (peek line s₁ [')']).1 with
        | false =>
          simp only [Bool.not_false, if_true]
          exact Ends.panic (by decide)
        | true =>
          obtain ⟨more', upper''⟩ := peek_progress proper inside₁ closed
          simp only [Bool.not_true, Bool.false_eq_true, if_false]
          exact (parseredirs_ends proper upper'' (by omega)).from (Nat.le_of_lt more')

/-- `parsecmd` ends: it panics, or has used the whole line. -/
theorem parsecmd_ends (line : List Char) (proper : '\x00' ∉ line) :
    (∃ message ∈ messages, parsecmd line = .error (.panic message)) ∨
    ∃ cmd s, parseline line (4 * line.length + 4) 0 = .ok (cmd, s) ∧ skip line s = line.length ∧
      parsecmd line = .ok (cmd, nulterminate cmd line) := by
  unfold parsecmd
  rcases ((parse_ends proper (4 * line.length + 4)) 0 (Nat.zero_le _)).1 (by omega) with
    ⟨cmd, s, run, -, -⟩ | ⟨message, member, run⟩
  · rw [run]
    simp only [bind, Except.bind, peek]
    by_cases whole : skip line s = line.length
    · simp only [whole, ne_eq, not_true_eq_false, if_false]
      exact .inr ⟨cmd, s, rfl, whole, rfl⟩
    · simp only [whole, ne_eq, not_false_eq_true, if_true]
      exact .inl ⟨"syntax", by decide, rfl⟩
  · rw [run]
    exact .inl ⟨message, member, rfl⟩

end Ends

end Xv6.Shell
