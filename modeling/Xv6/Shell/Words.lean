import Xv6.Shell.Parse

namespace Xv6.Shell

/-- The string at a pointer. -/
def stringAt (mem : List Char) (p : Nat) : List Char := (mem.drop p).takeWhile (· ≠ '\x00')

def Cmd.map {V W : Type} (f : V → W) : Cmd V → Cmd W
  | .exec argv => .exec (argv.map f)
  | .redir cmd file mode fd => .redir (cmd.map f) (f file) mode fd
  | .pipe left right => .pipe (left.map f) (right.map f)
  | .list left right => .list (left.map f) (right.map f)
  | .back cmd => .back (cmd.map f)

/-- The words in the order in which `nulterminate` comes to them. -/
def Cmd.words {W : Type} : Cmd W → List W
  | .exec argv => argv
  | .redir cmd file _ _ => cmd.words ++ [file]
  | .pipe left right => left.words ++ right.words
  | .list left right => left.words ++ right.words
  | .back cmd => cmd.words

theorem Cmd.Rel.map_eq {V W : Type} {R : V → W → Prop} {cmd : Cmd V} {tree : Cmd W}
    (rel : cmd.Rel R tree) (f : V → W)
    (reads : ∀ v ∈ cmd.words, ∀ w, R v w → f v = w) : cmd.map f = tree := by
  induction rel with
  | exec each =>
    rw [Cmd.map]
    congr 1
    induction each with
    | nil => rfl
    | cons word others ih =>
      simp only [Cmd.words, List.forall_mem_cons] at reads ih
      rw [List.map_cons, reads.1 _ word, ih reads.2]
  | redir inner name ih =>
    rw [Cmd.words, List.forall_mem_append] at reads
    rw [Cmd.map, ih reads.1, reads.2 _ (List.mem_singleton.mpr rfl) _ name]
  | pipe first second ih ih' =>
    rw [Cmd.words, List.forall_mem_append] at reads
    rw [Cmd.map, ih reads.1, ih' reads.2]
  | list first second ih ih' =>
    rw [Cmd.words, List.forall_mem_append] at reads
    rw [Cmd.map, ih reads.1, ih' reads.2]
  | back inner ih => rw [Cmd.map, ih reads]

theorem Cmd.Rel.each {V W : Type} {R : V → W → Prop} {cmd : Cmd V} {tree : Cmd W} (rel : cmd.Rel R tree) :
    ∀ v ∈ cmd.words, ∃ w, R v w := by
  induction rel with
  | exec each =>
    induction each with
    | nil => exact fun v member => (by cases member)
    | cons word others ih => exact List.forall_mem_cons.mpr ⟨⟨_, word⟩, ih⟩
  | redir inner name ih => exact List.forall_mem_append.mpr ⟨ih, fun v member =>
      List.mem_singleton.mp member ▸ ⟨_, name⟩⟩
  | pipe first second ih ih' => exact List.forall_mem_append.mpr ⟨ih, ih'⟩
  | list first second ih ih' => exact List.forall_mem_append.mpr ⟨ih, ih'⟩
  | back inner ih => exact ih

/-- A NUL after each of the words. -/
def terminate (words : List (Nat × Nat)) (line : List Char) : List Char :=
  words.foldl (fun line w => line.set w.2 '\x00') line

theorem terminate_append (words others : List (Nat × Nat)) (line : List Char) :
    terminate (words ++ others) line = terminate others (terminate words line) := List.foldl_append

theorem nulterminate_eq (cmd : Cmd (Nat × Nat)) (line : List Char) :
    nulterminate cmd line = terminate cmd.words line := by
  induction cmd generalizing line with
  | exec argv => rfl
  | redir cmd file mode fd ih => rw [Cmd.words, terminate_append, nulterminate, ih]; rfl
  | pipe left right ih ih' => rw [Cmd.words, terminate_append, nulterminate, ih, ih']
  | list left right ih ih' => rw [Cmd.words, terminate_append, nulterminate, ih, ih']
  | back cmd ih => exact ih line

theorem terminate_get (words : List (Nat × Nat)) (line : List Char) (i : Nat) :
    (terminate words line)[i]? = if i < line.length ∧ ∃ w ∈ words, w.2 = i then some '\x00' else (line)[i]? := by
  induction words generalizing line with
  | nil =>
    rw [if_neg fun both => by obtain ⟨w, member, -⟩ := both.2; cases member]
    rfl
  | cons w words ih =>
    rw [terminate, List.foldl_cons]
    refine (ih (line.set w.2 '\x00')).trans ?_
    rw [List.length_set, List.getElem?_set]
    by_cases here : w.2 = i
    · by_cases inside : i < line.length
      · simp [inside, here]
      · simp [inside, here]
    · simp only [List.exists_mem_cons_iff, here, false_or, if_false]

variable {line : List Char} {p : Nat × Nat} {w : List Char}

theorem Marked.inside (marked : Marked line p w) (i : Nat) (small : i < w.length) :
    (line)[p.1 + i]? = some w[i] := by
  obtain ⟨-, -, rest, here, -⟩ := marked
  rw [← List.getElem?_drop, here, List.getElem?_append_left small, List.getElem?_eq_getElem small]

/-- Where a word ends no word goes on. -/
theorem Marked.stop (marked : Marked line p w) : ∀ c ∈ (line)[p.2]?, wordChar c = false := by
  obtain ⟨-, last, rest, here, stop⟩ := marked
  have next : (line)[p.2]? = rest.head? := by
    rw [last, ← List.getElem?_drop, here, List.getElem?_append_right (Nat.le_refl
      _), Nat.sub_self, List.head?_eq_getElem?]
  rw [next]
  exact stop

/-- After the NULs have been written, possibly over an operator, each word is there and ends. -/
theorem stringAt_terminate {words : List (Nat × Nat)} (marks : ∀ p ∈ words, ∃ w, Marked line p w)
    (member : p ∈ words)
    (marked : Marked line p w) : stringAt (terminate words line) p.1 = w := by
  have here : (terminate words line).drop p.1 = w ++ (terminate words line).drop p.2 := by
    apply List.ext_getElem?
    intro i
    rw [List.getElem?_drop]
    by_cases small : i < w.length
    · rw [List.getElem?_append_left small, terminate_get, marked.inside i small,
        List.getElem?_eq_getElem small]
      refine if_neg fun both => ?_
      obtain ⟨-, p', member', last⟩ := both
      obtain ⟨w', marked'⟩ := marks p' member'
      have stop := marked'.stop w[i] (by rw [last, marked.inside i small]; rfl)
      rw [marked.1.chars _ (List.getElem_mem small)] at stop
      cases stop
    · rw [List.getElem?_append_right (by omega), List.getElem?_drop, marked.2.1]
      congr 1
      omega
  have ends : ∀ c ∈ ((terminate words line).drop p.2).head?, c = '\x00' := by
    rw [List.head?_drop, terminate_get]
    intro c first
    split at first
    · exact (Option.mem_some_iff.mp first).symm
    next other =>
      by_cases inside : p.2 < line.length
      · exact absurd ⟨inside, p, member, rfl⟩ other
      · rw [List.getElem?_eq_none (by omega)] at first
        cases first
  rw [stringAt, here]
  refine takeWhile_whole (fun c char => decide_eq_true fun (nul : c = '\x00') =>
    marked.1.proper (nul ▸ char)) ?_
  exact fun c first => decide_eq_false (not_not.mpr (ends c first))

/-- What is written is read. -/
theorem parsecmd_prints {tree : Cmd (List Char)} {toks : List Tok} {text : List Char} (ok : tree.Ok)
    (printed : Prints .line tree toks) (spaced : Spaced false toks text) :
    ∃ cmd mem, parsecmd text = .ok (cmd, mem) ∧ cmd.map (fun p => stringAt mem p.1) = tree := by
  have here : At text 0 (toks ++ []) := by
    rw [List.append_nil]
    exact ⟨Nat.zero_le _, spaced⟩
  obtain ⟨cmd, s, run, rel, last, -⟩ :=
    parse_reads printed ok (4 * text.length + 4) 0 [] (fun t member => (by cases member))
    (.inl rfl) here (by simp only [Level.depth]; omega)
  have run' : parseline text (4 * text.length + 4) 0 = .ok (cmd, s) := run
  have whole := skip_end last
  refine ⟨cmd, nulterminate cmd text, ?_, ?_⟩
  · rw [parsecmd, run']
    simp only [bind, Except.bind, peek, whole, ne_eq, not_true_eq_false, if_false]
    rfl
  · refine rel.map_eq _ fun p member w marked => ?_
    rw [nulterminate_eq]
    exact stringAt_terminate rel.each member marked

/-- The parser ends on every line, and reads a command back from each way to write it. -/
theorem parser_ends_reads :
    (∀ line : List Char, '\x00' ∉ line → (∃ message ∈ messages, parsecmd line = .error (.panic message)) ∨
      ∃ cmd s, parseline line (4 * line.length + 4) 0 = .ok (cmd, s) ∧ skip line s = line.length ∧
        parsecmd line = .ok (cmd, nulterminate cmd line)) ∧
    ∀ (tree : Cmd (List Char)) (toks : List Tok) (text : List Char), tree.Ok → Prints .line tree toks →
      Spaced false toks text →
      ∃ cmd mem, parsecmd text = .ok (cmd, mem) ∧ cmd.map (fun p => stringAt mem p.1) = tree :=
  ⟨fun line proper => parsecmd_ends line proper, fun _ _ _ ok printed spaced =>
    parsecmd_prints ok printed spaced⟩

/-- `a>f b|(c;d)` is read, and `a|;` ends. -/
theorem parser_ends_reads_line :
    ((∃ message ∈ messages, parsecmd ['a', '|', ';'] = .error (.panic message)) ∨
      ∃ cmd s, parseline ['a', '|', ';'] 16 0 = .ok (cmd, s) ∧ skip ['a', '|', ';'] s = 3 ∧
        parsecmd ['a', '|', ';'] = .ok (cmd, nulterminate cmd ['a', '|', ';'])) ∧
    ∃ cmd mem, parsecmd ['a', '>', 'f', ' ', 'b', '|', '(', 'c', ';', 'd', ')'] = .ok (cmd, mem) ∧
      cmd.map (fun p => stringAt mem p.1) =
        .pipe (.redir (.exec [['a'], ['b']]) ['f'] (O_WRONLY ||| O_CREATE ||| O_TRUNC) 1)
        (.list (.exec [['c']]) (.exec [['d']])) := by
  have word : ∀ c ∈ ['a', 'b', 'c', 'd', 'f'], Word [c] := fun c member => by
    have char : wordChar c = true ∧ c ≠ '\x00' := by
      simp only [List.mem_cons, List.not_mem_nil, or_false] at member
      rcases member with rfl | rfl | rfl | rfl | rfl <;> decide
    refine ⟨List.cons_ne_nil c [], fun d here => ?_, fun nul => char.2 (List.mem_singleton.mp nul).symm⟩
    rw [List.mem_singleton.mp here]
    exact char.1
  have ok : (Cmd.pipe (.redir (.exec [['a'], ['b']]) ['f'] (O_WRONLY ||| O_CREATE ||| O_TRUNC) 1)
      (.list (.exec [['c']]) (.exec [['d']])) : Cmd (List Char)).Ok := by
    refine ⟨⟨⟨by decide, ?_⟩, word 'f' (by decide), .output, rfl, rfl⟩, ⟨by decide, ?_⟩, by decide, ?_⟩
    · exact List.forall_mem_cons.mpr ⟨word 'a' (by decide), List.forall_mem_singleton.mpr
        (word 'b' (by decide))⟩
    · exact List.forall_mem_singleton.mpr (word 'c' (by decide))
    · exact List.forall_mem_singleton.mpr (word 'd' (by decide))
  have second := Prints.list 0 (.last (.exec [] [(['c'], [])])) (.line 0 (.last (.exec [] [(['d'], [])])))
  have printed := Prints.line 0 (.pipe (.exec [] [(['a'], [(.output, ['f'])]), (['b'], [])])
    (.last (.block [] second)))
  have last : Spaced false [] [] := .done (by simp)
  have spaced := @Spaced.next false (.word ['a']) _ [] _ (by simp [whitespace]) (by decide) <|
    @Spaced.next true (.redir .output) _ [] _ (by simp [whitespace]) (by decide) <|
    @Spaced.next false (.word ['f']) _ [] _ (by simp [whitespace]) (by decide) <|
    @Spaced.next true (.word ['b']) _ [' '] _ (by simp [whitespace]) (by decide) <|
    @Spaced.next true .bar _ [] _ (by simp [whitespace]) (by decide) <|
    @Spaced.next false .left _ [] _ (by simp [whitespace]) (by decide) <|
    @Spaced.next false (.word ['c']) _ [] _ (by simp [whitespace]) (by decide) <|
    @Spaced.next true .semicolon _ [] _ (by simp [whitespace]) (by decide) <|
    @Spaced.next false (.word ['d']) _ [] _ (by simp [whitespace]) (by decide) <|
    @Spaced.next true .right _ [] _ (by simp [whitespace]) (by decide) last
  exact ⟨parser_ends_reads.1 ['a', '|', ';'] (by decide), parser_ends_reads.2 _ _ _ ok printed spaced⟩

end Xv6.Shell
