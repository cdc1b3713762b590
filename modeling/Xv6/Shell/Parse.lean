import Xv6.Shell.Print
import Xv6.Shell.Total
import Mathlib.Data.List.Forall2
import Mathlib.Data.List.TakeWhile

namespace Xv6.Shell

/-- The two commands have one shape, with related words in it. -/
inductive Cmd.Rel {V W : Type} (R : V → W → Prop) : Cmd V → Cmd W → Prop
  | exec {argv words} (each : List.Forall₂ R argv words) : Cmd.Rel R (.exec argv) (.exec words)
  | redir {cmd cmd' file file' mode fd} (inner : Cmd.Rel R cmd cmd') (name : R file file') :
      Cmd.Rel R (.redir cmd file mode fd) (.redir cmd' file' mode fd)
  | pipe {left right left' right'} (first : Cmd.Rel R left left') (second : Cmd.Rel R right right') :
      Cmd.Rel R (.pipe left right) (.pipe left' right')
  | list {left right left' right'} (first : Cmd.Rel R left left') (second : Cmd.Rel R right right') :
      Cmd.Rel R (.list left right) (.list left' right')
  | back {cmd cmd'} (inner : Cmd.Rel R cmd cmd') : Cmd.Rel R (.back cmd) (.back cmd')

theorem Cmd.Rel.addArg {V W : Type} {R : V → W → Prop} {cmd : Cmd V} {cmd' : Cmd W}
    (rel : cmd.Rel R cmd') {v : V} {w : W}
    (word : R v w) : (cmd.addArg v).Rel R (cmd'.addArg w) := by
  induction rel with
  | exec each => exact .exec (List.rel_append each (.cons word .nil))
  | redir inner name ih => exact .redir ih name
  | pipe first second => exact .pipe first second
  | list first second => exact .list first second
  | back inner => exact .back inner

/-- The pointers stand around the word, and the word goes no further. -/
def Marked (line : List Char) (p : Nat × Nat) (w : List Char) : Prop :=
  Word w ∧ p.2 = p.1 + w.length ∧ ∃ rest, line.drop p.1 = w ++ rest ∧ ∀ c ∈ rest.head?, wordChar c = false

/-- The parser stands where the tokens are to come. -/
def At (line : List Char) (s : Nat) (toks : List Tok) : Prop :=
  s ≤ line.length ∧ Spaced false toks (line.drop s)

section Tokens

variable {line : List Char} {s : Nat} {tok : Tok} {toks : List Tok} {text : List Char} {after : Bool}

def Tok.first (tok : Tok) : Char := tok.text.headD '\x00'

/-- What `gettoken` returns for the token. -/
def Tok.ret : Tok → Char
  | .word _ => 'a'
  | .redir .append => '+'
  | tok => tok.first

theorem Word.cons {w : List Char} (word : Word w) : ∃ c others, w = c :: others ∧
    wordChar c = true ∧ c ≠ '\x00' := by
  cases w with
  | nil => exact absurd rfl word.some
  | cons c others =>
    refine ⟨c, others, rfl, word.chars c (List.mem_cons_self ..), fun nul => word.proper ?_⟩
    rw [nul]
    exact List.mem_cons_self ..

theorem wordChar_spec {c : Char} (good : wordChar c = true) : c ∉ whitespace ∧ c ∉ symbols :=
  of_decide_eq_true good

theorem Tok.Good.first (good : tok.Good) :
    ∃ others, tok.text = tok.first :: others ∧ tok.first ∉ whitespace ∧ tok.first ≠ '\x00' := by
  cases tok with
  | word w =>
    obtain ⟨c, others, rfl, char, some⟩ := Word.cons good
    exact ⟨others, rfl, (wordChar_spec char).1, some⟩
  | redir kind => cases kind <;> exact ⟨_, rfl, by decide, by decide⟩
  | _ => exact ⟨_, rfl, by decide, by decide⟩

theorem charAt_of_drop {c : Char} {others : List Char} (here : line.drop s = c :: others) :
    charAt line s = c := by
  rw [charAt_drop, here]
  rfl

theorem drop_of_cons {c : Char} {others : List Char} (here : line.drop s = c :: others) :
    line.drop (s + 1) = others := by
  rw [← List.drop_drop, here]
  rfl

theorem le_of_cons {c : Char} {others : List Char} (here : line.drop s = c :: others) : s < line.length := by
  by_contra past
  rw [List.drop_eq_nil_iff.mpr (by omega)] at here
  cases here

/-- After the whitespace the next token stands. -/
theorem Spaced.next_text (good : tok.Good) (spaced : Spaced after (tok :: toks) text) :
    ∃ rest, text.dropWhile (· ∈ whitespace) = tok.text ++ rest ∧ Spaced tok.isWord toks rest := by
  cases spaced with
  | next blank apart others =>
    obtain ⟨tail, same, space, -⟩ := good.first
    refine ⟨_, ?_, others⟩
    rw [List.dropWhile_append_of_pos fun c member => decide_eq_true (blank c member), same, List.cons_append]
    exact List.dropWhile_cons_of_neg (mt of_decide_eq_true space)

theorem Spaced.done_text (spaced : Spaced after [] text) : text.dropWhile (· ∈ whitespace) = [] := by
  cases spaced with
  | done blank => exact List.dropWhile_eq_nil_iff.mpr fun c member => decide_eq_true (blank c member)

/-- The whitespace may be left out when the words apart have been read. -/
theorem Spaced.skip (good : ∀ t ∈ toks, t.Good) (inside : s ≤ line.length)
    (spaced : Spaced after toks (line.drop s)) :
    At line (skip line s) toks := by
  refine ⟨(skip_bounds inside).2, ?_⟩
  rw [skip_drop]
  cases toks with
  | nil =>
    rw [spaced.done_text]
    exact .done fun c member => (by cases member)
  | cons tok toks =>
    obtain ⟨rest, same, others⟩ := spaced.next_text (good tok (List.mem_cons_self ..))
    rw [same]
    exact @Spaced.next _ _ _ [] _ (fun c member => (by cases member)) (fun wrong => (by cases wrong)) others

/-- A word that has just ended goes no further. -/
theorem Spaced.ends_word (spaced : Spaced true toks text) : ∀ c ∈ text.head?, wordChar c = false := by
  have space : ∀ c ∈ whitespace, wordChar c = false := by simp [whitespace, wordChar]
  have first : ∀ (gap others : List Char), gap ≠ [] → (∀ c ∈ gap, c ∈ whitespace) →
      ∀ c ∈ (gap ++ others).head?, wordChar c = false := fun gap others some blank c member => by
    obtain ⟨d, tail, rfl⟩ := List.exists_cons_of_ne_nil some
    rw [← Option.mem_some_iff.mp member]
    exact space d (blank d (List.mem_cons_self ..))
  cases spaced with
  | done blank =>
    cases gap : text with
    | nil => exact fun c member => (by cases member)
    | cons d tail =>
      have blank' : ∀ c ∈ d :: tail, c ∈ whitespace := gap ▸ blank
      have ends := first (d :: tail) [] (List.cons_ne_nil d tail) blank'
      rwa [List.append_nil] at ends
  | @next _ tok _ gap text blank apart others =>
    cases some : gap with
    | cons d tail =>
      rw [← some]
      exact first gap _ (by rw [some]; exact List.cons_ne_nil d tail) blank
    | nil =>
      cases tok with
      | word w => exact absurd some (apart rfl rfl)
      | redir kind => cases kind <;> exact fun c member => (Option.mem_some_iff.mp member) ▸ by decide
      | _ => exact fun c member => (Option.mem_some_iff.mp member) ▸ by decide

/-- No operator begins where a word is to come. -/
theorem Spaced.word_head {w : List Char} (word : Word w) (spaced : Spaced after (.word w :: toks) text) :
    text.headD '\x00' ≠ '>' := by
  cases spaced with
  | @next _ _ _ gap _ blank apart others =>
    cases some : gap with
    | cons d tail =>
      have space : d ∈ whitespace := blank d (some ▸ List.mem_cons_self ..)
      rintro (rfl : d = '>')
      exact absurd space (by decide)
    | nil =>
      obtain ⟨c, tail, rfl, char, -⟩ := word.cons
      rintro (rfl : c = '>')
      exact absurd char (by decide)

theorem token_word (some : charAt line s ≠ '\x00') (good : wordChar (charAt line s) = true) :
    token line s = ('a', skipWord line s) := by
  have other : ∀ c ∈ symbols, charAt line s ≠ c := fun c member same => (wordChar_spec good).2 (same ▸ member)
  unfold token
  split
  case h_1 zero => exact absurd zero some
  case h_9 => rfl
  all_goals exact absurd ‹_› (other _ (by decide))

/-- What satisfies the test up to where the test fails is taken. -/
theorem takeWhile_whole {A : Type} {p : A → Bool} {taken rest : List A} (each : ∀ a ∈ taken, p a = true)
    (stop : ∀ a ∈ rest.head?, p a = false) : (taken ++ rest).takeWhile p = taken := by
  rw [List.takeWhile_append_of_pos each]
  cases rest with
  | nil => rw [List.takeWhile_nil, List.append_nil]
  | cons a others =>
    have fails : p a = false := stop a rfl
    rw [List.takeWhile_cons_of_neg (by rw [fails]; decide), List.append_nil]

theorem skipWord_drop {w : List Char} (word : Word w) (ends : ∀ c ∈ text.head?, wordChar c = false)
    (here : line.drop s = w ++ text) : skipWord line s = s + w.length := by
  rw [skipWord, here, takeWhile_whole word.chars ends]

theorem token_at (good : tok.Good) (here : line.drop s = tok.text ++ text)
    (others : Spaced tok.isWord toks text)
    (file : tok = .redir .output → text.headD '\x00' ≠ '>') :
    token line s = (tok.ret, s + tok.text.length) := by
  cases tok with
  | word w =>
    obtain ⟨c, tail, rfl, char, some⟩ := Word.cons good
    have first : charAt line s = c := charAt_of_drop here
    rw [token_word (by rw [first]; exact some) (by rw [first]; exact char),
      skipWord_drop good others.ends_word here]
    rfl
  | redir kind =>
    cases kind with
    | input =>
      unfold token
      rw [charAt_of_drop here]
      rfl
    | output =>
      have second : charAt line (s + 1) ≠ '>' := by
        rw [charAt_drop, drop_of_cons here]
        exact file rfl
      unfold token
      rw [charAt_of_drop here]
      simp only [second, if_false]
      rfl
    | append =>
      have second : charAt line (s + 1) = '>' := charAt_of_drop (drop_of_cons here)
      unfold token
      rw [charAt_of_drop here]
      simp only [second, if_true]
      rfl
  | _ =>
    unfold token
    rw [charAt_of_drop here]
    rfl

theorem gettoken_at (here : At line s (tok :: toks)) (good : ∀ t ∈ tok :: toks, t.Good)
    (file : tok = .redir .output → ∃ w others, toks = .word w :: others) :
    ∃ p s', gettoken line s = (tok.ret, p.1, p.2, s') ∧ At line s' toks ∧ s < s' ∧ ∀ w, tok = .word w →
    Marked line p w := by
  rw [List.forall_mem_cons] at good
  obtain ⟨text, next, others⟩ := here.2.next_text good.1
  rw [← skip_drop] at next
  obtain ⟨tail, some, -⟩ := good.1.first
  have inside : skip line s + tok.text.length ≤ line.length := by
    have size := congrArg List.length next
    rw [List.length_drop, List.length_append] at size
    have before := (skip_bounds here.1).2
    omega
  have read := token_at good.1 next others fun output => by
    obtain ⟨w, others', rfl⟩ := file output
    rw [output] at others
    exact others.word_head (good.2 _ (List.mem_cons_self ..))
  have rest : line.drop (skip line s + tok.text.length) = text := by
    rw [← List.drop_drop, next, List.drop_left]
  refine ⟨(skip line s, skip line s + tok.text.length),
    skip line (skip line s + tok.text.length), ?_, ?_, ?_, ?_⟩
  · simp only [gettoken, read]
  · exact (rest ▸ others : Spaced _ _ (line.drop _)).skip good.2 inside
  · have lower := (skip_bounds here.1).1
    have upper := (skip_bounds inside).1
    rw [some, List.length_cons] at upper ⊢
    omega
  · rintro w rfl
    exact ⟨good.1, rfl, text, next, others.ends_word⟩

theorem skip_end (here : At line s []) : skip line s = line.length := by
  have none := skip_drop line s
  rw [here.2.done_text, List.drop_eq_nil_iff] at none
  exact Nat.le_antisymm (skip_bounds here.1).2 none

theorem gettoken_end (here : At line s []) :
    gettoken line s = ('\x00', line.length, line.length, line.length) := by
  have last := skip_end here
  have nul : charAt line line.length = '\x00' := by
    rw [charAt_drop, List.drop_length]
    rfl
  have stay : skip line line.length = line.length := by
    rw [← last, skip_skip]
  unfold gettoken token
  simp only [last, nul, stay]

/-- What `peek` sees of the tokens to come. -/
def sees (toks : List Tok) (cs : List Char) : Bool := toks.head?.any fun tok => tok.first ∈ cs

theorem peek_at (here : At line s toks) (good : ∀ t ∈ toks, t.Good) (cs : List Char) :
    ∃ s', peek line s cs = (sees toks cs, s') ∧ At line s' toks ∧ s ≤ s' := by
  refine ⟨skip line s, ?_, here.2.skip good here.1, (skip_bounds here.1).1⟩
  unfold peek
  dsimp only
  rw [charAt_drop, skip_drop]
  refine Prod.ext ?_ rfl
  cases toks with
  | nil =>
    rw [here.2.done_text]
    rfl
  | cons tok toks =>
    have good' := good tok (List.mem_cons_self ..)
    obtain ⟨rest, same, -⟩ := here.2.next_text good'
    obtain ⟨tail, text, -, some⟩ := good'.first
    rw [same, text, List.cons_append, List.headD_cons]
    simp only [some, ne_eq, not_false_eq_true, true_and]
    exact (Bool.false_or _).symm

end Tokens

section Commands

variable {line : List Char} {s fuel argc : Nat} {rest : List Tok} {cmd : Cmd (Nat × Nat)}
  {tree : Cmd (List Char)}

/-- A call returns the command that stands for the tree, and leaves the other tokens. -/
def Reads (line : List Char) (s : Nat) (rest : List Tok) (tree : Cmd (List Char))
    (r : Parse (Cmd (Nat × Nat) × Nat)) :
    Prop :=
  ∃ cmd s', r = .ok (cmd, s') ∧ cmd.Rel (Marked line) tree ∧ At line s' rest ∧ s ≤ s'

theorem redircmd_ret {W : Type} (kind : Kind) (cmd : Cmd W) (file : W) :
    redircmd (Tok.redir kind).ret cmd file = .redir cmd file kind.mode kind.fd := by cases kind <;> rfl

theorem parseredirs_reads (redirs : List (Kind × List Char))
    (good : ∀ tok ∈ redirToks redirs ++ rest, tok.Good)
    (stop : sees rest ['<', '>'] = false) (rel : cmd.Rel (Marked line) tree)
    (here : At line s (redirToks redirs ++ rest)) (enough : line.length - s < fuel) :
    Reads line s rest (tree.wraps redirs) (parseredirs line fuel cmd s) := by
  induction redirs generalizing s cmd tree fuel with
  | nil =>
    obtain ⟨fuel, rfl⟩ : ∃ n, fuel = n + 1 := ⟨fuel - 1, by omega⟩
    obtain ⟨s', look, here', after⟩ := peek_at here good ['<', '>']
    rw [parseredirs]
    simp only [look, show sees (redirToks [] ++ rest) ['<',
      '>'] = false from stop, Bool.false_eq_true, if_false]
    exact ⟨cmd, s', rfl, rel, here', after⟩
  | cons r redirs ih =>
    obtain ⟨fuel, rfl⟩ : ∃ n, fuel = n + 1 := ⟨fuel - 1, by omega⟩
    obtain ⟨kind, file⟩ := r
    have toks : redirToks ((kind, file) :: redirs) ++ rest = .redir kind :: .word file ::
      (redirToks redirs ++ rest) := rfl
    rw [toks] at here good
    have good' := (List.forall_mem_cons.mp good).2
    obtain ⟨s₁, look, here₁, after₁⟩ := peek_at here good ['<', '>']
    obtain ⟨mark, s₂, first, here₂, after₂, -⟩ := gettoken_at here₁ good fun _ => ⟨file, _, rfl⟩
    obtain ⟨p, s₃, second, here₃, after₃, marked⟩ := gettoken_at here₂ good' fun wrong => (by cases wrong)
    have seen : sees (.redir kind :: .word file :: (redirToks redirs ++ rest)) ['<', '>'] = true := by
      cases kind <;> rfl
    have ret : (Tok.word file).ret = 'a' := rfl
    rw [parseredirs]
    simp only [look, seen, if_true, first, second, ret, ne_eq, not_true_eq_false, if_false, redircmd_ret]
    have inside := here₃.1
    obtain ⟨cmd', s₄, run, rel', here₄, after₄⟩ :=
      ih (List.forall_mem_cons.mp good').2 (.redir rel (marked file rfl)) here₃
      (show line.length - s₃ < fuel by omega)
    exact ⟨cmd', s₄, run, rel', here₄, by omega⟩

theorem word_sees {w : List Char} (word : Word w) (toks : List Tok) {cs : List Char}
    (operators : ∀ c ∈ cs, c ∈ symbols) :
    sees (.word w :: toks) cs = false := by
  obtain ⟨c, others, rfl, char, -⟩ := word.cons
  exact decide_eq_false fun member => (wordChar_spec char).2 (operators c member)

theorem argToks_sees (args : List (List Char × List (Kind × List Char)))
    (good : ∀ tok ∈ argToks args ++ rest, tok.Good)
    {cs : List Char} (operators : ∀ c ∈ cs, c ∈ symbols) (stop : sees rest cs = false) :
    sees (argToks args ++ rest) cs = false := by
  cases args with
  | nil => exact stop
  | cons a args => exact word_sees (good (.word a.1) (List.mem_cons_self ..)) _ operators

def EndsLine (rest : List Tok) : Prop := rest = [] ∨ ∃ toks, rest = .right :: toks

def EndsPipe (rest : List Tok) : Prop :=
  EndsLine rest ∨ (∃ toks, rest = .semicolon :: toks) ∨ ∃ toks, rest = .amp :: toks

def EndsExec (rest : List Tok) : Prop := EndsPipe rest ∨ ∃ toks, rest = .bar :: toks

theorem EndsExec.redirs (stops : EndsExec rest) : sees rest ['<', '>'] = false := by
  rcases stops with ((rfl | ⟨toks, rfl⟩) | ⟨toks, rfl⟩ | ⟨toks, rfl⟩) | ⟨toks, rfl⟩ <;> rfl

theorem EndsExec.args (stops : EndsExec rest) : rest = [] ∨ sees rest ['|', ')', '&', ';'] = true := by
  rcases stops with ((rfl | ⟨toks, rfl⟩) | ⟨toks, rfl⟩ | ⟨toks, rfl⟩) | ⟨toks, rfl⟩
  · exact .inl rfl
  all_goals exact .inr rfl

/-- The words and redirections in the order in which they are read. -/
def Cmd.adds (args : List (List Char × List (Kind × List Char))) (tree : Cmd (List Char)) : Cmd (List Char) :=
  args.foldl (fun tree a => (tree.addArg a.1).wraps a.2) tree

theorem Cmd.adds_wraps (args : List (List Char × List (Kind × List Char))) (lead : List (Kind × List Char))
    (argv : List (List Char)) : ((Cmd.exec argv).wraps lead).adds args =
      (Cmd.exec (argv ++ args.map (·.1))).wraps (lead ++ args.flatMap (·.2)) := by
  induction args generalizing lead argv with
  | nil => simp [Cmd.adds]
  | cons a args ih =>
    have step : ((Cmd.exec argv).wraps lead).adds (a :: args) =
        ((Cmd.exec (argv ++ [a.1])).wraps (lead ++ a.2)).adds args := by
      rw [Cmd.wraps_append]
      exact congrArg (fun t : Cmd (List Char) => (t.wraps a.2).adds args)
        (Cmd.addArg_wraps lead (.exec argv) a.1)
    rw [step, ih, List.map_cons, List.flatMap_cons, List.append_assoc, List.append_assoc]
    rfl

theorem parseargs_reads (args : List (List Char × List (Kind × List Char)))
    (good : ∀ tok ∈ argToks args ++ rest, tok.Good) (stops : EndsExec rest) (rel : cmd.Rel (Marked line) tree)
    (here : At line s (argToks args ++ rest)) (room : argc + args.length + 1 ≤ MAXARGS)
    (enough : line.length - s < fuel) :
    Reads line s rest (tree.adds args) (parseargs line fuel argc cmd s) := by
  induction args generalizing s cmd tree fuel argc with
  | nil =>
    obtain ⟨fuel, rfl⟩ : ∃ n, fuel = n + 1 := ⟨fuel - 1, by omega⟩
    obtain ⟨s', look, here', after⟩ := peek_at (show At line s rest from here) good ['|', ')', '&', ';']
    rw [parseargs]
    rcases stops.args with rfl | found
    · have last := gettoken_end here'
      have none : sees [] ['|', ')', '&', ';'] = false := rfl
      simp only [look, none, Bool.false_eq_true, if_false, last, if_true]
      refine ⟨cmd, line.length, rfl, rel, ⟨Nat.le_refl _, ?_⟩, Nat.le_trans after here'.1⟩
      rw [List.drop_length]
      exact .done fun c member => (by cases member)
    · simp only [look, found, if_true]
      exact ⟨cmd, s', rfl, rel, here', after⟩
  | cons a args ih =>
    obtain ⟨fuel, rfl⟩ : ∃ n, fuel = n + 1 := ⟨fuel - 1, by omega⟩
    obtain ⟨word, redirs⟩ := a
    have toks : argToks ((word, redirs) :: args) ++ rest = .word word ::
      (redirToks redirs ++ (argToks args ++ rest)) := by
      simp [argToks]
    rw [toks] at here good
    have good' := (List.forall_mem_cons.mp good).2
    have good'' := (List.forall_mem_append.mp good').2
    obtain ⟨s₁, look, here₁, after₁⟩ := peek_at here good ['|', ')', '&', ';']
    obtain ⟨p, s₂, read, here₂, after₂, marked⟩ := gettoken_at here₁ good fun wrong => (by cases wrong)
    have unseen : sees (.word word :: (redirToks redirs ++ (argToks args ++ rest))) ['|', ')',
      '&', ';'] = false :=
      word_sees (good _ (List.mem_cons_self ..)) _ (by simp [symbols])
    have ret : (Tok.word word).ret = 'a' := rfl
    have few : ¬ MAXARGS ≤ argc + 1 := by
      rw [List.length_cons] at room
      omega
    obtain ⟨cmd₁, s₃, run₁, rel₁, here₃, after₃⟩ := parseredirs_reads redirs good'
      (argToks_sees args good'' (by simp [symbols]) stops.redirs) (rel.addArg (marked word rfl)) here₂
      (show line.length - s₂ < line.length + 1 by omega)
    have inside := here₃.1
    obtain ⟨cmd₂, s₄, run₂, rel₂, here₄, after₄⟩ := @ih s₃ fuel (argc + 1) cmd₁ _ good'' rel₁ here₃
      (by rw [List.length_cons] at room; omega) (show line.length - s₃ < fuel by omega)
    rw [parseargs]
    simp only [look, unseen, Bool.false_eq_true, if_false, read, ret, few, ne_eq, not_true_eq_false]
    refine ⟨cmd₂, s₄, ?_, rel₂, here₄, by omega⟩
    rw [if_neg (by decide : ¬ 'a' = '\x00'), run₁]
    exact run₂

theorem parsebacks_reads (backs : Nat) (good : ∀ tok ∈ List.replicate backs .amp ++ rest, tok.Good)
    (stop : sees rest ['&'] = false) (rel : cmd.Rel (Marked line) tree)
    (here : At line s (List.replicate backs .amp ++ rest)) (enough : line.length - s < fuel) :
    Reads line s rest (Cmd.back^[backs] tree) (parsebacks line fuel cmd s) := by
  induction backs generalizing s cmd tree fuel with
  | zero =>
    obtain ⟨fuel, rfl⟩ : ∃ n, fuel = n + 1 := ⟨fuel - 1, by omega⟩
    obtain ⟨s', look, here', after⟩ := peek_at here good ['&']
    rw [parsebacks]
    simp only [look, show sees (List.replicate 0 .amp ++ rest) ['&'] = false from stop, Bool.false_eq_true, if_false]
    exact ⟨cmd, s', rfl, rel, here', after⟩
  | succ backs ih =>
    obtain ⟨fuel, rfl⟩ : ∃ n, fuel = n + 1 := ⟨fuel - 1, by omega⟩
    rw [List.replicate_succ, List.cons_append] at here good
    obtain ⟨s₁, look, here₁, after₁⟩ := peek_at here good ['&']
    obtain ⟨mark, s₂, read, here₂, after₂, -⟩ := gettoken_at here₁ good fun wrong => (by cases wrong)
    have inside := here₂.1
    obtain ⟨cmd', s₃, run, rel', here₃, after₃⟩ :=
      ih (List.forall_mem_cons.mp good).2 (.back rel) here₂ (show line.length - s₂ < fuel by omega)
    rw [parsebacks]
    simp only [look, show sees (.amp :: (List.replicate backs .amp ++ rest)) ['&'] = true from rfl, if_true, read]
    exact ⟨cmd', s₃, run, rel', here₃, by omega⟩

/-- The function that reads a command of the level. -/
def Level.parse (line : List Char) : Level → Nat → Nat → Parse (Cmd (Nat × Nat) × Nat)
  | .line => parseline line
  | .pipe => parsepipe line
  | .exec => parseexec line

def Level.depth : Level → Nat
  | .line => 4
  | .pipe => 3
  | .exec => 2

def Level.Ends : Level → List Tok → Prop
  | .line => EndsLine
  | .pipe => EndsPipe
  | .exec => EndsExec

theorem amps_good (backs : Nat) : ∀ tok ∈ List.replicate backs Tok.amp, tok.Good := fun tok member => by
  rw [List.eq_of_mem_replicate member]
  trivial

/-- An ampersand or what comes after a pipe line. -/
theorem amps_ends (backs : Nat) (ends : EndsPipe rest) : EndsPipe (List.replicate backs .amp ++ rest) := by
  cases backs with
  | zero => exact ends
  | succ backs => exact .inr (.inr ⟨_, rfl⟩)

theorem parse_reads {level : Level} {toks : List Tok} (printed : Prints level tree toks) :
    tree.Ok → ∀ fuel s rest,
    (∀ tok ∈ rest, tok.Good) → level.Ends rest → At line s (toks ++ rest) →
    4 * (line.length - s) + level.depth ≤ fuel → Reads line s rest tree (level.parse line fuel s) := by
  induction printed with
  | exec lead args =>
    intro ok fuel s rest good ends here enough
    obtain ⟨fuel, rfl⟩ : ∃ n, fuel = n + 1 := ⟨fuel - 1, by simp only [Level.depth] at enough; omega⟩
    obtain ⟨⟨few, words⟩, files⟩ := Cmd.ok_wraps.mp ok
    rw [List.length_map] at few
    have all := List.forall_mem_append.mpr ⟨(Prints.exec lead args).good ok, good⟩
    rw [List.append_assoc] at here all
    have later := (List.forall_mem_append.mp all).2
    have unseen : sees (redirToks lead ++ (argToks args ++ rest)) ['('] = false := by
      cases lead with
      | nil =>
        refine argToks_sees args later (by simp [symbols]) ?_
        rcases ends with ((rfl | ⟨toks, rfl⟩) | ⟨toks, rfl⟩ | ⟨toks, rfl⟩) | ⟨toks, rfl⟩ <;> rfl
      | cons r lead =>
        obtain ⟨kind, file⟩ := r
        cases kind <;> rfl
    obtain ⟨s₁, look, here₁, after₁⟩ := peek_at here all ['(']
    obtain ⟨cmd₁, s₂, run₁, rel₁, here₂, after₂⟩ := parseredirs_reads lead all
      (argToks_sees args later (by simp [symbols]) ends.redirs) (.exec .nil) here₁
      (Nat.lt_succ_of_le (Nat.sub_le _ _))
    obtain ⟨cmd₂, s₃, run₂, rel₂, here₃, after₃⟩ :=
      @parseargs_reads line s₂ (line.length + 1) 0 rest cmd₁ _ args later ends
      rel₁ here₂ (by omega) (Nat.lt_succ_of_le (Nat.sub_le _ _))
    rw [Cmd.adds_wraps, List.nil_append] at rel₂
    rw [Level.parse, parseexec]
    simp only [look, unseen, Bool.false_eq_true, if_false]
    rw [run₁]
    exact ⟨cmd₂, s₃, run₂, rel₂, here₃, by omega⟩
  | @block cmd toks redirs inner ih =>
    intro ok fuel s rest good ends here enough
    simp only [Level.depth] at enough ih
    obtain ⟨fuel, rfl⟩ : ∃ n, fuel = n + 2 := ⟨fuel - 2, by omega⟩
    have all := List.forall_mem_append.mpr ⟨(Prints.block redirs inner).good ok, good⟩
    have shape : (.left :: (toks ++ .right :: redirToks redirs)) ++ rest = .left ::
      (toks ++ .right :: (redirToks redirs ++ rest)) := by
      simp
    rw [shape] at here all
    have all' := (List.forall_mem_cons.mp all).2
    have all'' := (List.forall_mem_append.mp all').2
    obtain ⟨s₁, look, here₁, after₁⟩ := peek_at here all ['(']
    obtain ⟨s₂, look', here₂, after₂⟩ := peek_at here₁ all ['(']
    obtain ⟨mark, s₃, read, here₃, after₃, -⟩ := gettoken_at here₂ all fun wrong => (by cases wrong)
    have inside := here₃.1
    obtain ⟨cmd₁, s₄, run₁, rel₁, here₄, after₄⟩ :=
      ih (Cmd.ok_wraps.mp ok).1 fuel s₃ _ all'' (.inr ⟨_, rfl⟩) here₃ (by omega)
    obtain ⟨s₅, look'', here₅, after₅⟩ := peek_at here₄ all'' [')']
    obtain ⟨mark', s₆, read', here₆, after₆, -⟩ := gettoken_at here₅ all'' fun wrong => (by cases wrong)
    obtain ⟨cmd₂, s₇, run₂, rel₂, here₇, after₇⟩ := parseredirs_reads redirs (List.forall_mem_cons.mp all'').2
      ends.redirs rel₁ here₆ (Nat.lt_succ_of_le (Nat.sub_le _ _))
    have seen (toks : List Tok) : sees (.left :: toks) ['('] = true := rfl
    have seen' (toks : List Tok) : sees (.right :: toks) [')'] = true := rfl
    have run₁' : parseline line fuel s₃ = .ok (cmd₁, s₄) := run₁
    rw [Level.parse, parseexec]
    simp only [look, seen, if_true]
    rw [parseblock]
    simp only [look', seen, Bool.not_true, Bool.false_eq_true, if_false, read]
    rw [run₁']
    simp only [bind, Except.bind, look'', seen', Bool.not_true, Bool.false_eq_true, if_false, read']
    exact ⟨cmd₂, s₇, run₂, rel₂, here₇, by omega⟩
  | @last cmd toks inner ih =>
    intro ok fuel s rest good ends here enough
    simp only [Level.depth] at enough ih
    obtain ⟨fuel, rfl⟩ : ∃ n, fuel = n + 1 := ⟨fuel - 1, by omega⟩
    obtain ⟨cmd₁, s₁, run, rel, here₁, after₁⟩ := ih ok fuel s rest good (.inl ends) here (by omega)
    obtain ⟨s₂, look, here₂, after₂⟩ := peek_at here₁ good ['|']
    have unseen : sees rest ['|'] = false := by
      rcases ends with (rfl | ⟨toks, rfl⟩) | ⟨toks, rfl⟩ | ⟨toks, rfl⟩ <;> rfl
    have run' : parseexec line fuel s = .ok (cmd₁, s₁) := run
    rw [Level.parse, parsepipe, run']
    simp only [bind, Except.bind, look, unseen, Bool.false_eq_true, if_false]
    exact ⟨cmd₁, s₂, rfl, rel, here₂, by omega⟩
  | @pipe left right toks others first second ih ih' =>
    intro ok fuel s rest good ends here enough
    simp only [Level.depth] at enough ih ih'
    obtain ⟨fuel, rfl⟩ : ∃ n, fuel = n + 1 := ⟨fuel - 1, by omega⟩
    have good' : ∀ tok ∈ .bar :: (others ++ rest), tok.Good :=
      List.forall_mem_cons.mpr ⟨trivial, List.forall_mem_append.mpr ⟨second.good ok.2, good⟩⟩
    rw [List.append_assoc, List.cons_append] at here
    obtain ⟨cmd₁, s₁, run, rel, here₁, after₁⟩ := ih ok.1 fuel s _ good' (.inr ⟨_, rfl⟩) here (by omega)
    obtain ⟨s₂, look, here₂, after₂⟩ := peek_at here₁ good' ['|']
    obtain ⟨mark, s₃, read, here₃, after₃, -⟩ := gettoken_at here₂ good' fun wrong => (by cases wrong)
    have inside := here₃.1
    obtain ⟨cmd₂, s₄, run₂, rel₂, here₄, after₄⟩ := ih' ok.2 fuel s₃ rest good ends here₃ (by omega)
    have run' : parseexec line fuel s = .ok (cmd₁, s₁) := run
    have run₂' : parsepipe line fuel s₃ = .ok (cmd₂, s₄) := run₂
    rw [Level.parse, parsepipe, run']
    simp only [bind, Except.bind, look,
      show sees (.bar :: (others ++ rest)) ['|'] = true from rfl, if_true, read, run₂']
    exact ⟨.pipe cmd₁ cmd₂, s₄, rfl, .pipe rel rel₂, here₄, by omega⟩
  | @line cmd toks backs inner ih =>
    intro ok fuel s rest good ends here enough
    simp only [Level.depth] at enough ih
    obtain ⟨fuel, rfl⟩ : ∃ n, fuel = n + 1 := ⟨fuel - 1, by omega⟩
    have good' := List.forall_mem_append.mpr ⟨amps_good backs, good⟩
    rw [List.append_assoc] at here
    obtain ⟨cmd₁, s₁, run, rel, here₁, after₁⟩ :=
      ih ((Cmd.ok_backs backs).mp ok) fuel s _ good' (amps_ends backs (.inl ends)) here (by omega)
    have stop : sees rest ['&'] = false := by rcases ends with rfl | ⟨toks, rfl⟩ <;> rfl
    have unseen : sees rest [';'] = false := by rcases ends with rfl | ⟨toks, rfl⟩ <;> rfl
    obtain ⟨cmd₂, s₂, run₂, rel₂, here₂, after₂⟩ := parsebacks_reads backs good' stop rel here₁
      (Nat.lt_succ_of_le (Nat.sub_le _ _))
    obtain ⟨s₃, look, here₃, after₃⟩ := peek_at here₂ good [';']
    have run' : parsepipe line fuel s = .ok (cmd₁, s₁) := run
    rw [Level.parse, parseline, run']
    simp only [bind, Except.bind, run₂, look, unseen, Bool.false_eq_true, if_false]
    exact ⟨cmd₂, s₃, rfl, rel₂, here₃, by omega⟩
  | @list left right toks others backs first second ih ih' =>
    intro ok fuel s rest good ends here enough
    simp only [Level.depth] at enough ih ih'
    obtain ⟨fuel, rfl⟩ : ∃ n, fuel = n + 1 := ⟨fuel - 1, by omega⟩
    have good' : ∀ tok ∈ .semicolon :: (others ++ rest), tok.Good :=
      List.forall_mem_cons.mpr ⟨trivial, List.forall_mem_append.mpr ⟨second.good ok.2, good⟩⟩
    have good'' := List.forall_mem_append.mpr ⟨amps_good backs, good'⟩
    rw [List.append_assoc, List.append_assoc, List.cons_append] at here
    obtain ⟨cmd₁, s₁, run, rel, here₁, after₁⟩ := ih ((Cmd.ok_backs backs).mp ok.1) fuel s _ good''
      (amps_ends backs (.inr (.inl ⟨_, rfl⟩))) here (by omega)
    obtain ⟨cmd₂, s₂, run₂, rel₂, here₂, after₂⟩ := parsebacks_reads backs good'' rfl rel here₁
      (Nat.lt_succ_of_le (Nat.sub_le _ _))
    obtain ⟨s₃, look, here₃, after₃⟩ := peek_at here₂ good' [';']
    obtain ⟨mark, s₄, read, here₄, after₄, -⟩ := gettoken_at here₃ good' fun wrong => (by cases wrong)
    have inside := here₄.1
    obtain ⟨cmd₃, s₅, run₃, rel₃, here₅, after₅⟩ := ih' ok.2 fuel s₄ rest good ends here₄ (by omega)
    have run' : parsepipe line fuel s = .ok (cmd₁, s₁) := run
    have run₃' : parseline line fuel s₄ = .ok (cmd₃, s₅) := run₃
    rw [Level.parse, parseline, run']
    simp only [bind, Except.bind, run₂, look,
      show sees (.semicolon :: (others ++ rest)) [';'] = true from rfl, if_true, read,
      run₃']
    exact ⟨.list cmd₂ cmd₃, s₅, rfl, .list rel₂ rel₃, here₅, by omega⟩

end Commands

end Xv6.Shell
