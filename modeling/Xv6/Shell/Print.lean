import Xv6.Shell.Machine
import Mathlib.Logic.Function.Iterate

/-! How a command is written. -/

namespace Xv6.Shell

inductive Kind
  | input
  | output
  | append

def Kind.text : Kind → List Char
  | .input => ['<']
  | .output => ['>']
  | .append => ['>', '>']

def Kind.mode : Kind → Nat
  | .input => O_RDONLY
  | .output => O_WRONLY ||| O_CREATE ||| O_TRUNC
  | .append => O_WRONLY ||| O_CREATE

def Kind.fd : Kind → Nat
  | .input => 0
  | _ => 1

inductive Tok
  | word (w : List Char)
  | bar
  | amp
  | semicolon
  | left
  | right
  | redir (kind : Kind)

def Tok.text : Tok → List Char
  | .word w => w
  | .bar => ['|']
  | .amp => ['&']
  | .semicolon => [';']
  | .left => ['(']
  | .right => [')']
  | .redir kind => kind.text

def Tok.isWord : Tok → Bool
  | .word _ => true
  | _ => false

structure Word (w : List Char) : Prop where
  some : w ≠ []
  chars : ∀ c ∈ w, wordChar c = true
  proper : '\x00' ∉ w

def Tok.Good : Tok → Prop
  | .word w => Word w
  | _ => True

/-- The tokens with whitespace around them. Two words do not touch; `after` says that a word stands right
before. -/
inductive Spaced : Bool → List Tok → List Char → Prop
  | done {after gap} (blank : ∀ c ∈ gap, c ∈ whitespace) : Spaced after [] gap
  | next {after tok toks gap text} (blank : ∀ c ∈ gap, c ∈ whitespace)
      (apart : after = true → tok.isWord = true → gap ≠ []) (others : Spaced tok.isWord toks text) :
      Spaced after (tok :: toks) (gap ++ (tok.text ++ text))

/-- The commands that can be written: nine words at most, and the three redirections. -/
def Cmd.Ok : Cmd (List Char) → Prop
  | .exec argv => argv.length + 1 ≤ MAXARGS ∧ ∀ w ∈ argv, Word w
  | .redir cmd file mode fd => cmd.Ok ∧ Word file ∧ ∃ kind : Kind, kind.mode = mode ∧ kind.fd = fd
  | .pipe left right => left.Ok ∧ right.Ok
  | .list left right => left.Ok ∧ right.Ok
  | .back cmd => cmd.Ok

section Trees

variable {W : Type}

/-- The command inside its redirections, the first one innermost. -/
def Cmd.wraps (redirs : List (Kind × W)) (cmd : Cmd W) : Cmd W :=
  redirs.foldl (fun cmd r => .redir cmd r.2 r.1.mode r.1.fd) cmd

@[simp] theorem Cmd.wraps_nil (cmd : Cmd W) : cmd.wraps [] = cmd := rfl

@[simp] theorem Cmd.wraps_cons (r : Kind × W) (redirs : List (Kind × W)) (cmd : Cmd W) :
    cmd.wraps (r :: redirs) = (Cmd.redir cmd r.2 r.1.mode r.1.fd).wraps redirs := rfl

theorem Cmd.wraps_append (redirs others : List (Kind × W)) (cmd : Cmd W) :
    cmd.wraps (redirs ++ others) = (cmd.wraps redirs).wraps others := List.foldl_append

theorem Cmd.addArg_wraps (redirs : List (Kind × W)) (cmd : Cmd W) (w : W) :
    (cmd.wraps redirs).addArg w = (cmd.addArg w).wraps redirs := by
  induction redirs generalizing cmd with
  | nil => rfl
  | cons r redirs ih => rw [Cmd.wraps_cons, Cmd.wraps_cons, ih]; rfl

end Trees

/-- Where in the grammar a command stands. -/
inductive Level
  | line
  | pipe
  | exec

def redirToks (redirs : List (Kind × List Char)) : List Tok := redirs.flatMap fun r => [.redir r.1, .word r.2]

/-- The words of a command, each with the redirections that follow it. -/
def argToks (args : List (List Char × List (Kind × List Char))) : List Tok :=
  args.flatMap fun a => .word a.1 :: redirToks a.2

/-- The ways to write a command. Redirections may stand before, between and after the words. -/
inductive Prints : Level → Cmd (List Char) → List Tok → Prop
  | exec (lead : List (Kind × List Char)) (args : List (List Char × List (Kind × List Char))) :
      Prints .exec ((Cmd.exec (args.map (·.1))).wraps (lead ++ args.flatMap (·.2)))
      (redirToks lead ++ argToks args)
  | block {cmd toks} (redirs : List (Kind × List Char)) (inner : Prints .line cmd toks) :
      Prints .exec (cmd.wraps redirs) (.left :: (toks ++ .right :: redirToks redirs))
  | last {cmd toks} (inner : Prints .exec cmd toks) : Prints .pipe cmd toks
  | pipe {left right toks others} (first : Prints .exec left toks) (second : Prints .pipe right others) :
      Prints .pipe (.pipe left right) (toks ++ .bar :: others)
  | line {cmd toks} (backs : Nat) (inner : Prints .pipe cmd toks) :
      Prints .line (Cmd.back^[backs] cmd) (toks ++ List.replicate backs .amp)
  | list {left right toks others} (backs : Nat) (first : Prints .pipe left toks)
      (second : Prints .line right others) :
      Prints .line (.list (Cmd.back^[backs] left) right)
      (toks ++ (List.replicate backs .amp ++ .semicolon :: others))

theorem Prints.toLine {cmd : Cmd (List Char)} {toks : List Tok} (printed : Prints .pipe cmd toks) :
    Prints .line cmd toks := by
  have same := Prints.line 0 printed
  rwa [List.replicate_zero, List.append_nil] at same

/-- Every command is written in some way. -/
theorem Cmd.Ok.prints {cmd : Cmd (List Char)} (ok : cmd.Ok) : ∃ toks, Prints .exec cmd toks := by
  induction cmd with
  | exec argv =>
    have plain := Prints.exec [] (argv.map fun w => (w, []))
    have words : (argv.map fun w => (w, ([] : List (Kind × List Char)))).map (·.1) = argv := by
      rw [List.map_map]
      exact List.map_id argv
    have none : (argv.map fun w => (w, ([] : List (Kind × List Char)))).flatMap (·.2) = [] := by
      simp only [List.flatMap_map, List.flatMap_eq_nil_iff, implies_true]
    rw [words, none] at plain
    exact ⟨_, plain⟩
  | redir cmd file mode fd ih =>
    obtain ⟨inner, -, kind, rfl, rfl⟩ := ok
    obtain ⟨toks, printed⟩ := ih inner
    exact ⟨_, .block [(kind, file)] printed.last.toLine⟩
  | pipe left right first second =>
    obtain ⟨toks, printed⟩ := first ok.1
    obtain ⟨others, printed'⟩ := second ok.2
    exact ⟨_, .block [] (Prints.pipe printed printed'.last).toLine⟩
  | list left right first second =>
    obtain ⟨toks, printed⟩ := first ok.1
    obtain ⟨others, printed'⟩ := second ok.2
    exact ⟨_, .block [] (.list 0 printed.last printed'.last.toLine)⟩
  | back cmd ih =>
    obtain ⟨toks, printed⟩ := ih ok
    exact ⟨_, .block [] (.line 1 printed.last)⟩

/-- With a blank before each token the tokens are apart. -/
theorem spaced_blanks (after : Bool) (toks : List Tok) :
    Spaced after toks (toks.flatMap fun tok => ' ' :: tok.text) := by
  induction toks generalizing after with
  | nil => exact .done fun c member => (by cases member)
  | cons tok toks ih =>
    have blank : ∀ c ∈ [' '], c ∈ whitespace := by simp [whitespace]
    exact .next blank (fun _ _ => List.cons_ne_nil _ _) (ih tok.isWord)

/-- The words of a command that can be written are good ones. -/
theorem Cmd.ok_wraps {cmd : Cmd (List Char)} {redirs : List (Kind × List Char)} :
    (cmd.wraps redirs).Ok ↔ cmd.Ok ∧ ∀ r ∈ redirs, Word r.2 := by
  induction redirs generalizing cmd with
  | nil => simp
  | cons r redirs ih =>
    rw [Cmd.wraps_cons, ih, List.forall_mem_cons]
    constructor
    · rintro ⟨⟨inner, file, -⟩, others⟩
      exact ⟨inner, file, others⟩
    · rintro ⟨inner, file, others⟩
      exact ⟨⟨inner, file, r.1, rfl, rfl⟩, others⟩

theorem Cmd.ok_backs {cmd : Cmd (List Char)} (n : Nat) : (Cmd.back^[n] cmd).Ok ↔ cmd.Ok := by
  induction n generalizing cmd with
  | zero => rfl
  | succ n ih => rw [Function.iterate_succ_apply, ih]; rfl

theorem redirToks_good {redirs : List (Kind × List Char)} (words : ∀ r ∈ redirs, Word r.2) :
    ∀ tok ∈ redirToks redirs, tok.Good := by
  intro tok member
  obtain ⟨r, inside, here⟩ := List.mem_flatMap.mp member
  rcases List.mem_cons.mp here with rfl | here
  · trivial
  · rw [List.mem_singleton.mp here]
    exact words r inside

theorem argToks_good {args : List (List Char × List (Kind × List Char))}
    (words : ∀ w ∈ args.map (·.1), Word w)
    (files : ∀ r ∈ args.flatMap (·.2), Word r.2) : ∀ tok ∈ argToks args, tok.Good := by
  intro tok member
  obtain ⟨a, inside, here⟩ := List.mem_flatMap.mp member
  rcases List.mem_cons.mp here with rfl | here
  · exact words a.1 (List.mem_map_of_mem inside)
  · exact redirToks_good (fun r file => files r (List.mem_flatMap.mpr ⟨a, inside, file⟩)) tok here

theorem Prints.good {level : Level} {cmd : Cmd (List Char)} {toks : List Tok}
    (printed : Prints level cmd toks)
    (ok : cmd.Ok) : ∀ tok ∈ toks, tok.Good := by
  induction printed with
  | exec lead args =>
    obtain ⟨⟨-, words⟩, files⟩ := Cmd.ok_wraps.mp ok
    rw [List.forall_mem_append] at files ⊢
    exact ⟨redirToks_good files.1, argToks_good words files.2⟩
  | block redirs inner ih =>
    obtain ⟨good, files⟩ := Cmd.ok_wraps.mp ok
    rw [List.forall_mem_cons, List.forall_mem_append, List.forall_mem_cons]
    exact ⟨trivial, ih good, trivial, redirToks_good files⟩
  | last inner ih => exact ih ok
  | pipe first second ih ih' =>
    rw [List.forall_mem_append, List.forall_mem_cons]
    exact ⟨ih ok.1, trivial, ih' ok.2⟩
  | line backs inner ih =>
    rw [List.forall_mem_append]
    refine ⟨ih ((Cmd.ok_backs backs).mp ok), fun tok member => ?_⟩
    rw [List.eq_of_mem_replicate member]
    trivial
  | list backs first second ih ih' =>
    rw [List.forall_mem_append, List.forall_mem_append, List.forall_mem_cons]
    refine ⟨ih ((Cmd.ok_backs backs).mp ok.1), fun tok member => ?_, trivial, ih' ok.2⟩
    rw [List.eq_of_mem_replicate member]
    trivial

theorem Spaced.loosen {toks : List Tok} {text : List Char} {after : Bool} (spaced : Spaced after toks text) :
    Spaced false toks text := by
  cases spaced with
  | done blank => exact .done blank
  | next blank apart others => exact .next blank (fun wrong => (by cases wrong)) others

theorem Tok.Good.proper {tok : Tok} (good : tok.Good) : '\x00' ∉ tok.text := by
  cases tok with
  | word w => exact Word.proper good
  | redir kind => cases kind <;> decide
  | _ => decide

/-- A line that is written has no NUL in it. -/
theorem Spaced.proper {toks : List Tok} {text : List Char} {after : Bool} (spaced : Spaced after toks text)
    (good : ∀ tok ∈ toks, tok.Good) : '\x00' ∉ text := by
  have absent : '\x00' ∉ whitespace := by decide
  induction spaced with
  | done blank => exact fun member => absent (blank _ member)
  | next blank apart others ih =>
    rw [List.forall_mem_cons] at good
    rw [List.mem_append, List.mem_append]
    rintro (gap | tok | text)
    · exact absent (blank _ gap)
    · exact good.1.proper tok
    · exact ih good.2 text

end Xv6.Shell
