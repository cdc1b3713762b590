import Xv6.Shell.Words
import Xv6.Params
import Mathlib.Data.List.Induction
import Mathlib.Logic.Function.Basic

/-! `runcmd` of user/sh.c, over the descriptors of the process. -/

namespace Xv6.Shell
open Function

/-- What a descriptor is open on: what was there before, a file that the command names and the mode it was
opened in, or an end of a pipe, which is known by the command to its right. -/
inductive Opened (W : Type)
  | before (fd : Nat)
  | file (name : W) (mode : Nat)
  | readEnd (right : Cmd W)
  | writeEnd (right : Cmd W)

abbrev Files (W : Type) := Nat → Option (Opened W)

/-- How a process ends in `runcmd`, if `exec` does not fail. -/
inductive Ending (W : Type)
  | exit (status : Nat)
  | exec (argv : List W) (ofile : Files W)

section Descriptors

variable {W : Type}

/-- The lowest free descriptor for an open file. -/
def fdalloc (ofile : Files W) (f : Opened W) : Option (Nat × Files W) :=
  ((List.range NOFILE).find? fun fd => (ofile fd).isNone).map fun fd => (fd, update ofile fd (some f))

def close (ofile : Files W) (fd : Nat) : Files W := update ofile fd none

/-- `open`, where the file system may refuse. -/
def openFile (opens : W → Nat → Bool) (ofile : Files W) (file : W) (mode : Nat) : Option (Files W) :=
  if opens file mode then (fdalloc ofile (.file file mode)).map (·.2) else none

/-- `dup`, whose answer `runcmd` does not look at. -/
def dup (ofile : Files W) (fd : Nat) : Files W :=
  match ofile fd with
  | none => ofile
  | some f => ((fdalloc ofile f).map (·.2)).getD ofile

/-- `pipe`, with the two descriptors. -/
def pipe (ofile : Files W) (right : Cmd W) : Option (Nat × Nat × Files W) := do
  let (p0, ofile) ← fdalloc ofile (.readEnd right)
  let (p1, ofile) ← fdalloc ofile (.writeEnd right)
  return (p0, p1, ofile)

/-- How the processes end that a call of `runcmd` forks, and last the one that makes the call. A `panic` exits
with 1. -/
def runcmd (opens : W → Nat → Bool) : Cmd W → Files W → List (Ending W)
  | .exec [], _ => [.exit 1]
  | .exec argv, ofile => [.exec argv ofile]
  | .redir cmd file mode fd, ofile =>
    match openFile opens (close ofile fd) file mode with
    | none => [.exit 1]
    | some ofile => runcmd opens cmd ofile
  | .list left right, ofile => runcmd opens left ofile ++ runcmd opens right ofile
  | .pipe left right, ofile =>
    match pipe ofile right with
    | none => [.exit 1]
    | some (p0, p1, ofile) =>
      runcmd opens left (close (close (dup (close ofile 1) p1) p0) p1) ++
        runcmd opens right (close (close (dup (close ofile 0) p0) p0) p1) ++ [.exit 0]
  | .back cmd, ofile => runcmd opens cmd ofile ++ [.exit 0]

end Descriptors

section Redirections

variable {W : Type} {opens : W → Nat → Bool} {ofile : Files W} {cmd : Cmd W}

/-- A redirection takes the place of its descriptor. -/
theorem openFile_close (input : ofile 0 ≠ none) (kind : Kind) {file : W}
    (succeeds : opens file kind.mode = true) :
    openFile opens (close ofile kind.fd) file kind.mode =
    some (update ofile kind.fd (some (.file file kind.mode))) := by
  have range : List.range NOFILE = 0 :: 1 :: List.range' 2 14 := rfl
  obtain ⟨f, atInput⟩ := Option.ne_none_iff_exists'.mp input
  have lowest : (List.range NOFILE).find? (fun fd => (close ofile kind.fd fd).isNone) = some kind.fd := by
    rw [range]
    cases kind <;> simp [close, Kind.fd, atInput]
  rw [openFile, if_pos succeeds, fdalloc, lowest, close]
  simp only [Option.map_some, update_idem]

/-- What the redirections leave, the first one for each descriptor. -/
def redirected (redirs : List (Kind × W)) (ofile : Files W) : Files W := fun fd =>
  match redirs.find? fun r => r.1.fd = fd with
  | some r => some (.file r.2 r.1.mode)
  | none => ofile fd

theorem runcmd_wraps (redirs : List (Kind × W)) (input : ofile 0 ≠ none)
    (succeed : ∀ r ∈ redirs, opens r.2 r.1.mode = true) :
    runcmd opens (cmd.wraps redirs) ofile = runcmd opens cmd (redirected redirs ofile) := by
  induction redirs using List.reverseRecOn generalizing ofile with
  | nil => rfl
  | append_singleton redirs r ih =>
    obtain ⟨kind, file⟩ := r
    have outer : cmd.wraps (redirs ++ [(kind, file)]) = .redir (cmd.wraps redirs) file kind.mode kind.fd :=
      Cmd.wraps_append ..
    have kept : update ofile kind.fd (some (.file file kind.mode)) 0 ≠ none := by
      by_cases same : 0 = kind.fd
      · rw [← same, update_self]
        exact Option.some_ne_none _
      · rwa [update_of_ne same]
    have opened := openFile_close input kind (succeed _ (List.mem_append_right _ (List.mem_singleton_self _)))
    rw [outer, runcmd, opened]
    dsimp only
    rw [ih kept fun r member => succeed r (List.mem_append_left _ member)]
    congr 1
    funext fd
    unfold redirected
    rw [List.find?_append]
    cases redirs.find? fun r => r.1.fd = fd with
    | some r => rfl
    | none =>
      by_cases same : kind.fd = fd
      · subst same
        simp
      · simp [same, Ne.symm same]

theorem redirected_first {before after : List (Kind × W)} {r : Kind × W}
    (first : ∀ r' ∈ before, r'.1.fd ≠ r.1.fd) :
    redirected (before ++ r :: after) ofile r.1.fd = some (.file r.2 r.1.mode) := by
  have here : (before ++ r :: after).find? (fun r' => r'.1.fd = r.1.fd) = some r := by
    rw [List.find?_append, List.find?_eq_none.mpr fun r' member =>
      by simpa using first r' member, Option.none_or,
      List.find?_cons, decide_eq_true rfl]
  rw [redirected, here]

theorem redirected_other {redirs : List (Kind × W)} {fd : Nat} (other : ∀ r ∈ redirs, r.1.fd ≠ fd) :
    redirected redirs ofile fd = ofile fd := by
  rw [redirected, List.find?_eq_none.mpr fun r member => by simpa using other r member]

/-- A simple command is read and run. -/
theorem runcmd_simple {lead : List (Kind × List Char)} {args : List (List Char × List (Kind × List Char))}
    {text : List Char} (program : args ≠ []) (few : args.length + 1 ≤ MAXARGS)
    (words : ∀ w ∈ args.map (·.1), Word w)
    (files : ∀ r ∈ lead ++ args.flatMap (·.2), Word r.2)
    (spaced : Spaced false (redirToks lead ++ argToks args) text) :
    ∃ cmd mem, parsecmd text = .ok (cmd, mem) ∧ ∀ (opens : List Char → Nat → Bool)
      (ofile : Files (List Char)),
      ofile 0 ≠ none → (∀ r ∈ lead ++ args.flatMap (·.2), opens r.2 r.1.mode = true) →
      runcmd opens (cmd.map fun p => stringAt mem p.1) ofile =
        [.exec (args.map (·.1)) (redirected (lead ++ args.flatMap (·.2)) ofile)] := by
  have ok : ((Cmd.exec (args.map (·.1))).wraps (lead ++ args.flatMap (·.2))).Ok :=
    Cmd.ok_wraps.mpr ⟨⟨by rwa [List.length_map], words⟩, files⟩
  obtain ⟨cmd, mem, read, tree⟩ := parsecmd_prints ok (Prints.exec lead args).last.toLine spaced
  refine ⟨cmd, mem, read, fun opens ofile input succeed => ?_⟩
  rw [tree, runcmd_wraps _ input succeed]
  cases args with
  | nil => exact absurd rfl program
  | cons a args => rfl

/-- If every file is opened, the program of a simple command runs with each redirected descriptor open on the
file of the first of its redirections, in its mode, and the other descriptors as they were. -/
theorem leftmost_redirection {lead : List (Kind × List Char)}
    {args : List (List Char × List (Kind × List Char))}
    {text : List Char} (program : args ≠ []) (few : args.length + 1 ≤ MAXARGS)
    (words : ∀ w ∈ args.map (·.1), Word w)
    (files : ∀ r ∈ lead ++ args.flatMap (·.2), Word r.2)
    (spaced : Spaced false (redirToks lead ++ argToks args) text) :
    ∃ cmd mem, parsecmd text = .ok (cmd, mem) ∧ ∀ (opens : List Char → Nat → Bool)
      (ofile : Files (List Char)),
      ofile 0 ≠ none → (∀ r ∈ lead ++ args.flatMap (·.2), opens r.2 r.1.mode = true) →
      ∃ ofile', runcmd opens (cmd.map fun p => stringAt mem p.1) ofile = [.exec (args.map (·.1)) ofile'] ∧
        (∀ before r after, lead ++ args.flatMap (·.2) = before ++ r :: after →
          (∀ r' ∈ before, r'.1.fd ≠ r.1.fd) →
          ofile' r.1.fd = some (.file r.2 r.1.mode)) ∧
        ∀ fd, (∀ r ∈ lead ++ args.flatMap (·.2), r.1.fd ≠ fd) → ofile' fd = ofile fd := by
  obtain ⟨cmd, mem, read, run⟩ := runcmd_simple program few words files spaced
  refine ⟨cmd, mem, read, fun opens ofile input succeed => ⟨_, run opens ofile input succeed, ?_, ?_⟩⟩
  · rintro before r after split first
    rw [split]
    exact redirected_first first
  · exact fun fd other => redirected_other other

/-- The command `c > a > b`, and a line with it. -/
def twice : List (List Char × List (Kind × List Char)) := [(['c'], [(.output, ['a']), (.output, ['b'])])]

def twiceLine : List Char := [' ', 'c', ' ', '>', ' ', 'a', ' ', '>', ' ', 'b']

theorem twice_words : (∀ w ∈ twice.map (·.1), Word w) ∧ ∀ r ∈ [] ++ twice.flatMap (·.2), Word r.2 := by
  have single : ∀ c : Char, wordChar c = true → c ≠ '\x00' → Word [c] := fun c char nonzero =>
    ⟨List.cons_ne_nil c [], List.forall_mem_singleton.mpr char,
      fun nul => nonzero (List.mem_singleton.mp nul).symm⟩
  refine ⟨List.forall_mem_singleton.mpr (single 'c' (by decide) (by decide)),
    List.forall_mem_cons.mpr ⟨?_, ?_⟩⟩
  · exact single 'a' (by decide) (by decide)
  · exact List.forall_mem_singleton.mpr (single 'b' (by decide) (by decide))

theorem twice_spaced : Spaced false (redirToks [] ++ argToks twice) twiceLine := spaced_blanks false _

/-- The descriptors that `main` has opened. -/
def consoles : Files (List Char) := fun fd => if fd < 3 then some (.before fd) else none

theorem leftmost_redirection_twice : ∃ cmd mem, parsecmd twiceLine = .ok (cmd, mem) ∧
    ∃ ofile', runcmd (fun _ _ => true) (cmd.map fun p => stringAt mem p.1) consoles = [.exec [['c']] ofile'] ∧
      ofile' 1 = some (.file ['a'] Kind.output.mode) := by
  obtain ⟨cmd, mem, read, run⟩ :=
    leftmost_redirection (List.cons_ne_nil _ []) (by decide) twice_words.1 twice_words.2 twice_spaced
  obtain ⟨ofile', ends, first, -⟩ := run (fun _ _ => true) consoles (Option.some_ne_none _) fun _ _ => rfl
  exact ⟨cmd, mem, read, ofile', ends, first [] (.output, ['a']) [(.output, ['b'])] rfl nofun⟩

/-- Of two redirections of the output the first one counts, and not the second. -/
theorem rightmost_ignored : ∃ cmd mem, parsecmd twiceLine = .ok (cmd, mem) ∧
    ∃ ofile', runcmd (fun _ _ => true) (cmd.map fun p => stringAt mem p.1) consoles = [.exec [['c']] ofile'] ∧
      ofile' 1 = some (.file ['a'] Kind.output.mode) ∧ ofile' 1 ≠ some (.file ['b'] Kind.output.mode) := by
  obtain ⟨cmd, mem, read, run⟩ :=
    runcmd_simple (List.cons_ne_nil _ []) (by decide) twice_words.1 twice_words.2 twice_spaced
  refine ⟨cmd, mem, read, _, run (fun _ _ => true) consoles (Option.some_ne_none _) (fun _ _ => rfl),
    rfl, fun same => ?_⟩
  cases same

end Redirections

end Xv6.Shell
