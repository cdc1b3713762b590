import Mathlib.Data.List.Basic

/-! The parser of user/sh.c. -/

namespace Xv6.Shell

def MAXARGS : Nat := 10

/-- The modes of kernel/fcntl.h. -/
def O_RDONLY : Nat := 0x000
def O_WRONLY : Nat := 0x001
def O_CREATE : Nat := 0x200
def O_TRUNC : Nat := 0x400

/-- `struct cmd` in its five forms. In the parser a word is the pair of pointers to its first character and to
the one after its last, as places in the line. -/
inductive Cmd (W : Type)
  | exec (argv : List W)
  | redir (cmd : Cmd W) (file : W) (mode fd : Nat)
  | pipe (left right : Cmd W)
  | list (left right : Cmd W)
  | back (cmd : Cmd W)

/-- `panic`, or more rounds than were given to a loop. -/
inductive Failure
  | panic (message : String)
  | running

abbrev Parse := Except Failure

def whitespace : List Char := [' ', '\t', '\r', '\n', '\x0b']

def symbols : List Char := ['<', '|', '>', '&', ';', '(', ')']

/-- `*s`, where the line is followed by a NUL. -/
def charAt (line : List Char) (s : Nat) : Char := line.getD s '\x00'

/-- `while(s < es && strchr(whitespace, *s)) s++` -/
def skip (line : List Char) (s : Nat) : Nat := s + ((line.drop s).takeWhile (· ∈ whitespace)).length

def wordChar (c : Char) : Bool := c ∉ whitespace ∧ c ∉ symbols

/-- `while(s < es && !strchr(whitespace, *s) && !strchr(symbols, *s)) s++` -/
def skipWord (line : List Char) (s : Nat) : Nat := s + ((line.drop s).takeWhile wordChar).length

/-- The switch in `gettoken`, with the end of the token. -/
def token (line : List Char) (s : Nat) : Char × Nat :=
  match charAt line s with
  | '\x00' => ('\x00', s)
  | '|' => ('|', s + 1)
  | '(' => ('(', s + 1)
  | ')' => (')', s + 1)
  | ';' => (';', s + 1)
  | '&' => ('&', s + 1)
  | '<' => ('<', s + 1)
  | '>' => if charAt line (s + 1) = '>' then ('+', s + 2) else ('>', s + 1)
  | _ => ('a', skipWord line s)

/-- The kind of the token, where it starts and ends, and where the next one starts. -/
def gettoken (line : List Char) (s : Nat) : Char × Nat × Nat × Nat :=
  let q := skip line s
  let (ret, eq) := token line q
  (ret, q, eq, skip line eq)

def peek (line : List Char) (s : Nat) (toks : List Char) : Bool × Nat :=
  let s := skip line s
  (charAt line s ≠ '\x00' ∧ charAt line s ∈ toks, s)

/-- `redircmd`, as `parseredirs` calls it for a token. -/
def redircmd {W : Type} (tok : Char) (cmd : Cmd W) (file : W) : Cmd W :=
  match tok with
  | '<' => .redir cmd file O_RDONLY 0
  | '>' => .redir cmd file (O_WRONLY ||| O_CREATE ||| O_TRUNC) 1
  | '+' => .redir cmd file (O_WRONLY ||| O_CREATE) 1
  | _ => cmd

def parseredirs (line : List Char) : Nat → Cmd (Nat × Nat) → Nat → Parse (Cmd (Nat × Nat) × Nat)
  | 0, _, _ => .error .running
  | fuel + 1, cmd, s =>
    let (found, s) := peek line s ['<', '>']
    if found then
      let (tok, _, _, s) := gettoken line s
      let (word, q, eq, s) := gettoken line s
      if word ≠ 'a' then .error (.panic "missing file for redirection")
      else parseredirs line fuel (redircmd tok cmd (q, eq)) s
    else .ok (cmd, s)

/-- `cmd->argv[argc] = q; cmd->eargv[argc] = eq`, where `cmd` is inside the redirections. -/
def Cmd.addArg {W : Type} : Cmd W → W → Cmd W
  | .exec argv, w => .exec (argv ++ [w])
  | .redir cmd file mode fd, w => .redir (cmd.addArg w) file mode fd
  | cmd, _ => cmd

/-- The loop of `parseexec`. -/
def parseargs (line : List Char) : Nat → Nat → Cmd (Nat × Nat) → Nat → Parse (Cmd (Nat × Nat) × Nat)
  | 0, _, _, _ => .error .running
  | fuel + 1, argc, ret, s =>
    let (found, s) := peek line s ['|', ')', '&', ';']
    if found then .ok (ret, s)
    else
      let (tok, q, eq, s) := gettoken line s
      if tok = '\x00' then .ok (ret, s)
      else if tok ≠ 'a' then .error (.panic "syntax")
      else if MAXARGS ≤ argc + 1 then .error (.panic "too many args")
      else do
        let (ret, s) ← parseredirs line (line.length + 1) (ret.addArg (q, eq)) s
        parseargs line fuel (argc + 1) ret s

/-- The loop of `parseline`. -/
def parsebacks (line : List Char) : Nat → Cmd (Nat × Nat) → Nat → Parse (Cmd (Nat × Nat) × Nat)
  | 0, _, _ => .error .running
  | fuel + 1, cmd, s =>
    let (found, s) := peek line s ['&']
    if found then
      let (_, _, _, s) := gettoken line s
      parsebacks line fuel (.back cmd) s
    else .ok (cmd, s)

mutual

def parseline (line : List Char) : Nat → Nat → Parse (Cmd (Nat × Nat) × Nat)
  | 0, _ => .error .running
  | fuel + 1, s => do
    let (cmd, s) ← parsepipe line fuel s
    let (cmd, s) ← parsebacks line (line.length + 1) cmd s
    let (found, s) := peek line s [';']
    if found then
      let (_, _, _, s) := gettoken line s
      let (right, s) ← parseline line fuel s
      return (.list cmd right, s)
    else return (cmd, s)

def parsepipe (line : List Char) : Nat → Nat → Parse (Cmd (Nat × Nat) × Nat)
  | 0, _ => .error .running
  | fuel + 1, s => do
    let (cmd, s) ← parseexec line fuel s
    let (found, s) := peek line s ['|']
    if found then
      let (_, _, _, s) := gettoken line s
      let (right, s) ← parsepipe line fuel s
      return (.pipe cmd right, s)
    else return (cmd, s)

def parseexec (line : List Char) : Nat → Nat → Parse (Cmd (Nat × Nat) × Nat)
  | 0, _ => .error .running
  | fuel + 1, s =>
    let (found, s) := peek line s ['(']
    if found then parseblock line fuel s
    else do
      let (ret, s) ← parseredirs line (line.length + 1) (.exec []) s
      parseargs line (line.length + 1) 0 ret s

def parseblock (line : List Char) : Nat → Nat → Parse (Cmd (Nat × Nat) × Nat)
  | 0, _ => .error .running
  | fuel + 1, s => do
    let (found, s) := peek line s ['(']
    if !found then .error (.panic "parseblock")
    else
      let (_, _, _, s) := gettoken line s
      let (cmd, s) ← parseline line fuel s
      let (found, s) := peek line s [')']
      if !found then .error (.panic "syntax - missing )")
      else
        let (_, _, _, s) := gettoken line s
        parseredirs line (line.length + 1) cmd s

end

/-- The line with NULs after the words of the command. -/
def nulterminate : Cmd (Nat × Nat) → List Char → List Char
  | .exec argv, line => argv.foldl (fun line w => line.set w.2 '\x00') line
  | .redir cmd file _ _, line => (nulterminate cmd line).set file.2 '\x00'
  | .pipe left right, line => nulterminate right (nulterminate left line)
  | .list left right, line => nulterminate right (nulterminate left line)
  | .back cmd, line => nulterminate cmd line

/-- The command, and the line as it is then. More calls than four for each character are not made inside each
other. -/
def parsecmd (line : List Char) : Parse (Cmd (Nat × Nat) × List Char) := do
  let (cmd, s) ← parseline line (4 * line.length + 4) 0
  let (_, s) := peek line s []
  -- after a message with what is left over
  if s ≠ line.length then .error (.panic "syntax")
  else return (cmd, nulterminate cmd line)

end Xv6.Shell
