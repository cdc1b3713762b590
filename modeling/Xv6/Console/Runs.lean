import Mathlib.Tactic.SplitIfs
import Xv6.Console.Machine

namespace Xv6.Console
open Threads Function

/-- Why a read ends: at its count, after a newline, or before a control-D. -/
def Ended (p : ProcId) (earlier : List Event) : Prop :=
  ((got p earlier).length : Int) = max (count p earlier) 0 ∨ (got p earlier).getLast? = some newline ∨
    got p earlier ≠ [] ∧ (editor ignored earlier).next = some (ctrl 'D')

/-- An event fits what happened before: a byte goes to a read that wants one, is the next one and no
control-D; a read returns the number of its bytes, and has ended for one of the reasons, or takes out a
control-D and returns no bytes. -/
def Fits : Event → List Event → Prop
  | .typed _, _ => True
  | .began .., _ => True
  | .killed _, _ => True
  | .byte p c, earlier => (editor ignored earlier).next = some c ∧ c ≠ ctrl 'D' ∧
      ((got p earlier).length : Int) < count p earlier ∧ newline ∉ got p earlier
  | .returned p r false, earlier => r = (got p earlier).length ∧ Ended p earlier
  | .returned p r true, earlier =>
      r = 0 ∧ got p earlier = [] ∧ (editor ignored earlier).next = some (ctrl 'D')

/-- Every event fits the ones before it. -/
def Fitting : List Event → Prop
  | [] => True
  | e :: earlier => Fits e earlier ∧ Fitting earlier

variable {e : Event} {log earlier later : List Event} {p q : ProcId} {c : UInt8}

theorem Fitting.fits (fitting : Fitting (later ++ e :: earlier)) : Fits e earlier := by
  induction later with
  | nil => exact fitting.1
  | cons first later ih => exact ih fitting.2

theorem Editor.key_taken (ed : Editor) (c : UInt8) : (ed.key ignored c).taken = ed.taken := by
  unfold Editor.key
  dsimp only
  split_ifs <;> rfl

/-- What is committed stays. -/
theorem Editor.key_committed (ed : Editor) (c : UInt8) : ed.committed <+: (ed.key ignored c).committed := by
  unfold Editor.key
  dsimp only
  split_ifs
  all_goals first | exact List.prefix_refl _ | exact List.prefix_append ..

/-- The bytes of a list are those that an editor has given out. -/
structure Editor.Gave (ed : Editor) (bytes : List UInt8) : Prop where
  taken : ed.taken ≤ ed.committed.length
  bytes : bytes = ed.committed.take ed.taken

theorem Editor.Gave.take {ed : Editor} {bytes : List UInt8} (gave : ed.Gave bytes) (next : ed.next = some c) :
    ed.take.Gave (bytes ++ [c]) := by
  have here : ed.committed[ed.taken]? = some c := by rw [← List.head?_drop]; exact next
  refine ⟨?_, ?_⟩
  · by_contra beyond
    have none := List.getElem?_eq_none
      (show ed.committed.length ≤ ed.taken from Nat.le_of_lt_succ (Nat.lt_of_not_le beyond))
    rw [here] at none
    cases none
  · show _ = ed.committed.take (ed.taken + 1)
    rw [List.take_add_one, here, Option.toList_some, gave.bytes]

theorem Editor.Gave.key {ed : Editor} {bytes : List UInt8} (gave : ed.Gave bytes) (c : UInt8) :
    (ed.key ignored c).Gave bytes := by
  obtain ⟨more, same⟩ := ed.key_committed c
  have taken := gave.taken
  refine ⟨?_, ?_⟩
  · rw [Editor.key_taken, ← same, List.length_append]
    omega
  · rw [Editor.key_taken, ← same, List.take_append_of_le_length taken, gave.bytes]

/-- The reads have taken out the committed bytes in order. -/
theorem Fitting.gave (fitting : Fitting log) : (editor ignored log).Gave (delivered log) := by
  induction log with
  | nil => exact ⟨Nat.le_refl _, rfl⟩
  | cons e earlier ih =>
    obtain ⟨fits, fitting⟩ := fitting
    have gave := ih fitting
    cases e with
    | typed c => exact gave.key c
    | began => exact gave
    | killed => exact gave
    | byte p c => exact gave.take fits.1
    | returned p r eof =>
      cases eof with
      | false => exact gave
      | true => exact gave.take fits.2.2

/-! ## The outline -/

/-- What holds whenever `cons.lock` is free. -/
structure Good (cons : Cons) (log : List Event) : Prop where
  shows : cons.Shows (editor ignored log)
  fitting : Fitting log

/-- The indices are in order. -/
def Ordered (cons : Cons) : Prop :=
  (cons.w - cons.r).toNat ≤ (cons.e - cons.r).toNat ∧ (cons.e - cons.r).toNat ≤ INPUT_BUF_SIZE

/-- The holder of `cons.lock` knows the console and its history; a process knows of its read what it asked for
and what it has been given. -/
@[ext] structure ConView where
  held : Option (Cons × List Event)
  asked : Int
  given : List UInt8

def ConState.view (t : Tid) (s : ConState) : ConView where
  held := if s.holder = some t then some (s.cons, s.log) else none
  asked := match t with
    | .proc p => count p s.log
    | .cpu _ => 0
  given := match t with
    | .proc p => got p s.log
    | .cpu _ => []

/-- The process that an event is about. -/
def Event.of : Event → Option Tid
  | .typed _ => none
  | .began p _ => some (.proc p)
  | .byte p _ => some (.proc p)
  | .returned p _ _ => some (.proc p)
  | .killed p => some (.proc p)

theorem count_other (other : e.of ≠ some (.proc p)) : count p (e :: log) = count p log := by
  cases e with
  | began q n => exact if_neg fun same => other (by rw [same]; rfl)
  | _ => rfl

theorem got_other (other : e.of ≠ some (.proc p)) : got p (e :: log) = got p log := by
  cases e with
  | began q n => exact if_neg fun same => other (by rw [same]; rfl)
  | byte q c => exact if_neg fun same => other (by rw [same]; rfl)
  | _ => rfl

def conOutline : Outline Tid ConState ConView ConAct where
  inv s := Ordered s.cons ∧ (s.holder = none → Good s.cons s.log)
  view := ConState.view
  guar t before after := ∀ other, other ≠ t → after.view other = before.view other
  allowed _ _ _ := True
  owes _ _ _ := True
  mayPanic _ _ _ _ := False

variable {s s' : ConState} {t : Tid} {cons : Cons} {asked : Int} {given : List UInt8} {v : ConView}

/-- What another flow of control relies on. -/
theorem ConState.view_congr {q : Tid} (other : s.holder ≠ some q) (other' : s'.holder ≠ some q)
    (log : s'.log = s.log ∨ ∃ e, s'.log = e :: s.log ∧ e.of ≠ some q) : s'.view q = s.view q := by
  refine ConView.ext ((if_neg other').trans (if_neg other).symm) ?_ ?_
  · cases q with
    | cpu => rfl
    | proc p => rcases log with same | ⟨e, same, apart⟩
                · exact congrArg (count p) same
                · exact (congrArg (count p) same).trans (count_other apart)
  · cases q with
    | cpu => rfl
    | proc p => rcases log with same | ⟨e, same, apart⟩
                · exact congrArg (got p) same
                · exact (congrArg (got p) same).trans (got_other apart)

/-- What the holder of `cons.lock` knows. -/
def under (t : Tid) (cons : Cons) (log : List Event) : ConView := ConState.view t ⟨cons, some t, log⟩

theorem ConState.view_under (view : s.view t = under t cons log) : s = ⟨cons, some t, log⟩ := by
  have held : (if s.holder = some t then some (s.cons, s.log) else none) = some (cons, log) :=
    (congrArg ConView.held view).trans (if_pos rfl)
  split at held
  next mine =>
    cases s
    cases held
    exact congrArg (ConState.mk _ · _) mine
  next => cases held

section Rules

variable {cons' : Cons}

/-- The rule for one step under `cons.lock`. -/
theorem conStep_wp {a : ConAct} {Q : a.Resp → ConView → Prop}
    (h : ∀ c, Ordered cons → conOutline.After t a ⟨cons, some t, log⟩ Q
      (conMachine t c a ⟨cons, some t, log⟩)) :
    wp conMachine conOutline t a.run Q (under t cons log) := by
  refine wp_step fun s c inv view => ⟨trivial, fun _ => ?_⟩
  obtain rfl := ConState.view_under view
  exact h c inv.1

/-- A step that changes nothing. -/
theorem still_wp {a : ConAct} {Q : a.Resp → ConView → Prop}
    (step : ∀ c, ∃ answer, conMachine t c a ⟨cons, some t, log⟩ = .ok answer ⟨cons, some t, log⟩ ∧
      Q answer (under t cons log)) : wp conMachine conOutline t a.run Q (under t cons log) := by
  refine conStep_wp fun c ordered => ?_
  obtain ⟨answer, same, post⟩ := step c
  rw [same]
  exact ⟨⟨ordered, fun free => by cases free⟩, fun _ _ => rfl, post⟩

theorem read_wp : wp conMachine conOutline t ConAct.read.run (fun answer v => answer = cons ∧
      v = under t cons log)
    (under t cons log) := still_wp fun _ => ⟨cons, rfl, rfl, rfl⟩

theorem killed_wp : wp conMachine conOutline t ConAct.killed.run (fun _ v => v = under t cons log)
    (under t cons log) := still_wp fun _ => ⟨_, rfl, rfl⟩

theorem wakeup_wp : wp conMachine conOutline t ConAct.wakeup.run (fun _ v => v = under t cons log)
    (under t cons log) := still_wp fun _ => ⟨_, rfl, rfl⟩

theorem choose_wp : wp conMachine conOutline t ConAct.choose.run (fun _ v => v = under t cons log)
    (under t cons log) := still_wp fun _ => ⟨_, rfl, rfl⟩

theorem write_wp (ordered : Ordered cons') :
    wp conMachine conOutline t (ConAct.write cons').run (fun _ v => v = under t cons' log)
    (under t cons log) := by
  refine conStep_wp fun c _ => ⟨⟨ordered, fun free => by cases free⟩, fun q other => ?_, rfl⟩
  have apart : some t ≠ some q := fun same => other (Option.some.inj same).symm
  exact ConState.view_congr apart apart (.inl rfl)

theorem note_wp (mine : e.of = none ∨ e.of = some t) :
    wp conMachine conOutline t (ConAct.note e).run (fun _ v => v = under t cons (e :: log))
    (under t cons log) := by
  refine conStep_wp fun c ordered => ⟨⟨ordered, fun free => by cases free⟩, fun q other => ?_, rfl⟩
  have apart : some t ≠ some q := fun same => other (Option.some.inj same).symm
  refine ConState.view_congr apart apart (.inr ⟨e, rfl, ?_⟩)
  rcases mine with none | self
  · rw [none]
    exact (Option.some_ne_none q).symm
  · rwa [self]

/-- The console is good when it is left. -/
theorem release_wp (good : Good cons log) :
    wp conMachine conOutline t ConAct.release.run (fun _ v => v = { under t cons log with held := none })
      (under t cons log) := by
  refine conStep_wp fun c ordered => ⟨⟨ordered, fun _ => good⟩, fun q other => ?_, ?_⟩
  · exact ConState.view_congr (fun same => other (Option.some.inj same).symm)
      (Option.some_ne_none q).symm (.inl rfl)
  · have away : (none : Option Tid) ≠ some t := (Option.some_ne_none t).symm
    have free : (if (none : Option Tid) = some t then some (cons, log) else none) = none := if_neg away
    exact ConView.ext free rfl rfl

/-- The console is good when it is entered, and nothing has happened in the name of who enters it. -/
theorem acquire_wp : wp conMachine conOutline t ConAct.acquire.run
    (fun _ v' => ∃ cons log, Good cons log ∧ v' = under t cons log ∧ v'.asked = v.asked ∧
      v'.given = v.given) v := by
  refine wp_step fun s c inv view => ⟨trivial, fun _ => ?_⟩
  obtain ⟨cons, holder, log⟩ := s
  obtain ⟨ordered, good⟩ := inv
  have view : ConState.view t ⟨cons, holder, log⟩ = v := view
  cases holder with
  | none =>
    refine ⟨⟨ordered, fun free => by cases free⟩, fun q other => ?_, cons, log, good rfl, rfl, ?_, ?_⟩
    · exact ConState.view_congr (Option.some_ne_none q).symm
        (fun same => other (Option.some.inj same).symm) (.inl rfl)
    · have asked := congrArg ConView.asked view
      exact asked
    · have given := congrArg ConView.given view
      exact given
  | some => trivial

end Rules

section Calls

variable {target n : Nat} {r : Int} {eof : Bool}

/-- A read that has not ended: what it asked for, what it has been given, and how much is left. -/
structure Going (p : ProcId) (target n : Nat) (cons : Cons) (log : List Event) :
    Prop extends Good cons log where
  asked : target = (count p log).toNat
  given : (got p log).length + n = target
  plain : newline ∉ got p log

theorem finish_wp (good : Good cons (.returned p r eof :: log)) :
    wp conMachine conOutline (.proc p) (finish p r eof) (fun _ v => v.held = none)
    (under (.proc p) cons log) := by
  refine wp_seq (note_wp (.inr rfl)) fun _ v noted => ?_
  subst noted
  refine wp_seq (release_wp good) fun _ v released => ?_
  subst released
  rfl

/-- Waiting for input, a read gets nothing, whatever others get. -/
theorem waitInput_wp (going : Going p target n cons log) :
    wp conMachine conOutline (.proc p) waitInput (fun some v => ∃ cons log, v = under (.proc p) cons log ∧
      Going p target n cons log ∧ (some = true → cons.r ≠ cons.w)) (under (.proc p) cons log) := by
  refine wp_seq choose_wp fun rounds v same => ?_
  subst same
  refine wp_retry (J := fun v => ∃ cons log, v = under (.proc p) cons log ∧
    Going p target n cons log) ?_ ?_ rounds
    ⟨cons, log, rfl, going⟩
  · rintro _ ⟨cons, log, rfl, going⟩
    refine wp_seq read_wp ?_
    rintro now _ ⟨rfl, rfl⟩
    by_cases empty : now.r = now.w
    · rw [if_pos empty]
      refine wp_seq killed_wp fun dies v same => ?_
      subst same
      cases dies with
      | true => exact ⟨now, log, rfl, going, fun no => by cases no⟩
      | false =>
        refine wp_seq (wp_seq (release_wp going.toGood) fun _ v released => ?_) fun _ v entered => entered
        subst released
        refine wp_mono (fun _ v entered => ?_) acquire_wp
        obtain ⟨cons', log', good, rfl, asked, given⟩ := entered
        have asked : count p log' = count p log := asked
        have given : got p log' = got p log := given
        exact ⟨cons', log', rfl, good, asked ▸ going.asked, given ▸ going.given, given ▸ going.plain⟩
    · rw [if_neg empty]
      exact ⟨now, log, rfl, going, fun _ => empty⟩
  · rintro _ ⟨cons, log, rfl, going⟩
    exact wp_bind (conStep_wp fun _ _ => trivial)

theorem consolereadFrom_wp (going : Going p target n cons log) :
    wp conMachine conOutline (.proc p) (consolereadFrom p target n) (fun _ v => v.held = none)
      (under (.proc p) cons log) := by
  induction n generalizing cons log with
  | zero =>
    have asked := going.asked
    have given := going.given
    refine finish_wp ⟨going.shows, ⟨?_, .inl ?_⟩, going.fitting⟩
    · omega
    · omega
  | succ n ih =>
    refine wp_seq (waitInput_wp going) ?_
    rintro ready _ ⟨cons, log, rfl, going, some⟩
    have asked := going.asked
    have given := going.given
    cases ready with
    | false =>
      refine wp_seq (note_wp (.inr rfl)) fun _ v noted => ?_
      subst noted
      refine wp_seq (release_wp ⟨going.shows, trivial, going.fitting⟩) fun _ v released => ?_
      subst released
      rfl
    | true =>
      have some := some rfl
      have next := going.shows.next some
      have taken := going.shows.take some
      refine wp_seq read_wp ?_
      rintro now _ ⟨rfl, rfl⟩
      refine wp_seq (write_wp ⟨taken.order, taken.room⟩) fun _ v written => ?_
      subst written
      by_cases eof : now.buf (Cons.index now.r) = ctrl 'D'
      · rw [if_pos eof]
        rw [eof] at next
        by_cases given' : n + 1 < target
        · -- The control-D goes back.
          rw [if_pos given']
          refine wp_seq (write_wp ⟨going.shows.order, going.shows.room⟩) fun _ v written => ?_
          subst written
          refine finish_wp ⟨going.shows, ⟨by omega, .inr (.inr ⟨fun none => ?_, next⟩)⟩, going.fitting⟩
          rw [none, List.length_nil] at given
          omega
        · rw [if_neg given']
          refine finish_wp ⟨taken, ⟨by omega, List.eq_nil_of_length_eq_zero (by omega), next⟩, going.fitting⟩
      · rw [if_neg eof]
        refine wp_seq (note_wp (.inr rfl)) fun _ v noted => ?_
        subst noted
        have all : got p (.byte p (now.buf (Cons.index now.r)) :: log) = got p log ++
          [now.buf (Cons.index now.r)] :=
          if_pos rfl
        have size := congrArg List.length all
        rw [List.length_append, List.length_singleton] at size
        have fits : Fits (.byte p (now.buf (Cons.index now.r))) log := ⟨next, eof, by omega, going.plain⟩
        by_cases ends : now.buf (Cons.index now.r) = newline
        · rw [if_pos ends]
          refine finish_wp ⟨taken, ⟨by omega, .inr (.inl ?_)⟩, fits, going.fitting⟩
          rw [all, List.getLast?_concat, ends]
        · rw [if_neg ends]
          refine ih ⟨⟨taken, fits, going.fitting⟩, asked, by omega, fun member => ?_⟩
          rw [all] at member
          rcases List.mem_append.mp member with old | last
          · exact going.plain old
          · exact ends (List.mem_singleton.mp last).symm

theorem consoleread_wp {n : Int} :
    wp conMachine conOutline (.proc p) (consoleread p n) (fun _ v => v.held = none) v := by
  refine wp_seq acquire_wp ?_
  rintro _ _ ⟨cons, log, good, rfl, -, -⟩
  refine wp_seq (note_wp (.inr rfl)) fun _ v noted => ?_
  subst noted
  have asked : count p (.began p n :: log) = n := if_pos rfl
  have given : got p (.began p n :: log) = [] := if_pos rfl
  refine consolereadFrom_wp ⟨⟨good.shows, trivial, good.fitting⟩,
    by rw [asked], by rw [given]; exact Nat.zero_add _, ?_⟩
  rw [given]
  exact List.not_mem_nil

theorem consoleintr_wp (c : UInt8) :
    wp conMachine conOutline t (consoleintr c) (fun _ v => v.held = none) v := by
  refine wp_seq acquire_wp ?_
  rintro _ _ ⟨cons, log, good, rfl, -, -⟩
  have typed := good.shows.input c
  refine wp_seq read_wp ?_
  rintro now _ ⟨rfl, rfl⟩
  refine wp_seq (write_wp ⟨typed.order, typed.room⟩) fun _ v written => ?_
  subst written
  refine wp_seq (note_wp (.inl rfl)) fun _ v noted => ?_
  subst noted
  have leave : wp conMachine conOutline t ConAct.release.run (fun _ v => v.held = none)
      (under t (now.input c).1 (.typed c :: log)) := by
    refine wp_mono (fun _ v released => ?_) (release_wp ⟨typed, trivial, good.fitting⟩)
    subst released
    rfl
  split
  next =>
    refine wp_seq wakeup_wp fun _ v same => ?_
    subst same
    exact leave
  next => exact leave

theorem ConCall.code_wp {call : ConCall} (legal : conCalls.legal t s call) :
    wp conMachine conOutline t (conCalls.code call) (fun _ v => v.held = none) v := by
  cases call with
  | read p n =>
    obtain rfl : t = .proc p := legal
    exact wp_seq consoleread_wp fun _ _ free => free
  | input c => exact consoleintr_wp c

end Calls

variable {x : ConConfig}

/-- Somebody takes so many steps, with these answers for the last of them. -/
def steps (t : Tid) (n : Nat) (last : List Nat) : List (Move Tid Nat ConCall) :=
  List.replicate n (.act t 0) ++ last.map (.act t)

/-- A key that is stored, and one that commits the line. -/
def keys (c d : UInt8) : List (Move Tid Nat ConCall) :=
  .call (.cpu 0) (.input c) :: steps (.cpu 0) 5 [] ++ .call (.cpu 0) (.input d) :: steps (.cpu 0) 6 []

end Xv6.Console
