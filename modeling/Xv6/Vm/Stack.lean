import Xv6.Vm.Load

/-! The arguments on the stack of a new program. -/

namespace Xv6.Vm
open Function

/-- `pushArgs` that stops with an error before it would take more from the stack pointer than it has, or store
past the end of `ustack`. -/
def pushArgsChecked (pt : Pagetable) (stackbase : Nat) : List (List UInt8) → Nat → List Nat → VmM (Option Nat)
  | [], sp, ustack =>
    if MAXARG ≤ ustack.length ∨ sp < (ustack.length +
      1) * 8 then throw "out of bounds" else pushArgs pt stackbase [] sp ustack
  | arg :: rest, sp, ustack =>
    if MAXARG ≤ ustack.length then pure none
    else if sp < arg.length + 1 then throw "out of bounds"
    else do
      let sp := sub64 sp (arg.length + 1) / 16 * 16
      if sp < stackbase then pure none
      else do
        let r ← copyout pt sp (stringBytes arg) (arg.length + 1)
        if r < 0 then pure none else pushArgsChecked pt stackbase rest sp (sp :: ustack)

/-- Strings and then their addresses are on a stack that reaches from `base` to `top`: the strings in
descending order, all apart, and below them the array, with 0 at its end, at `sp`. -/
structure Arguments (pt : Pagetable) (s : Memory) (base top : Nat) (argv : List (List UInt8))
    (ps all : List Nat) (sp : Nat) :
    Prop where
  aligned : sp % 16 = 0
  inside : base ≤ sp ∧ sp + 8 * (all.length + 1) ≤ top
  length : ps.length = argv.length
  place : ∀ i < argv.length, ps.getD i 0 + (argv.getD i []).length + 1 ≤ top ∧
    sp + 8 * (all.length + 1) ≤ ps.getD i 0
  apart : ∀ i j, i < j → j < argv.length → ps.getD j 0 + (argv.getD j []).length + 1 ≤ ps.getD i 0
  string : ∀ i < argv.length, ∀ x ≤ (argv.getD i []).length, pt.user s (ps.getD i 0 + x) =
    some (stringBytes (argv.getD i []) x)
  word : ∀ i ≤ all.length, ∀ x < 8, pt.user s (sp + 8 * i + x) = some (Bytes.ofNat (all.getD i 0) x)

section Stack

variable {F : Nat → Prop} {s s' : Memory} {pt : Pagetable} {base sp top va len n fuel : Nat}
  {src : Bytes} {argv : List (List UInt8)}
  {ustack : List Nat}

theorem sub64_eq {a b : Nat} (order : b ≤ a) (small : a < 2 ^ 64) : sub64 a b = a - b := by
  unfold sub64
  omega

/-- `copyout` writes to the pages of the addresses from the first one on. -/
theorem copyout_gives (pt : Pagetable) (va : Nat) (src : Bytes) (len : Nat) (free : ∀ pa ∈ s.freelist, F pa)
    (own : ∀ a pa, va ≤ a → pt.target a = some pa → F pa) :
    Gives (copyout pt va src len) s fun _ s' => Uses F s s' ∧ s'.freelist = s.freelist := by
  suffices ∀ fuel va src len s, (∀ pa ∈ s.freelist, F pa) → (∀ a pa, va ≤ a → pt.target a = some pa → F pa) →
      Gives (copyLoop pt fuel va src len) s fun _ s' => Uses F s s' ∧ s'.freelist = s.freelist from
    this len va src len s free own
  intro fuel
  induction fuel with
  | zero => exact fun va src len s free own => Gives.pure ⟨.refl free, rfl⟩
  | succ fuel ih =>
    intro va src len s free own r s' run
    rw [copyLoop_round] at run
    split at run
    · cases run
      exact ⟨.refl free, rfl⟩
    · split at run
      · cases run
        exact ⟨.refl free, rfl⟩
      next pa found =>
        have uses := write_uses free (own va pa le_rfl found) (va % PGSIZE)
          (min (PGSIZE - va % PGSIZE) len) src
        have later : va ≤ PGROUNDDOWN va + PGSIZE := by
          unfold PGROUNDDOWN PGSIZE
          omega
        obtain ⟨uses', list⟩ := ih _ _ _ _ uses.free (fun a pa above => own a pa (by omega)) r s' run
        exact ⟨uses.trans uses', list⟩

theorem pushArgs_gives (argv : List (List UInt8)) (sp : Nat) (ustack : List Nat)
    (free : ∀ pa ∈ s.freelist, F pa)
    (own : ∀ a pa, base ≤ a → pt.target a = some pa → F pa) :
    Gives (pushArgs pt base argv sp ustack) s fun _ s' => Uses F s s' ∧ s'.freelist = s.freelist := by
  induction argv generalizing s sp ustack with
  | nil =>
    unfold pushArgs
    refine Gives.ite (fun _ => Gives.pure ⟨.refl free, rfl⟩) fun above => ?_
    exact (copyout_gives pt _ _ _ free fun a pa from_sp => own a pa (by omega)).bind
      fun r s₁ copied => Gives.pure copied
  | cons arg rest ih =>
    unfold pushArgs
    refine Gives.ite (fun _ => Gives.pure ⟨.refl free, rfl⟩) fun _ => Gives.ite
      (fun _ => Gives.pure ⟨.refl free, rfl⟩) fun above => ?_
    refine (copyout_gives pt _ _ _ free fun a pa from_sp => own a pa (by omega)).bind
      fun r s₁ ⟨uses, list⟩ => ?_
    refine Gives.ite (fun _ => Gives.pure ⟨uses, list⟩) fun _ => ?_
    exact (ih _ _ uses.free).mono fun r s₂ ⟨uses', list'⟩ => ⟨uses.trans uses', list'.trans list⟩

/-- With fewer than `MAXARG` short strings nothing is out of bounds. -/
theorem pushArgsChecked_eq (argv : List (List UInt8)) (sp : Nat) (ustack : List Nat)
    (few : ustack.length + argv.length < MAXARG)
    (short : ∀ arg ∈ argv, arg.length < PGSIZE) (room : PGSIZE ≤ base) (above : base ≤ sp) :
    pushArgsChecked pt base argv sp ustack = pushArgs pt base argv sp ustack := by
  induction argv generalizing sp ustack with
  | nil =>
    refine if_neg fun wrong => ?_
    rw [List.length_nil, Nat.add_zero] at few
    unfold MAXARG at few wrong
    unfold PGSIZE at room
    omega
  | cons arg rest ih =>
    have size := short arg (List.mem_cons_self ..)
    have next : ∀ a ∈ rest, a.length < PGSIZE := fun a member => short a (List.mem_cons_of_mem arg member)
    rw [List.length_cons] at few
    have enough : ¬sp < arg.length + 1 := by omega
    have more : ¬MAXARG ≤ ustack.length := by omega
    rw [pushArgsChecked, pushArgs, if_neg more, if_neg more, if_neg enough]
    dsimp only
    split
    · rfl
    next inside =>
      congr 1
      funext r
      split
      · rfl
      · exact ih _ _ (by rw [List.length_cons]; omega) next (Nat.le_of_not_lt inside)

/-- Where a string of a length goes. -/
theorem sub64_round (room : n < sp) (small : sp < 2 ^ 64) :
    sub64 sp (n + 1) / 16 * 16 % 16 = 0 ∧ sub64 sp (n + 1) / 16 * 16 + n + 1 ≤ sp := by
  rw [sub64_eq room small]
  omega

theorem words_round (few : n < MAXARG) (room : PGSIZE ≤ sp) (small : sp < 2 ^ 64) :
    sub64 sp ((n + 1) * 8) / 16 * 16 % 16 = 0 ∧ sub64 sp ((n + 1) * 8) / 16 * 16 + 8 * (n + 1) ≤ sp := by
  unfold MAXARG at few
  unfold PGSIZE at room
  rw [sub64_eq (by omega) small]
  omega

theorem copyout_stored (injective : pt.Injective) (va : Nat) (src : Bytes) (len : Nat) :
    Gives (copyout pt va src len) s fun r s' => ¬r < 0 → Stored pt va len src s s' := by
  obtain ⟨k, s', -, run, -, -, stored⟩ := copyout_spec injective va src len s
  refine .of_run run fun fine => ?_
  by_cases whole : k = len
  · exact whole ▸ stored
  · rw [if_neg whole] at fine
    omega

theorem copyout_below (injective : pt.Injective) (va : Nat) (src : Bytes) (len : Nat) :
    Gives (copyout pt va src len) s fun _ s' => ∀ a < va, pt.user s' a = pt.user s a := by
  obtain ⟨k, s', -, run, -, -, stored⟩ := copyout_spec injective va src len s
  exact .of_run run fun a below => stored.outside a (.inl below)

/-- What is below the stack stays. -/
theorem pushArgs_below (injective : pt.Injective) (argv : List (List UInt8)) (sp : Nat) (ustack : List Nat) :
    Gives (pushArgs pt base argv sp ustack) s fun _ s' => ∀ a < base, pt.user s' a = pt.user s a := by
  induction argv generalizing s sp ustack with
  | nil =>
    unfold pushArgs
    refine Gives.ite (fun _ => Gives.pure fun _ _ => rfl) fun above => (copyout_below injective _ _ _).bind
      fun r s₁ kept => Gives.pure ?_
    exact fun a below => kept a (by omega)
  | cons arg rest ih =>
    unfold pushArgs
    refine Gives.ite (fun _ => Gives.pure fun _ _ => rfl) fun _ => Gives.ite
      (fun _ => Gives.pure fun _ _ => rfl) fun above => ?_
    refine (copyout_below injective _ _ _).bind fun r s₁ kept => Gives.ite
      (fun _ => Gives.pure fun a below => kept a (by omega)) fun _ => ?_
    exact (ih _ _).mono fun r s₂ kept' a below => (kept' a below).trans (kept a (by omega))

theorem pushArgs_small (argv : List (List UInt8)) (sp : Nat) (ustack : List Nat) :
    Gives (pushArgs pt base argv sp ustack) s fun r _ => ∀ stack, r = some stack → stack < 2 ^ 64 := by
  have small (a b : Nat) : sub64 a b / 16 * 16 < 2 ^ 64 := by
    unfold sub64
    omega
  induction argv generalizing s sp ustack with
  | nil =>
    unfold pushArgs
    dsimp only
    refine Gives.ite (fun _ => Gives.pure nofun) fun _ => ?_
    refine Gives.bind (Q := fun _ _ => True) (fun _ _ _ => trivial) fun r s₁ _ =>
      Gives.pure fun stack done => ?_
    split at done
    · cases done
    · exact Option.some.inj done ▸ small sp _
  | cons arg rest ih =>
    unfold pushArgs
    dsimp only
    refine Gives.ite (fun _ => Gives.pure nofun) fun _ => Gives.ite (fun _ => Gives.pure nofun) fun _ => ?_
    exact Gives.bind (Q := fun _ _ => True) (fun _ _ _ => trivial) fun r s₁ _ => Gives.ite
      (fun _ => Gives.pure nofun) fun _ => ih _ _

/-- One more string above the others. -/
theorem Arguments.push {ps all : List Nat} {arg : List UInt8} {stack p : Nat}
    (args : Arguments pt s base p argv ps all stack)
    (below : p + arg.length + 1 ≤ top) (string : ∀ x ≤ arg.length, pt.user s (p + x) =
      some (stringBytes arg x)) :
    Arguments pt s base top (arg :: argv) (p :: ps) all stack := by
  have inside := args.inside
  refine ⟨args.aligned, ⟨inside.1, by omega⟩, ?_, fun i less => ?_, fun i j order less => ?_,
    fun i less x last => ?_, args.word⟩
  · rw [List.length_cons, List.length_cons, args.length]
  · rw [List.length_cons] at less
    cases i with
    | zero =>
      rw [List.getD_cons_zero, List.getD_cons_zero]
      exact ⟨below, inside.2⟩
    | succ i =>
      rw [List.getD_cons_succ, List.getD_cons_succ]
      have place := args.place i (by omega)
      omega
  · rw [List.length_cons] at less
    obtain ⟨j, rfl⟩ : ∃ k, j = k + 1 := ⟨j - 1, by omega⟩
    rw [List.getD_cons_succ, List.getD_cons_succ]
    cases i with
    | zero =>
      rw [List.getD_cons_zero]
      exact (args.place j (by omega)).1
    | succ i =>
      rw [List.getD_cons_succ]
      exact args.apart i j (by omega) (by omega)
  · rw [List.length_cons] at less
    cases i with
    | zero => exact string x last
    | succ i => exact args.string i (by omega) x last

theorem Arguments.congr {ps all : List Nat} {stack : Nat} (args : Arguments pt s base top argv ps all stack)
    (same : ∀ a, pt.user s' a = pt.user s a) : Arguments pt s' base top argv ps all stack :=
  { args with
    string := fun i less x last => (same _).trans (args.string i less x last)
    word := fun i last x byte => (same _).trans (args.word i last x byte) }

/-- What `pushArgs` leaves on the stack; what was there from the stack pointer on stays. -/
theorem pushArgs_stored (injective : pt.Injective) (argv : List (List UInt8)) (sp : Nat) (ustack : List Nat)
    (few : ustack.length + argv.length < MAXARG) (short : ∀ arg ∈ argv, arg.length < PGSIZE)
    (room : PGSIZE ≤ base) (above : base ≤ sp)
    (small : sp < 2 ^ 64) : Gives (pushArgs pt base argv sp ustack) s fun r s' => ∀ stack, r = some stack →
      (∃ ps, Arguments pt s' base sp argv ps (ustack.reverse ++ ps) stack) ∧ ∀ a, sp ≤ a →
      pt.user s' a = pt.user s a := by
  induction argv generalizing s sp ustack with
  | nil =>
    unfold pushArgs
    dsimp only
    refine Gives.ite (fun _ => Gives.pure nofun) fun inside => (copyout_stored injective _ _ _).bind
      fun r s₁ stored => Gives.pure ?_
    intro stack done
    split at done
    · cases done
    next fine =>
      obtain rfl := Option.some.inj done
      rw [List.length_nil, Nat.add_zero] at few
      obtain ⟨aligned, below⟩ := words_round few (Nat.le_trans room above) small
      have stored := stored fine
      generalize sub64 sp ((ustack.length + 1) * 8) / 16 * 16 = stack at *
      refine ⟨⟨[], ?_⟩, fun a high => stored.outside a (.inr (by omega))⟩
      rw [List.append_nil]
      exact {
        aligned
        inside := ⟨by omega, by rw [List.length_reverse]; omega⟩
        length := rfl
        place := fun i below => absurd below (Nat.not_lt_zero i)
        apart := fun i j _ below => absurd below (Nat.not_lt_zero j)
        string := fun i below => absurd below (Nat.not_lt_zero i)
        word := fun i last x byte => by
          rw [List.length_reverse] at last
          rw [Nat.add_assoc, stored.inside (8 * i + x) (by omega)]
          unfold wordBytes
          rw [show (8 * i + x) / 8 = i by omega, show (8 * i + x) % 8 = x by omega] }
  | cons arg rest ih =>
    have size := short arg (List.mem_cons_self ..)
    have next : ∀ a ∈ rest, a.length < PGSIZE := fun a member => short a (List.mem_cons_of_mem arg member)
    rw [List.length_cons] at few
    obtain ⟨-, below⟩ := sub64_round (by omega : arg.length < sp) small
    unfold pushArgs
    dsimp only
    generalize sub64 sp (arg.length + 1) / 16 * 16 = sp₁ at *
    refine Gives.ite (fun _ => Gives.pure nofun) fun _ => Gives.ite (fun _ => Gives.pure nofun) fun inside =>
      (copyout_stored injective _ _ _).bind fun r s₁ stored => Gives.ite
        (fun _ => Gives.pure nofun) fun fine => ?_
    have stored := stored fine
    refine (ih sp₁ (sp₁ :: ustack) (by rw [List.length_cons]; omega) next (by omega) (by omega)).mono
      fun r s₂ rest stack done => ?_
    obtain ⟨⟨ps, args⟩, kept⟩ := rest stack done
    rw [List.reverse_cons, List.append_assoc, List.singleton_append] at args
    refine ⟨⟨sp₁ :: ps, ?_⟩, fun a high => (kept a (by omega)).trans (stored.outside a (.inr (by omega)))⟩
    exact args.push below fun x last => (kept _ (Nat.le_add_right ..)).trans
      (stored.inside x (Nat.lt_succ_of_le last))

end Stack

end Xv6.Vm
