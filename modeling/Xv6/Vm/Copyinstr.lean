import Xv6.Vm.Ranges

namespace Xv6.Vm
open Function

/-- The inner loop of `copyinstr`: whether a NUL was met, the buffer, the place in it, and what is left of
`max`. -/
def stringLoop (p : Bytes) : Nat → Bytes → Nat → Nat → Bool × Bytes × Nat × Nat
  | 0, dst, a, max => (false, dst, a, max)
  | n + 1, dst, a, max =>
    if p 0 = 0 then (true, update dst a 0, a, max) else stringLoop (p.drop 1) n (update dst a
      (p 0)) (a + 1) (max - 1)

/-- The loop of `copyinstr`, an error if it goes on after so many rounds. -/
def copyinstrLoop (pt : Pagetable) : Nat → Bytes → Nat → Nat → Nat → VmM (Int × Bytes)
  | 0, _, _, _, _ => throw "copyinstr: rounds"
  | fuel + 1, dst, a, srcva, max =>
    if max = 0 then pure (-1, dst)
    else do
      let va0 := PGROUNDDOWN srcva
      let pa0 ← walkaddr pt va0
      if pa0 = 0 then pure (-1, dst)
      else do
        let n := min (PGSIZE - (srcva - va0)) max
        let s ← get
        let (gotNull, dst, a, max) := stringLoop ((s.mem pa0).drop (srcva - va0)) n dst a max
        if gotNull then pure (0, dst) else copyinstrLoop pt fuel dst a (va0 + PGSIZE) max

/-- `copyinstr` to a buffer from `a` on. -/
def copyinstr (pt : Pagetable) (dst : Bytes) (a srcva max : Nat) : VmM (Int × Bytes) :=
  copyinstrLoop pt (max + 1) dst a srcva max

/-- The first NUL is `k` bytes further. -/
def EndsAt (m : Bytes) (k : Nat) : Prop := m k = 0 ∧ ∀ j < k, m j ≠ 0

section Copyinstr

variable {pt : Pagetable} {s : Memory} {p dst src : Bytes} {a k n max va fuel : Nat}

theorem splice_zero (dst src : Bytes) (a : Nat) : dst.splice a 0 src = dst :=
  funext fun x => Bytes.splice_outside (by omega)

theorem splice_one (dst : Bytes) (a : Nat) (src : Bytes) : dst.splice a 1 src = update dst a (src 0) := by
  funext x
  by_cases here : x = a
  · subst here
    rw [Bytes.splice_inside (by omega) (by omega), update_self, Nat.sub_self]
  · rw [Bytes.splice_outside (by omega), update_of_ne here]

theorem splice_next (dst : Bytes) (a n : Nat) (p : Bytes) :
    Bytes.splice (update dst a (p 0)) (a + 1) n (p.drop 1) = dst.splice a (n + 1) p := by
  rw [← splice_one, splice_splice, Nat.add_comm 1 n]

theorem EndsAt.zero : EndsAt p 0 ↔ p 0 = 0 :=
  ⟨fun ends => ends.1, fun here => ⟨here, fun _ below => absurd below (Nat.not_lt_zero _)⟩⟩

theorem EndsAt.succ (more : p 0 ≠ 0) : EndsAt p (k + 1) ↔ EndsAt (p.drop 1) k := by
  unfold EndsAt
  simp only [Bytes.drop_apply, Nat.add_comm 1]
  refine and_congr_right fun _ => ⟨fun before j below => before (j + 1) (by omega), fun before j below => ?_⟩
  cases j with
  | zero => exact more
  | succ j => exact before j (by omega)

/-- The inner loop copies the bytes up to the first NUL, or all of them. -/
theorem stringLoop_spec (bound : n ≤ max) :
    (∃ k < n, EndsAt p k ∧ stringLoop p n dst a max = (true, dst.splice a (k + 1) p, a + k, max - k)) ∨
    (∀ j < n, p j ≠ 0) ∧ stringLoop p n dst a max = (false, dst.splice a n p, a + n, max - n) := by
  induction n generalizing p dst a max with
  | zero =>
    refine .inr ⟨fun _ below => absurd below (Nat.not_lt_zero _), ?_⟩
    rw [splice_zero]
    rfl
  | succ n ih =>
    rw [stringLoop]
    by_cases here : p 0 = 0
    · refine .inl ⟨0, by omega, EndsAt.zero.mpr here, ?_⟩
      rw [if_pos here, splice_one, here]
      rfl
    · rw [if_neg here]
      rcases @ih (p.drop 1) (update dst a (p 0)) (a + 1) (max - 1) (by omega) with
        ⟨k, below, ends, run⟩ | ⟨none, run⟩
      · refine .inl ⟨k + 1, by omega, (EndsAt.succ here).mpr ends, ?_⟩
        rw [run, splice_next, show a + 1 + k = a + (k + 1) by omega, show max - 1 - k = max - (k + 1) by omega]
      · refine .inr ⟨fun j below => ?_, ?_⟩
        · cases j with
          | zero => exact here
          | succ j =>
            have later := none j (by omega)
            rwa [Bytes.drop_apply, Nat.add_comm 1 j] at later
        · rw [run, splice_next, show a + 1 + n = a + (n + 1) by omega, show max - 1 - n = max - (n + 1) by omega]

theorem EndsAt.congr {m m' : Bytes} (ends : EndsAt m k) (same : ∀ x ≤ k, m x = m' x) : EndsAt m' k :=
  ⟨same k le_rfl ▸ ends.1, fun j below => same j (by omega) ▸ ends.2 j below⟩

/-- A round of `copyinstr`. -/
theorem copyinstrLoop_round : copyinstrLoop pt (fuel + 1) dst a va max s =
    if max = 0 then .ok ((-1, dst), s)
    else match pt.source va with
      | none => .ok ((-1, dst), s)
      | some pa =>
        match stringLoop ((s.mem pa).drop (va % PGSIZE)) (min (PGSIZE - va % PGSIZE) max) dst a max with
        | (gotNull, dst, a, max) =>
          if gotNull then .ok ((0, dst), s) else copyinstrLoop pt fuel dst a (PGROUNDDOWN va +
            PGSIZE) max s := by
  rw [copyinstrLoop]
  by_cases done : max = 0
  · rw [if_pos done, if_pos done]
    rfl
  rw [if_neg done, if_neg done]
  show (walkaddr pt (PGROUNDDOWN va) s >>= _) = _
  rw [walkaddr_source]
  cases found : pt.source va with
  | none => rfl
  | some pa =>
    simp only [bind, Except.bind, Option.getD_some, if_neg (source_ne_zero found), sub_PGROUNDDOWN]
    show (ite _ _ _ : VmM (Int × Bytes)) s = _
    split
    · rfl
    · rfl

/-- `copyinstr` copies the bytes up to the first NUL, or else those before the first address that it cannot
read. -/
theorem copyinstrLoop_spec (enough : max < fuel) :
    (∃ k < max, EndsAt (pt.bytes s va) k ∧ (∀ x ≤ k, pt.source (va + x) ≠ none) ∧
      copyinstrLoop pt fuel dst a va max s = .ok ((0, dst.splice a (k + 1) (pt.bytes s va)), s)) ∨
    ∃ k ≤ max, (∀ x < k, pt.source (va + x) ≠ none ∧ pt.bytes s va x ≠ 0) ∧
    (k < max → pt.source (va + k) = none) ∧
      copyinstrLoop pt fuel dst a va max s = .ok ((-1, dst.splice a k (pt.bytes s va)), s) := by
  induction fuel generalizing dst a va max with
  | zero => exact absurd enough (Nat.not_lt_zero max)
  | succ fuel ih =>
    rw [copyinstrLoop_round]
    by_cases done : max = 0
    · refine .inr ⟨0, Nat.zero_le _, fun _ below => absurd below (Nat.not_lt_zero _),
        fun below => by omega, ?_⟩
      rw [if_pos done, splice_zero]
    rw [if_neg done]
    cases found : pt.source va with
    | none =>
      refine .inr ⟨0, Nat.zero_le _, fun _ below => absurd below (Nat.not_lt_zero _), fun _ => found, ?_⟩
      rw [splice_zero]
    | some pa =>
      have below : va % PGSIZE < PGSIZE := Nat.mod_lt _ (by decide)
      obtain ⟨n, hn⟩ : ∃ n, n = min (PGSIZE - va % PGSIZE) max := ⟨_, rfl⟩
      have page : ∀ x < n, pt.source (va + x) = some pa := fun x early => by
        rw [Pagetable.source_congr (same_page va (by omega)).1, found]
      have bytes : ∀ x < n, (s.mem pa).drop (va % PGSIZE) x = pt.bytes s va x := fun x early => by
        rw [Bytes.drop_apply, Pagetable.bytes, page x early, (same_page va (by omega)).2]
      simp only [← hn]
      rcases @stringLoop_spec ((s.mem pa).drop (va % PGSIZE)) dst a n max (by omega) with
        ⟨k, early, ends, run⟩ | ⟨none, run⟩
      · refine .inl ⟨k, by omega, ends.congr fun x le => bytes x (by omega), fun x le => ?_, ?_⟩
        · rw [page x (by omega)]
          exact Option.some_ne_none pa
        · rw [run]
          dsimp only
          rw [if_pos rfl, splice_congr fun x le => bytes x (by omega)]
      · rw [run]
        dsimp only
        rw [if_neg Bool.false_ne_true, splice_congr bytes]
        have good : ∀ x < n, pt.source (va + x) ≠ Option.none ∧ pt.bytes s va x ≠ 0 := fun x early => by
          rw [page x early, ← bytes x early]
          exact ⟨Option.some_ne_none pa, none x early⟩
        have rest := @ih (dst.splice a n (pt.bytes s va)) (a + n) (max - n) (PGROUNDDOWN va +
          PGSIZE) (by omega)
        by_cases last : n = max
        · have empty : max - n = 0 := by rw [last, Nat.sub_self]
          rw [empty] at rest ⊢
          obtain ⟨k, below, -⟩ | ⟨k, zero, -, -, run'⟩ := rest
          · exact absurd below (Nat.not_lt_zero k)
          · obtain rfl := Nat.le_zero.mp zero
            rw [splice_zero] at run'
            exact .inr ⟨n, last.le, good, fun less => absurd last less.ne, run'⟩
        · rw [next_page va hn last] at rest ⊢
          rw [← Pagetable.bytes_drop] at rest
          have reach {k : Nat} (later : ∀ x < k, pt.source (va + n + x) ≠ Option.none) :
              ∀ x < n + k, pt.source (va + x) ≠ Option.none := fun x less => by
            by_cases early : x < n
            · exact (good x early).1
            · have here := later (x - n) (by omega)
              rwa [show va + n + (x - n) = va + x by omega] at here
          obtain ⟨k, inside, ends, readable, run'⟩ | ⟨k, inside, before, stop, run'⟩ := rest
          · refine .inl ⟨n + k, by omega, ⟨ends.1, fun j less => ?_⟩, fun x le => ?_, ?_⟩
            · by_cases early : j < n
              · exact (good j early).2
              · have here := ends.2 (j - n) (by omega)
                rwa [Bytes.drop_apply, show n + (j - n) = j by omega] at here
            · exact reach (k := k + 1) (fun x le => readable x (by omega)) x (by omega)
            · rw [run', splice_splice, Nat.add_assoc]
          · refine .inr ⟨n + k, by omega, fun x less => ⟨reach (fun x less => (before x less).1) x less,
              ?_⟩, fun less => ?_, ?_⟩
            · by_cases early : x < n
              · exact (good x early).2
              · have here := (before (x - n) (by omega)).2
                rwa [Bytes.drop_apply, show n + (x - n) = x by omega] at here
            · rw [← Nat.add_assoc]
              exact stop (by omega)
            · rw [run', splice_splice]

/-- `copyinstr` gives 0 exactly if there is a NUL among the first `max` bytes, and all bytes up to the first
one are below MAXVA and may be read by user programs; these bytes are then in the buffer. It always ends, and
writes no more than `max` bytes of the buffer. -/
theorem copyinstr_exact (wf : pt.WellFormed) (dst : Bytes) (a va max : Nat) (s : Memory) :
    ∃ r k, k ≤ max ∧ copyinstr pt dst a va max s = .ok ((r, dst.splice a k (pt.bytes s va)), s) ∧
    (r = 0 ∨ r = -1) ∧
      (r = 0 ↔ ∃ j < max, EndsAt (pt.bytes s va) j ∧ ∀ x ≤ j, pt.Readable (va + x)) ∧
      (∀ j, r = 0 → EndsAt (pt.bytes s va) j → k = j + 1) ∧ ∀ x < k, pt.Readable (va + x) := by
  rcases @copyinstrLoop_spec pt s dst a max va (max + 1) (Nat.lt_succ_self max) with
    ⟨k, below, ends, reach, run⟩ | ⟨k, bound, before, stop, run⟩
  · have readable : ∀ x ≤ k, pt.Readable (va + x) := fun x le => wf.source_ne_none.mp (reach x le)
    refine ⟨0, k + 1, below, run, .inl rfl, iff_of_true rfl ⟨k, below, ends, readable⟩, fun j _ ends' => ?_,
      fun x less => readable x (by omega)⟩
    have order : j = k := by
      rcases Nat.lt_trichotomy j k with less | same | more
      · exact absurd ends'.1 (ends.2 j less)
      · exact same
      · exact absurd ends.1 (ends'.2 k more)
    rw [order]
  · have readable : ∀ x < k, pt.Readable (va + x) := fun x less => wf.source_ne_none.mp (before x less).1
    refine ⟨-1, k, bound, run, .inr rfl, iff_of_false (by decide) ?_, fun j zero => absurd zero
      (by decide), readable⟩
    rintro ⟨j, below, ends, all⟩
    by_cases early : j < k
    · exact (before j early).2 ends.1
    · exact wf.source_ne_none.mpr (all k (by omega)) (stop (by omega))

end Copyinstr

/-- The string "a" at the end of the page. -/
theorem copyinstr_exact_single : ∃ s dst, copyinstr single (fun _ => 9) 0 0x1FFE 5 s = .ok ((0, dst), s) := by
  let s : Memory := ⟨KERNBASE, KERNBASE, fun _ o => if o = 0xFFE then 97 else 0, [], fun _ _ => false⟩
  obtain ⟨r, k, -, run, -, all, -⟩ := copyinstr_exact single_wellFormed (fun _ => 9) 0 0x1FFE 5 s
  have page {x : Nat} (below : x < 2) : (0x1FFE + x) / PGSIZE = 1 := by
    unfold PGSIZE
    omega
  have readable : ∀ x ≤ 1, single.Readable (0x1FFE + x) := fun x le => by
    refine ⟨by unfold MAXVA; omega, ⟨0x6000, ⟨true, true, false, true⟩⟩, ?_, rfl⟩
    rw [page (by omega)]
    rfl
  have ends : EndsAt (single.bytes s 0x1FFE) 1 := by
    refine ⟨rfl, fun j below => ?_⟩
    obtain rfl : j = 0 := by omega
    decide
  rw [all.mpr ⟨1, by decide, ends, readable⟩] at run
  exact ⟨s, _, run⟩

end Xv6.Vm
