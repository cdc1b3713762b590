import Mathlib.Data.List.Basic
import Mathlib.Data.List.Nodup
import Mathlib.Logic.Function.Basic

/-! Lists that are linked through a memory of addresses, where 0 ends a list, and rings that go through a fixed
head node, which is `none`, by links in both directions. -/

namespace Chain

/-- The nodes met from an address on. -/
def Through (next : Nat → Nat) : Nat → List Nat → Prop
  | a, [] => a = 0
  | a, b :: rest => a = b ∧ b ≠ 0 ∧ Through next (next b) rest

variable {next next' : Nat → Nat} {a b : Nat} {l l' : List Nat}

/-- Only the links of the nodes matter. -/
theorem Through.congr (through : Through next a l) (same : ∀ b ∈ l, next' b = next b) : Through next' a l := by
  induction l generalizing a with
  | nil => exact through
  | cons b rest ih =>
    obtain ⟨here, some, others⟩ := through
    rw [List.forall_mem_cons] at same
    refine ⟨here, some, ?_⟩
    rw [same.1]
    exact ih others same.2

/-- A link that is written before all others. -/
theorem Through.push (through : Through next a l) (some : b ≠ 0) (apart : b ∉ l) :
    Through (Function.update next b a) b (b :: l) := by
  refine ⟨rfl, some, ?_⟩
  rw [Function.update_self]
  refine through.congr fun c member => Function.update_of_ne ?_ _ _
  rintro rfl
  exact apart member

theorem Through.nil_iff (through : Through next a l) : a = 0 ↔ l = [] := by
  cases l with
  | nil => exact iff_of_true through rfl
  | cons b rest => exact iff_of_false (fun zero => through.2.1
      (through.1.symm.trans zero)) (List.cons_ne_nil b rest)

/-- There is one way to go. -/
theorem Through.unique (through : Through next a l) (other : Through next a l') : l = l' := by
  induction l generalizing a l' with
  | nil => exact (other.nil_iff.mp through).symm
  | cons b rest ih =>
    cases l' with
    | nil => exact absurd (through.nil_iff.mp other) (List.cons_ne_nil b rest)
    | cons c rest' =>
      obtain ⟨rfl, -, others⟩ := through
      obtain ⟨rfl, -, others'⟩ := other
      rw [ih others others']

end Chain

/-- The links of a ring. -/
structure Links (α : Type) where
  next : Option α → Option α
  prev : Option α → Option α

namespace Links

variable {α : Type}

/-- The members met between two nodes along a link. -/
def Seg (link : Option α → Option α) : Option α → List α → Option α → Prop
  | a, [], c => link a = c
  | a, b :: rest, c => link a = some b ∧ Seg link (some b) rest c

/-- The last node met. -/
def last : Option α → List α → Option α
  | a, [] => a
  | _, b :: rest => last (some b) rest

/-- The ring goes through these members, in order from the head. -/
structure Through (k : Links α) (order : List α) : Prop where
  forward : Seg k.next none order none
  backward : Seg k.prev none order.reverse none
  nodup : order.Nodup

/-- The first member on the way that satisfies a test. -/
def scan (link : Option α → Option α) (test : α → Bool) : Nat → Option α → Option α
  | 0, _ => none
  | _ + 1, none => none
  | fuel + 1, some b => if test b then some b else scan link test fuel (link (some b))

variable {link link' : Option α → Option α} {a c : Option α} {b : α} {l r : List α}

theorem seg_append : Seg link a (l ++ b :: r) c ↔ Seg link a l (some b) ∧ Seg link (some b) r c := by
  induction l generalizing a with
  | nil => rfl
  | cons x l ih => simp only [List.cons_append, Seg, ih, and_assoc]

theorem seg_congr (same : link' a = link a) (rest : ∀ x ∈ l, link' (some x) = link (some x))
    (seg : Seg link a l c) : Seg link' a l c := by
  induction l generalizing a with
  | nil => exact same.trans seg
  | cons x l ih =>
    obtain ⟨first, seg⟩ := seg
    exact ⟨same.trans first, ih (rest x (by simp)) (fun y member => rest y (by simp [member])) seg⟩

theorem seg_first (seg : Seg link a r none) : link a = r.head? := by
  cases r with
  | nil => exact seg
  | cons x r => exact seg.1

theorem seg_last (seg : Seg link a l c) : link (last a l) = c := by
  induction l generalizing a with
  | nil => exact seg
  | cons x l ih => exact ih seg.2

theorem last_eq : last a l = (l.getLast?).or a := by
  induction l generalizing a with
  | nil => simp [last]
  | cons x l ih =>
    rw [last, ih]
    cases l with
    | nil => simp
    | cons y l => simp [List.getLast?_cons]

theorem last_none : last none l = l.getLast? := by simp [last_eq]

/-- A scan that starts with enough fuel goes through the whole ring. -/
theorem scan_eq {test : α → Bool} {fuel : Nat} (seg : Seg link a l none) (enough : l.length < fuel) :
    scan link test fuel (link a) = l.find? test := by
  induction l generalizing a fuel with
  | nil =>
    obtain ⟨fuel, rfl⟩ := Nat.exists_eq_succ_of_ne_zero (by omega : fuel ≠ 0)
    show scan link test (fuel + 1) (link a) = none
    rw [show link a = none from seg]
    rfl
  | cons x l ih =>
    obtain ⟨fuel, rfl⟩ := Nat.exists_eq_succ_of_ne_zero (by omega : fuel ≠ 0)
    obtain ⟨first, seg⟩ := seg
    have short : l.length < fuel := by
      simp only [List.length_cons] at enough
      omega
    have rest := ih seg short
    rw [first, List.find?_cons]
    show (if test x then some x else scan link test fuel (link (some x))) = _
    rw [rest]
    cases test x <;> rfl

namespace Through

variable {k : Links α} {order : List α}

theorem next_none (ring : k.Through order) : k.next none = order.head? := seg_first ring.forward

theorem prev_none (ring : k.Through order) : k.prev none = order.getLast? := by
  rw [seg_first ring.backward, List.head?_reverse]

theorem next_some (ring : k.Through (l ++ b :: r)) : k.next (some b) = r.head? :=
  seg_first (seg_append.mp ring.forward).2

theorem prev_some (ring : k.Through (l ++ b :: r)) : k.prev (some b) = l.getLast? := by
  have back := ring.backward
  rw [List.reverse_append, List.reverse_cons, List.append_assoc, List.singleton_append] at back
  rw [seg_first (seg_append.mp back).2, List.head?_reverse]

/-- Going forward and then back leads to the same node. -/
theorem prev_next (ring : k.Through order) (full : ∀ x, x ∈ order) : k.prev (k.next a) = a := by
  cases a with
  | none =>
    rw [ring.next_none]
    cases order with
    | nil => rw [List.head?_nil, ring.prev_none]; rfl
    | cons y r => exact prev_some (l := []) ring
  | some x =>
    obtain ⟨l, r, rfl⟩ := List.append_of_mem (full x)
    rw [ring.next_some]
    cases r with
    | nil => rw [List.head?_nil, ring.prev_none]; simp
    | cons y r =>
      have split : l ++ x :: y :: r = (l ++ [x]) ++ y :: r := by simp
      rw [List.head?_cons, prev_some (split ▸ ring)]
      simp

theorem next_prev (ring : k.Through order) (full : ∀ x, x ∈ order) : k.next (k.prev a) = a := by
  cases a with
  | none =>
    rw [ring.prev_none]
    rcases List.eq_nil_or_concat' order with rfl | ⟨l, y, rfl⟩
    · rw [List.getLast?_nil, ring.next_none]
      rfl
    · rw [List.getLast?_concat, ring.next_some]
      rfl
  | some x =>
    obtain ⟨l, r, rfl⟩ := List.append_of_mem (full x)
    rw [ring.prev_some]
    rcases List.eq_nil_or_concat' l with rfl | ⟨l, y, rfl⟩
    · rw [List.getLast?_nil, ring.next_none]
      rfl
    · have split : l ++ [y] ++ x :: r = l ++ y :: x :: r := by simp
      rw [List.getLast?_concat, next_some (split ▸ ring)]
      rfl

theorem scan_next (ring : k.Through order) {test : α → Bool} {fuel : Nat} (enough : order.length < fuel) :
    scan k.next test fuel (k.next none) = order.find? test := scan_eq ring.forward enough

theorem scan_prev (ring : k.Through order) {test : α → Bool} {fuel : Nat} (enough : order.length < fuel) :
    scan k.prev test fuel (k.prev none) = order.reverse.find? test :=
  scan_eq ring.backward (by simpa using enough)

end Through

section Surgery

variable [DecidableEq α]

/-- `b->next->prev = b->prev; b->prev->next = b->next;` -/
def unlink (k : Links α) (b : α) : Links α :=
  let prev := Function.update k.prev (k.next (some b)) (k.prev (some b))
  ⟨Function.update k.next (prev (some b)) (k.next (some b)), prev⟩

/-- `b->next = head.next; b->prev = &head; head.next->prev = b; head.next = b;` -/
def linkFirst (k : Links α) (b : α) : Links α :=
  let next := Function.update k.next (some b) (k.next none)
  let prev := Function.update k.prev (some b) none
  ⟨Function.update next none (some b), Function.update prev (next none) (some b)⟩

omit [DecidableEq α] in
theorem last_mem : last a l = a ∨ ∃ x ∈ l, last a l = some x := by
  induction l generalizing a with
  | nil => exact Or.inl rfl
  | cons y l ih =>
    rcases ih (a := some y) with same | ⟨x, member, eq⟩
    · exact Or.inr ⟨y, by simp, same⟩
    · exact Or.inr ⟨x, by simp [member], eq⟩

/-- A member is skipped. -/
theorem seg_skip (before : Seg link a l (some b)) (after : Seg link (some b) r none)
    (fresh : ∀ x ∈ l ++ r, some x ≠ a) (nodup : (l ++ r).Nodup) :
    Seg (Function.update link (last a l) (link (some b))) a (l ++ r) none := by
  induction l generalizing a with
  | nil =>
    rw [seg_first after]
    cases r with
    | nil => exact Function.update_self ..
    | cons y r =>
      refine ⟨Function.update_self .., seg_congr ?_ (fun x member => ?_) after.2⟩
      · exact Function.update_of_ne (fresh y (by simp)) _ _
      · exact Function.update_of_ne (fresh x (by simp [member])) _ _
  | cons y l ih =>
    obtain ⟨first, before⟩ := before
    rw [List.cons_append, List.nodup_cons] at nodup
    refine ⟨?_, ih before (fun x member same => ?_) nodup.2⟩
    · rw [Function.update_of_ne ?_, first]
      rcases last_mem (a := some y) (l := l) with same | ⟨x, member, eq⟩
      · rw [last, same]
        exact (fresh y (by simp)).symm
      · rw [last, eq]
        exact (fresh x (by simp [member])).symm
    · cases Option.some.inj same
      exact nodup.1 member

/-- A member is put in front. -/
theorem seg_front (seg : Seg link none l none) (fresh : b ∉ l) :
    Seg (Function.update (Function.update link (some b) (link none)) none (some b)) none (b :: l) none := by
  refine ⟨Function.update_self .., ?_⟩
  cases l with
  | nil =>
    show Function.update (Function.update link (some b) (link none)) none (some b) (some b) = none
    rw [Function.update_of_ne (by simp), Function.update_self]
    exact seg
  | cons y l =>
    refine ⟨?_, seg_congr ?_ (fun x member => ?_) seg.2⟩
    · rw [Function.update_of_ne (by simp), Function.update_self]
      exact seg.1
    · have apart : y ≠ b := fun same => fresh (by simp [same])
      rw [Function.update_of_ne (by simp), Function.update_of_ne (by simpa using apart)]
    · have apart : x ≠ b := fun same => fresh (by simp [← same, member])
      rw [Function.update_of_ne (by simp), Function.update_of_ne (by simpa using apart)]

/-- A member is put at the end. -/
theorem seg_back (seg : Seg link a l none) (fresh : b ∉ l) (apart : a ≠ some b)
    (new : ∀ x ∈ l, some x ≠ a) (nodup : l.Nodup) :
    Seg (Function.update (Function.update link (some b) none) (last a l) (some b)) a (l ++ [b]) none := by
  induction l generalizing a with
  | nil =>
    refine ⟨Function.update_self .., ?_⟩
    show Function.update (Function.update link (some b) none) a (some b) (some b) = none
    rw [Function.update_of_ne apart.symm, Function.update_self]
  | cons y l ih =>
    obtain ⟨first, seg⟩ := seg
    rw [List.nodup_cons] at nodup
    have apartY : y ≠ b := fun same => fresh (by simp [same])
    refine ⟨?_, ih seg (fun member => fresh (by simp [member])) (by simpa using apartY)
      (fun x member same => ?_) nodup.2⟩
    · rw [Function.update_of_ne ?_, Function.update_of_ne apart, first]
      rcases last_mem (a := some y) (l := l) with same | ⟨x, member, eq⟩
      · rw [last, same]
        exact (new y (by simp)).symm
      · rw [last, eq]
        exact (new x (by simp [member])).symm
    · cases Option.some.inj same
      exact nodup.1 member

namespace Through

variable {k : Links α} {order : List α}

theorem unlink (ring : k.Through (l ++ b :: r)) : (k.unlink b).Through (l ++ r) := by
  have nodup : (l ++ r).Nodup := ring.nodup.sublist (by simp)
  have back := ring.backward
  rw [List.reverse_append, List.reverse_cons, List.append_assoc, List.singleton_append, seg_append] at back
  have outside : b ∉ l ∧ b ∉ r := by
    have := ring.nodup
    rw [List.nodup_append, List.nodup_cons] at this
    exact ⟨fun member => this.2.2 b member b (by simp) rfl, this.2.1.1⟩
  have away : k.next (some b) ≠ some b := fun same => by
    rw [ring.next_some] at same
    exact outside.2 (List.mem_of_mem_head? same)
  have prevAt : Function.update k.prev (k.next (some b)) (k.prev (some b)) (some b) = k.prev (some b) :=
    Function.update_of_ne away.symm _ _
  refine ⟨?_, ?_, nodup⟩
  · show Seg (Function.update k.next (Function.update k.prev _ _ (some b)) _) none (l ++ r) none
    rw [prevAt, ring.prev_some, ← last_none]
    obtain ⟨before, after⟩ := seg_append.mp ring.forward
    exact seg_skip before after (by simp) nodup
  · show Seg (Function.update k.prev _ _) none (l ++ r).reverse none
    rw [ring.next_some, List.reverse_append, ← List.getLast?_reverse, ← last_none]
    exact seg_skip back.1 back.2 (by simp) (List.reverse_append ▸ List.nodup_reverse.mpr nodup)

theorem linkFirst (ring : k.Through order) (fresh : b ∉ order) : (k.linkFirst b).Through (b :: order) := by
  refine ⟨seg_front ring.forward fresh, ?_, List.nodup_cons.mpr ⟨fresh, ring.nodup⟩⟩
  show Seg (Function.update (Function.update k.prev (some b) none)
    (Function.update k.next (some b) (k.next none) none) (some b)) none (b :: order).reverse none
  rw [Function.update_of_ne (by simp), ring.next_none, List.reverse_cons,
    ← List.getLast?_reverse, ← last_none]
  exact seg_back ring.backward (by simpa using fresh) (by simp) (by simp) (by simpa using ring.nodup)

/-- Moving a member to the front. -/
theorem moveFirst (ring : k.Through order) (member : b ∈ order) :
    ((k.unlink b).linkFirst b).Through (b :: order.erase b) := by
  obtain ⟨l, r, rfl⟩ := List.append_of_mem member
  have outside : b ∉ l ∧ b ∉ r := by
    have := ring.nodup
    rw [List.nodup_append, List.nodup_cons] at this
    exact ⟨fun member => this.2.2 b member b (by simp) rfl, this.2.1.1⟩
  rw [List.erase_append_right _ outside.1, List.erase_cons_head]
  exact ring.unlink.linkFirst (by simp [outside])

end Through

end Surgery

end Links
