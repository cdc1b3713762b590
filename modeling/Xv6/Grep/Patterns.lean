import Xv6.Grep.Matcher

/-! The matcher finds what is in the language of the pattern. -/

namespace Xv6.Grep
open Computability

/-- A character, or any number of it; the dot is any character. -/
inductive Item where
  | one (c : UInt8)
  | many (c : UInt8)

namespace Item

/-- A character of a pattern stands for a character of a text. -/
def Stands (c t : UInt8) : Prop := c = dot ∨ c = t

def single (c : UInt8) : Language UInt8 := {w | ∃ t, w = [t] ∧ Stands c t}

def language : Item → Language UInt8
  | one c => single c
  | many c => (single c)∗

end Item

/-- The items of a pattern from left to right, and whether a dollar at its end ties it to the end of the text.
A star that follows no item and a dollar before the end are characters. -/
def items : List UInt8 → List Item × Bool
  | [] => ([], false)
  | [c] => if c = dollar then ([], true) else ([.one c], false)
  | c :: d :: re =>
    if d = star then (.many c :: (items re).1, (items re).2) else (.one c :: (items (d :: re)).1,
      (items (d :: re)).2)

def language (re : List UInt8) : Language UInt8 := ((items re).1.map Item.language).prod

/-- A substring of the text is in the language of the pattern: a prefix if the pattern starts with `^`, and a
suffix if it ends with `$`. -/
def Accepts (re text : List UInt8) : Prop :=
  let anchored := re.head? = some caret
  let re := if anchored then re.tail else re
  ∃ before w after, text = before ++ w ++ after ∧ w ∈ language re ∧ (anchored → before = []) ∧
    ((items re).2 → after = [])

section Patterns

variable {re text w : List UInt8} {c : UInt8} {P : List UInt8 → Prop}

theorem mem_many : w ∈ (Item.many c).language ↔ ∀ t ∈ w, Item.Stands c t := by
  rw [Item.language, Language.mem_kstar]
  constructor
  · rintro ⟨L, rfl, each⟩ t member
    obtain ⟨y, inside, here⟩ := List.mem_flatten.mp member
    obtain ⟨t', rfl, stands⟩ := each y inside
    rw [List.mem_singleton.mp here]
    exact stands
  · intro all
    refine ⟨w.map fun t => [t], ?_, fun y member => ?_⟩
    · induction w with
      | nil => rfl
      | cons t w ih =>
        rw [List.map_cons, List.flatten_cons, ← ih fun t' member => all t' (List.mem_cons_of_mem t member)]
        rfl
    · obtain ⟨t, inside, rfl⟩ := List.mem_map.mp member
      exact ⟨t, rfl, all t inside⟩

/-- A pattern is matched from the start of a text. -/
def Starts (re text : List UInt8) : Prop := ∃ w after, text = w ++ after ∧ w ∈ language re ∧
    ((items re).2 → after = [])

theorem starts_many {d : UInt8} (isStar : d = star) : Starts (c :: d :: re) text ↔
    ∃ w rest, text = w ++ rest ∧ (∀ t ∈ w, Item.Stands c t) ∧ Starts re rest := by
  unfold Starts language
  rw [items, if_pos isStar]
  simp only [List.map_cons, List.prod_cons, Language.mem_mul, mem_many]
  constructor
  · rintro ⟨_, after, rfl, ⟨v, all, u, rest, rfl⟩, last⟩
    exact ⟨v, u ++ after, List.append_assoc .., all, u, after, rfl, rest, last⟩
  · rintro ⟨v, _, rfl, all, u, after, rfl, rest, last⟩
    exact ⟨v ++ u, after, (List.append_assoc ..).symm, ⟨v, all, u, rest, rfl⟩, last⟩

theorem starts_one {d : UInt8} (notStar : d ≠ star) : Starts (c :: d :: re) text ↔
    ∃ t rest, text = t :: rest ∧ Item.Stands c t ∧ Starts (d :: re) rest := by
  unfold Starts language
  rw [items, if_neg notStar]
  simp only [List.map_cons, List.prod_cons, Language.mem_mul]
  constructor
  · rintro ⟨_, after, rfl, ⟨_, ⟨t, rfl, stands⟩, u, rest, rfl⟩, last⟩
    exact ⟨t, u ++ after, rfl, stands, u, after, rfl, rest, last⟩
  · rintro ⟨t, _, rfl, stands, u, after, rfl, rest, last⟩
    exact ⟨t :: u, after, rfl, ⟨[t], ⟨t, rfl, stands⟩, u, rest, rfl⟩, last⟩

theorem starts_nil : Starts [] text := ⟨[], text, rfl, rfl, nofun⟩

theorem starts_last : Starts [c] text ↔
    if c = dollar then text = [] else ∃ t rest, text = t :: rest ∧ Item.Stands c t := by
  unfold Starts language
  rw [items]
  split
  · constructor
    · rintro ⟨w, after, rfl, empty, last⟩
      rw [last rfl, List.append_nil]
      exact empty
    · rintro rfl
      exact ⟨[], [], rfl, rfl, fun _ => rfl⟩
  · constructor
    · rintro ⟨w, after, rfl, member, -⟩
      rw [List.map_cons, List.map_nil, List.prod_singleton] at member
      obtain ⟨t, rfl, stands⟩ := member
      exact ⟨t, after, rfl, stands⟩
    · rintro ⟨t, rest, rfl, stands⟩
      refine ⟨[t], rest, rfl, ?_, nofun⟩
      rw [List.map_cons, List.map_nil, List.prod_singleton]
      exact ⟨t, rfl, stands⟩

/-- `matchstar` tries the rest of the pattern after each number of the character. -/
theorem matchstar_iff (here : ∀ text, matchhere re text = true ↔ P text) (text : List UInt8) :
    matchstar c re text = true ↔ ∃ w rest, text = w ++ rest ∧ (∀ t ∈ w, Item.Stands c t) ∧ P rest := by
  induction text with
  | nil =>
    rw [matchstar]
    constructor
    · intro found
      split at found
      next matched => exact ⟨[], [], rfl, List.forall_mem_nil _, (here []).mp matched⟩
      next => cases found
    · rintro ⟨w, rest, empty, -, matched⟩
      obtain ⟨rfl, rfl⟩ := List.append_eq_nil_iff.mp empty.symm
      rw [if_pos ((here []).mpr matched)]
  | cons t text ih =>
    rw [matchstar]
    constructor
    · intro found
      split at found
      next matched => exact ⟨[], t :: text, rfl, List.forall_mem_nil _, (here _).mp matched⟩
      next =>
        split at found
        next stands =>
          obtain ⟨w, rest, rfl, all, matched⟩ := ih.mp found
          refine ⟨t :: w, rest, rfl, fun t' member => ?_, matched⟩
          rcases List.mem_cons.mp member with rfl | later
          · exact stands.elim (fun same => .inr same.symm) .inl
          · exact all t' later
        next => cases found
    · rintro ⟨w, rest, text_eq, all, matched⟩
      cases w with
      | nil =>
        rw [List.nil_append] at text_eq
        rw [if_pos ((here _).mpr (text_eq ▸ matched))]
      | cons t' w =>
        obtain ⟨rfl, rfl⟩ := List.cons.inj text_eq
        have stands := all t (List.mem_cons_self ..)
        have later := ih.mpr ⟨w, rest, rfl, fun t' member => all t' (List.mem_cons_of_mem t member), matched⟩
        split
        · rfl
        · rw [if_pos (stands.elim .inr fun same => .inl same.symm), later]

theorem matchhere_cons (c : UInt8) (re text : List UInt8) : matchhere (c :: re) text =
    if re.head? = some star then matchstar c re.tail text
    else if c = dollar ∧ re = [] then text.isEmpty
    else match text with
      | [] => false
      | t :: text => if c = dot ∨ c = t then matchhere re text else false :=
  matchhere.eq_def (c :: re) text

theorem matchhere_iff (re text : List UInt8) : matchhere re text = true ↔ Starts re text := by
  induction re using items.induct generalizing text with
  | case1 =>
    rw [matchhere]
    exact iff_of_true rfl starts_nil
  | case2 =>
    rw [matchhere_cons, starts_last, if_neg (by simp), if_pos ⟨rfl, rfl⟩, if_pos rfl]
    exact List.isEmpty_iff
  | case3 c notDollar =>
    rw [matchhere_cons, starts_last, if_neg (by simp),
      if_neg (fun last => notDollar last.1), if_neg notDollar]
    cases text with
    | nil => simp
    | cons t rest => simp [matchhere, Item.Stands]
  | case4 c re ih =>
    rw [matchhere_cons, starts_many rfl, if_pos List.head?_cons]
    exact matchstar_iff ih text
  | case5 c d re notStar ih =>
    rw [matchhere_cons, starts_one notStar, if_neg (by simpa using notStar), if_neg (by simp)]
    cases text with
    | nil => simp
    | cons t rest => simp [ih, Item.Stands]

theorem matchAny_iff (re text : List UInt8) :
    matchAny re text = true ↔ ∃ before rest, text = before ++ rest ∧ Starts re rest := by
  induction text with
  | nil =>
    rw [matchAny, matchhere_iff]
    constructor
    · exact fun found => ⟨[], [], rfl, found⟩
    · rintro ⟨before, rest, empty, found⟩
      obtain ⟨rfl, rfl⟩ := List.append_eq_nil_iff.mp empty.symm
      exact found
  | cons t text ih =>
    rw [matchAny]
    constructor
    · intro found
      split at found
      next here => exact ⟨[], t :: text, rfl, (matchhere_iff ..).mp here⟩
      next =>
        obtain ⟨before, rest, rfl, later⟩ := ih.mp found
        exact ⟨t :: before, rest, rfl, later⟩
    · rintro ⟨before, rest, text_eq, found⟩
      cases before with
      | nil =>
        rw [List.nil_append] at text_eq
        rw [if_pos ((matchhere_iff ..).mpr (text_eq ▸ found))]
      | cons t' before =>
        obtain ⟨rfl, rfl⟩ := List.cons.inj text_eq
        have later := ih.mpr ⟨before, rest, rfl, found⟩
        split
        · rfl
        · exact later

/-- `match` answers 1 just when the text has a substring in the language of the pattern. -/
theorem matchText_iff (re text : List UInt8) : matchText re text = true ↔ Accepts re text := by
  cases re with
  | nil =>
    rw [matchText, matchAny_iff]
    constructor
    · rintro ⟨before, rest, text_eq, w, after, rfl, member, last⟩
      exact ⟨before, w, after, by rw [text_eq, List.append_assoc], member, fun first => (by cases first), last⟩
    · rintro ⟨before, w, after, text_eq, member, -, last⟩
      exact ⟨before, w ++ after, by rw [text_eq, List.append_assoc], w, after, rfl, member, last⟩
  | cons c re =>
    rw [matchText]
    by_cases anchored : c = caret
    · subst anchored
      rw [if_pos rfl, matchhere_iff]
      constructor
      · rintro ⟨w, after, text_eq, member, last⟩
        exact ⟨[], w, after, text_eq, member, fun _ => rfl, last⟩
      · rintro ⟨before, w, after, text_eq, member, first, last⟩
        rw [first rfl] at text_eq
        exact ⟨w, after, text_eq, member, last⟩
    · have free : ¬ (c :: re).head? = some caret := fun first => anchored (Option.some.inj first)
      rw [if_neg anchored, matchAny_iff, Accepts, if_neg free]
      constructor
      · rintro ⟨before, rest, text_eq, w, after, rfl, member, last⟩
        exact ⟨before, w, after, by rw [text_eq, List.append_assoc], member, fun first => absurd first free, last⟩
      · rintro ⟨before, w, after, text_eq, member, -, last⟩
        exact ⟨before, w ++ after, by rw [text_eq, List.append_assoc], w, after, rfl, member, last⟩

end Patterns

end Xv6.Grep
