import Xv6.Itable.Machine
import Mathlib.Tactic.ByContra

namespace Xv6.Itable
open Threads Function

/-- What holds of an entry: of its inode, the processes that point to it, its stage, whether it has been
changed since the last `iupdate`, and of the inode on disk that it stands for. -/
structure SlotOk (i : Inode) (users : List Pid) (stage : Stage) (dirty : Bool) (disk : Dinode) (named : Bool)
    (claimed : Option (Pid × Nat)) : Prop where
  refs : i.ref = users.length
  locker : ∀ t, i.locked = some t → t ∈ users
  owner : ∀ t, stage.owner = some t → users.count t = 1
  doomed : ∀ t, stage = .doomed t → users = [t] ∧ i.valid = true ∧ i.attr.nlink = 0 ∧
    (i.locked = none → i.attr.type ≠ 0)
  gone : ∀ t, stage = .gone t → i.locked = some t ∧ i.valid = true ∧ i.attr.nlink = 0
  changed : dirty = true → i.locked ≠ none ∧ i.valid = true ∧ stage.quiet = true
  read : users ≠ [] → i.valid = true → stage.quiet = true →
    i.attr.type ≠ 0 ∧ i.attr.type = disk.type ∧ (dirty = false → i.attr = disk)
  alive : ∀ t ∈ users, disk.type ≠ 0 ∨ stage = .gone t ∨ stage = .dead t
  linked : named = true → users ≠ [] → i.valid = true → i.attr.nlink ≠ 0
  unread : ∀ t type, claimed = some (t, type) → users ≠ [] → (i.valid = false ∨ ∃ u, stage = .gone u) ∧
    ∀ u ∈ users, u = t ∨ stage = .gone u ∨ stage = .dead u

/-- What holds of an inode on disk. -/
structure KeyOk (disk : Dinode) (named : Bool) (claimed : Option (Pid × Nat)) : Prop where
  linked : named = true → claimed = none ∧ disk.type ≠ 0
  unread : ∀ t type, claimed = some (t, type) → type ≠ 0 ∧ disk = fresh type

/-- An inode that an entry of a directory names has links on disk, or somebody is to write them. -/
def ItState.Linked (s : ItState) (k : Key) : Prop :=
  s.named k = true → (s.disk k).nlink ≠ 0 ∨ ∃ b, (s.inode b).key = k ∧ s.dirty b = true

/-- What holds of the inode table between any two steps. -/
structure ItInv (s : ItState) : Prop where
  unique : ∀ a b, s.users a ≠ [] → s.users b ≠ [] → (s.inode a).key = (s.inode b).key → a = b
  slot : ∀ b, SlotOk (s.inode b) (s.users b) (s.stage b) (s.dirty b) (s.disk (s.inode b).key)
    (s.named (s.inode b).key) (s.claimed (s.inode b).key)
  key : ∀ k, KeyOk (s.disk k) (s.named k) (s.claimed k)
  linked : ∀ k, s.Linked k

/-- What a process may rely on between its steps: whether it holds `itable.lock`, its pointers with the
inodes they stand for, what it sees of the entries it has locked (whether they are valid, their fields, and
whether it has changed them), the stages of its `iput`, and the inodes it has allocated and not yet read. -/
@[ext] structure ItView extends Handles Slot Key (Bool × Dinode × Bool) where
  table : Bool
  stage : Slot → Stage
  claimed : Key → Option Nat

def ItState.view (t : Pid) (s : ItState) : ItView where
  mine b := (s.users b).count t
  key b := if t ∈ s.users b then some (s.inode b).key else none
  held b := if (s.inode b).locked = some t then some ((s.inode b).valid, (s.inode b).attr,
    s.dirty b) else none
  table := s.lock = some t
  stage b := if (s.stage b).owner = some t then s.stage b else .normal
  claimed k := if (s.claimed k).map Prod.fst = some t then (s.claimed k).map Prod.snd else none

/-- What is owed before a step: the fields of the table are used under `itable.lock`, `acquiresleep` under it
does not wait, the type of an inode is cleared on disk only by an `iput` that has seen the last pointer, and
a process that reads an inode it has allocated finds what `ialloc` has written. -/
def ItState.Owed (t : Pid) (s : ItState) : ItAct → Prop
  | .find _ => s.lock = some t
  | .incRef _ => s.lock = some t
  | .isLast _ => s.lock = some t
  | .decRef _ => s.lock = some t
  | .acquiresleep ip => s.lock = some t → (s.inode ip).locked = none
  | .iupdate ip => (s.inode ip).attr.type = 0 → s.stage ip = .doomed t
  | .load ip => ∀ type, s.claimed (s.inode ip).key = some (t, type) →
      (s.inode ip).valid = false ∧ s.disk (s.inode ip).key = fresh type
  | _ => True

def itOutline : Outline Pid ItState ItView ItAct where
  inv := ItInv
  view := ItState.view
  guar t before after := ∀ other, other ≠ t → after.view other = before.view other
  allowed t a s := s.Allowed t a
  owes t a s := s.Owed t a
  mayPanic _ _ _ message := message = "iget: no inodes"

theorem itOutline_isolated : itOutline.Isolated := fun _ _ _ h => h

variable {s : ItState} {t : Pid} {v : ItView} {ip : Slot}

/-- An entry without pointers says nothing about the inode it stood for. -/
theorem SlotOk.idle {i : Inode} {stage : Stage} {dirty : Bool} {d d' : Dinode} {n n' : Bool}
    {c c' : Option (Pid × Nat)} (h : SlotOk i [] stage dirty d n c) : SlotOk i [] stage dirty d' n' c' :=
  ⟨h.refs, h.locker, h.owner, h.doomed, h.gone, h.changed, fun busy => absurd rfl busy,
    fun _ none => (by cases none),
    fun _ busy => absurd rfl busy, fun _ _ _ busy => absurd rfl busy⟩

/-- An entry without pointers is not locked, not changed and in no stage. -/
theorem SlotOk.unused {i : Inode} {stage : Stage} {dirty : Bool} {d : Dinode} {n : Bool}
    {c : Option (Pid × Nat)}
    (h : SlotOk i [] stage dirty d n c) : i.locked = none ∧ dirty = false ∧ stage = .normal := by
  have unlocked : i.locked = none := by
    cases locked : i.locked with
    | none => rfl
    | some t => cases h.locker t locked
  refine ⟨unlocked, ?_, ?_⟩
  · rw [← Bool.not_eq_true]
    exact fun changed => (h.changed changed).1 unlocked
  · cases stage with
    | normal => rfl
    | doomed t => cases h.owner t rfl
    | gone t => cases h.owner t rfl
    | dead t => cases h.owner t rfl

/-- A step changes one entry and the inode that it stands for. -/
theorem ItInv.change {s' : ItState} (h : ItInv s) {k : Key} (old : s.users ip ≠ [] → (s.inode ip).key = k)
    (others : ∀ b, b ≠ ip → s'.inode b = s.inode b ∧ s'.users b = s.users b ∧ s'.stage b = s.stage b ∧
      s'.dirty b = s.dirty b)
    (keys : ∀ k', k' ≠ k → s'.disk k' = s.disk k' ∧ s'.named k' = s.named k' ∧ s'.claimed k' = s.claimed k')
    (now : (s'.inode ip).key = k) (alone : ∀ b, b ≠ ip → s.users b ≠ [] → (s.inode b).key ≠ k)
    (slot : SlotOk (s'.inode ip) (s'.users ip) (s'.stage ip) (s'.dirty ip) (s'.disk k)
      (s'.named k) (s'.claimed k))
    (key : KeyOk (s'.disk k) (s'.named k) (s'.claimed k)) (linked : s'.Linked k) : ItInv s' := by
  refine ⟨fun a b usedA usedB same => ?_, fun b => ?_, fun k' => ?_, fun k' => ?_⟩
  · by_cases atA : a = ip
    · by_cases atB : b = ip
      · rw [atA, atB]
      · obtain ⟨inode, users, _⟩ := others b atB
        rw [users] at usedB
        rw [atA, now, inode] at same
        exact absurd same.symm (alone b atB usedB)
    · obtain ⟨inodeA, usersA, _⟩ := others a atA
      rw [usersA] at usedA
      by_cases atB : b = ip
      · rw [atB, now, inodeA] at same
        exact absurd same (alone a atA usedA)
      · obtain ⟨inodeB, usersB, _⟩ := others b atB
        rw [usersB] at usedB
        rw [inodeA, inodeB] at same
        exact h.unique a b usedA usedB same
  · by_cases at' : b = ip
    · rw [at', now]
      exact slot
    · obtain ⟨inode, users, stage, dirty⟩ := others b at'
      rw [inode, users, stage, dirty]
      have before := h.slot b
      by_cases busy : s.users b = []
      · rw [busy] at before ⊢
        exact before.idle
      · obtain ⟨disk, named, claimed⟩ := keys _ (alone b at' busy)
        rw [disk, named, claimed]
        exact before
  · by_cases same : k' = k
    · rw [same]
      exact key
    · obtain ⟨disk, named, claimed⟩ := keys k' same
      rw [disk, named, claimed]
      exact h.key k'
  · by_cases same : k' = k
    · rw [same]
      exact linked
    · obtain ⟨disk, named, _⟩ := keys k' same
      unfold ItState.Linked
      rw [disk, named]
      intro isNamed
      rcases h.linked k' isNamed with links | ⟨b, atB, changed⟩
      · exact .inl links
      · right
        have busy : s.users b ≠ [] := by
          intro none
          have idle := h.slot b
          rw [none] at idle
          rw [idle.unused.2.1] at changed
          cases changed
        have apart : b ≠ ip := by
          rintro rfl
          exact same (atB.symm.trans (old busy))
        obtain ⟨inode, _, _, dirty⟩ := others b apart
        exact ⟨b, by rw [inode, atB], by rw [dirty, changed]⟩

/-- A step changes one entry that a process points to, and the inode that it stands for. -/
theorem ItInv.changeUsed {s' : ItState} (h : ItInv s) (used : s.users ip ≠ [])
    (others : ∀ b, b ≠ ip → s'.inode b = s.inode b ∧ s'.users b = s.users b ∧ s'.stage b = s.stage b ∧
      s'.dirty b = s.dirty b)
    (keys : ∀ k', k' ≠ (s.inode ip).key → s'.disk k' = s.disk k' ∧ s'.named k' = s.named k' ∧
      s'.claimed k' = s.claimed k')
    (now : (s'.inode ip).key = (s.inode ip).key)
    (slot : SlotOk (s'.inode ip) (s'.users ip) (s'.stage ip) (s'.dirty ip) (s'.disk (s.inode ip).key)
      (s'.named (s.inode ip).key) (s'.claimed (s.inode ip).key))
    (key : KeyOk (s'.disk (s.inode ip).key) (s'.named (s.inode ip).key) (s'.claimed (s.inode ip).key))
    (linked : s'.Linked (s.inode ip).key) : ItInv s' :=
  h.change (fun _ => rfl) others keys now (fun b apart busy same =>
    apart (h.unique b ip busy used same)) slot key linked

/-- A step that stores one entry and leaves the disk alone. -/
theorem ItInv.put (h : ItInv s) {new : Inode} {users : List Pid} {stage : Stage} {dirty : Bool}
    (used : s.users ip ≠ []) (now : new.key = (s.inode ip).key)
    (slot : SlotOk new users stage dirty (s.disk (s.inode ip).key) (s.named (s.inode ip).key)
      (s.claimed (s.inode ip).key))
    (still : s.dirty ip = true → dirty = true) : ItInv (s.put ip new users stage dirty) := by
  refine h.changeUsed used (fun b apart => ?_) (fun _ _ => ⟨rfl, rfl, rfl⟩) ?_ ?_ (h.key _) ?_
  · simp [ItState.put, apart]
  · simp [ItState.put, now]
  · simpa [ItState.put] using slot
  · intro isNamed
    rcases h.linked _ isNamed with links | ⟨b, atB, changed⟩
    · exact .inl links
    · right
      by_cases same : b = ip
      · subst same
        exact ⟨b, by simp [ItState.put, now], by simpa [ItState.put] using still changed⟩
      · exact ⟨b, by simpa [ItState.put, same] using atB, by simpa [ItState.put, same] using changed⟩

/-- Other processes do not see a step that keeps what they hold of one entry. -/
theorem ItState.put_view {q : Pid} {new : Inode} {users : List Pid} {stage : Stage} {dirty : Bool}
    (count : users.count q = (s.users ip).count q) (key : q ∈ s.users ip → new.key = (s.inode ip).key)
    (held : new.locked = some q ∨ (s.inode ip).locked = some q →
      new.locked = (s.inode ip).locked ∧ new.valid = (s.inode ip).valid ∧ new.attr = (s.inode ip).attr ∧
        dirty = s.dirty ip)
    (own : stage.owner = some q ∨ (s.stage ip).owner = some q → stage = s.stage ip) :
    (s.put ip new users stage dirty).view q = s.view q := by
  have member : q ∈ users ↔ q ∈ s.users ip := by
    rw [← List.count_pos_iff, count, List.count_pos_iff]
  refine ItView.ext (funext fun b => ?_) (funext fun b => ?_) (funext fun b => ?_) rfl
    (funext fun b => ?_) rfl
  all_goals by_cases same : b = ip
  all_goals simp only [ItState.view, ItState.put, same, update_self, ne_eq, not_false_eq_true, update_of_ne]
  · exact count
  · by_cases mine : q ∈ s.users ip
    · rw [if_pos (member.mpr mine), if_pos mine, key mine]
    · rw [if_neg fun now => mine (member.mp now), if_neg mine]
  · by_cases locks : new.locked = some q ∨ (s.inode ip).locked = some q
    · obtain ⟨locked, valid, attr, changed⟩ := held locks
      rw [locked, valid, attr, changed]
    · rw [if_neg fun eq => locks (.inl eq), if_neg fun eq => locks (.inr eq)]
  · by_cases owns : stage.owner = some q ∨ (s.stage ip).owner = some q
    · rw [own owns]
    · rw [if_neg fun eq => owns (.inl eq), if_neg fun eq => owns (.inr eq)]

end Xv6.Itable
