import Xv6.Log.Invariant

namespace Xv6
open Threads

namespace BufView

def take (v : BufView) (b : BufId) (n : Nat) : BufView := { v with toHandles := v.toHandles.take b n }

def hold (v : BufView) (b : BufId) (x : Option (Bool × Block × Bool)) : BufView :=
  { v with toHandles := v.toHandles.hold b x }

def drop (v : BufView) (b : BufId) : BufView := { v with toHandles := v.toHandles.drop b }

/-- The view after `bread`. -/
def get (v : BufView) (b : BufId) (n : Nat) (d : Block) (dirty : Bool) : BufView :=
  { v with toHandles := v.toHandles.get b n (true, d, dirty) }

/-- The view after `brelse`. -/
def release (v : BufView) (b : BufId) : BufView := { v with toHandles := v.toHandles.release b }

def see (v : BufView) (c : Seen) : BufView := { v with sees := some c }

section Buffers

variable {v : BufView} {a b : BufId} {n m : Nat} {d e : Block} {dirty : Bool}

@[simp] theorem get_handles : (v.get b n d dirty).toHandles = v.toHandles.get b n (true, d, dirty) := rfl

@[simp] theorem get_hold {d' : Block} {dirty' : Bool} :
    (v.get b n d dirty).hold b (some (true, d', dirty')) = v.get b n d' dirty' := by simp [get, hold]

theorem get_get_hold (apart : b ≠ a) {d' : Block} {dirty' dirty'' : Bool} :
    ((v.get a n d dirty).get b m e dirty').hold a (some (true, d', dirty'')) =
      (v.get a n d' dirty'').get b m e dirty' := by
  simp [get, hold, Handles.get_get_hold apart]

@[simp] theorem get_fixed : (v.get b n d dirty).op = v.op ∧ (v.get b n d dirty).owner = v.owner ∧
    (v.get b n d dirty).recovering = v.recovering ∧ (v.get b n d dirty).start = v.start ∧
    (v.get b n d dirty).size = v.size ∧ (v.get b n d dirty).sees = v.sees := ⟨rfl, rfl, rfl, rfl, rfl, rfl⟩

@[simp] theorem get_see {c : Seen} : (v.get b n d dirty).see c = (v.see c).get b n d dirty := rfl

@[simp] theorem see_see {c c' : Seen} : (v.see c).see c' = v.see c' := rfl

@[simp] theorem see_fixed {c : Seen} : (v.see c).toHandles = v.toHandles ∧
    (v.see c).op = v.op ∧ (v.see c).owner = v.owner ∧
    (v.see c).recovering = v.recovering ∧ (v.see c).start = v.start ∧ (v.see c).size = v.size :=
  ⟨rfl, rfl, rfl, rfl, rfl, rfl⟩

@[simp] theorem see_sees {c : Seen} : (v.see c).sees = some c := rfl

theorem see_self {c : Seen} (sees : v.sees = some c) : v.see c = v := by
  rw [see, ← sees]

/-- Giving a buffer back undoes taking it. -/
theorem get_release (free : v.held b = none) (key : v.key b = if v.mine b = 0 then none else some n) :
    (v.get b n d dirty).release b = v := by
  simp [get, release, Handles.get_release free key]

theorem get_get_release (apart : b ≠ a) {dirty' : Bool} (free : v.held a = none)
    (key : v.key a = if v.mine a = 0 then none else some n) :
    ((v.get a n d dirty).get b m e dirty').release a = v.get b m e dirty' := by
  simp [get, release, Handles.get_get_release apart free key]

end Buffers

end BufView

namespace Seen

def content (c : Seen) (n : Nat) : Block := if n ∈ c.pinned then c.logged n else c.disk n

/-- The effect of `log_write` on a block with these bytes. -/
def logWrite (c : Seen) (n : Nat) (d : Block) : Seen :=
  { c with
    lh := if n ∈ c.lh then c.lh else c.lh ++ [n]
    pinned := if n ∈ c.lh then c.pinned else c.pinned ++ [n]
    logged := Function.update c.logged n d }

end Seen

namespace LogState

variable {s : LogState} {solo : Bool} {t : Pid} {b : BufId}

theorem view_mine_pos : 0 < (s.view solo t).mine b ↔ t ∈ s.users b := List.count_pos_iff

theorem view_held {x : Bool × Block × Bool} (held : (s.view solo t).held b = some x) :
    (s.buf b).locked = some t ∧ x = ((s.buf b).valid, (s.buf b).data, s.dirty b) := by
  simp only [view] at held
  split at held
  · next locked => exact ⟨locked, (Option.some.inj held).symm⟩
  · cases held

theorem view_key {n : Nat} (key : (s.view solo t).key b = some n) :
    t ∈ s.users b ∧ (s.buf b).blockno = n := by
  simp only [view] at key
  split at key
  · next inside => exact ⟨inside, Option.some.inj key⟩
  · cases key

theorem view_sees {c : Seen} (sees : (s.view solo t).sees = some c) : c = s.seen := by
  simp only [view] at sees
  split at sees
  · exact (Option.some.inj sees).symm
  · cases sees

theorem view_owner : (s.view solo t).owner = true ↔ s.owner = some t := by simp [view]

theorem view_recovering (owner : s.owner = some t) : (s.view solo t).recovering = s.recovering := by
  simp [view, owner]

theorem view_sees_of_owner (owner : s.owner = some t) : (s.view solo t).sees = some s.seen := by
  simp [view, owner]

end LogState

section Steps

variable {solo : Bool} {crashable : (Nat → Block) → Prop} {t : Pid} {v : BufView} {b : BufId} {n : Nat}
  {d : Block}

/-- A step that owes nothing, judged by its result. -/
theorem bufStep_wp {a : BufAct} {Q : a.Resp → BufView → Prop} (free : ∀ s : LogState, s.Owed t a)
    (h : ∀ s c, BufInv s → crashable s.disk → s.view solo t = v →
      (bufOutline solo crashable).After t a s Q (bufMachine t c a s)) :
    wp bufMachine (bufOutline solo crashable) t a.run Q v :=
  wp_step fun s c inv view => ⟨free s, fun _ => h s c inv.1 inv.2 view⟩

/-- The outcome of a step that stores one buffer. -/
theorem after_put {a : BufAct} {r : a.Resp} {Q : a.Resp → BufView → Prop} {s : LogState} {new : Buf}
    {users : List Pid} {dirty : Bool} (safe : crashable s.disk) (inv : BufInv (s.put b new users dirty))
    (mine : ∀ other, other ≠ t → users.count other = (s.users b).count other)
    (key : ∀ other, other ≠ t → other ∈ s.users b → new.blockno = (s.buf b).blockno)
    (locked : ∀ other, other ≠ t → (new.locked = some other ↔ (s.buf b).locked = some other))
    (held : ∀ other, other ≠ t → (s.buf b).locked = some other →
      new.valid = (s.buf b).valid ∧ new.data = (s.buf b).data ∧ dirty = s.dirty b)
    (post : Q r { s.view solo t with
      mine := Function.update (s.view solo t).mine b (users.count t)
      key := Function.update (s.view solo t).key b (if t ∈ users then some new.blockno else none)
      held := Function.update (s.view solo t).held b
        (if new.locked = some t then some (new.valid, new.data, dirty) else none) }) :
    (bufOutline solo crashable).After t a s Q (.ok r (s.put b new users dirty)) := by
  refine ⟨⟨inv, safe⟩, fun _ other different => ?_, ?_⟩
  · exact LogState.view_put_other rfl rfl rfl (mine other different) (key other different)
      (locked other different) (held other different) rfl Iff.rfl Iff.rfl ⟨rfl, rfl⟩ (fun _ => rfl)
  · rw [← LogState.view_put] at post
    exact post

theorem bget_wp {Q : BufId → BufView → Prop}
    (h : ∀ b, v.key b = (if v.mine b = 0 then none else some n) → Q b (v.take b n)) :
    wp bufMachine (bufOutline solo crashable) t (BufAct.bget ROOTDEV n).run Q v := by
  refine bufStep_wp (fun _ => trivial) fun s _ inv safe view => ?_
  subst view
  simp only [bufMachine, LogState.bget]
  split
  · next b found =>
    obtain ⟨dev, blockno⟩ := LogState.lookup_some found
    have refs := inv.refs b
    refine after_put safe ?_ (fun other different => ?_) (fun _ _ _ => rfl) (fun _ _ => Iff.rfl)
      (fun _ _ _ => ⟨rfl, rfl, rfl⟩) ?_
    · exact inv.put b _ _ _ (fun x atX devX dev => inv.alone x atX devX dev)
        (by simp only [List.length_cons]; omega) (fun _ _ => dev)
        (fun u locked => List.mem_cons_of_mem _ (inv.locker b u locked))
        (fun dev pinned => ⟨dev, rfl, inv.valid_of_pinned dev pinned⟩) (inv.coherent b) (inv.dirtyLocked b)
    · simp [Ne.symm different]
    · convert h b ?_ using 1
      · simp [LogState.view, BufView.take, Handles.take, blockno]
      · simp only [LogState.view, List.count_eq_zero]
        split <;> simp_all
  · next missing =>
    split
    · next b found =>
      have free := LogState.lru_some found
      obtain ⟨users, unpinned, unlocked, clean⟩ := inv.unreferenced free
      have absent := LogState.lookup_none inv.ring missing
      have fresh : n ∉ s.pinned := fun pinned => by
        obtain ⟨x, dev, blockno, _⟩ := inv.cached n pinned
        exact absent x ⟨dev, blockno⟩
      refine after_put safe ?_ (fun other different => ?_) (fun other _ => by simp [users])
        (fun _ _ => Iff.rfl) (fun other _ => by simp [unlocked]) ?_
      · exact inv.put b _ _ _ (fun x _ devX _ same => absent x ⟨devX, same⟩)
          (by simp [users, fresh]) (fun _ _ => rfl) (by simp [unlocked])
          (fun dev pinned => absurd ⟨dev, pinned⟩ unpinned) (by simp) (by simp [clean])
      · simp [Ne.symm different]
      · convert h b (by simp [LogState.view, users]) using 1
        simp [LogState.view, BufView.take, Handles.take, users, unlocked]
    · exact List.mem_cons_self ..

theorem acquiresleep_wp {Q : Unit → BufView → Prop} (key : v.key b = some n)
    (h : v.held b = none → ∀ valid d, (∀ c, v.sees = some c →
      (n ∈ c.pinned → valid = true) ∧ (valid = true → d = c.content n)) →
      Q () (v.hold b (some (valid, d, false)))) :
    wp bufMachine (bufOutline solo crashable) t (BufAct.acquiresleep b).run Q v := by
  refine bufStep_wp (fun _ => trivial) fun s _ inv safe view => ?_
  subst view
  obtain ⟨mine, blockno⟩ := LogState.view_key key
  have dev := inv.device b t mine
  simp only [bufMachine]
  split
  · trivial
  · next free =>
    have unlocked : (s.buf b).locked = none := by simpa using free
    have clean : s.dirty b = false := by
      by_contra dirty
      obtain ⟨_, u, locked, _⟩ := inv.dirtyLocked b (by simpa using dirty)
      simp [unlocked] at locked
    refine after_put safe ?_ (fun _ _ => rfl) (fun _ _ _ => rfl) (fun other different => ?_)
      (fun other _ => by simp [unlocked]) ?_
    · exact inv.put b _ _ _ (fun x atX devX dev => inv.alone x atX devX dev) (inv.refs b)
        (fun _ _ => dev) (by rintro u ⟨⟩; exact mine)
        (fun dev pinned => ⟨dev, rfl, inv.valid_of_pinned dev pinned⟩) (inv.coherent b)
        (by simp [clean])
    · simp [unlocked, Ne.symm different]
    · convert h (by simp [LogState.view, unlocked]) (s.buf b).valid (s.buf b).data ?_ using 1
      · simp [LogState.view, BufView.hold, Handles.hold, mine, clean]
      · intro c sees
        rw [LogState.view_sees sees, ← blockno]
        exact ⟨inv.valid_of_pinned dev, fun valid => inv.coherent b dev valid clean⟩

theorem fill_wp {Q : Unit → BufView → Prop} (valid : Bool) (held : v.held b = some (valid, d, false))
    (key : v.key b = some n)
    (h : ∀ d', (valid = true → d' = d) → (∀ c, v.sees = some c → valid = false → d' = c.disk n) →
      Q () (v.hold b (some (true, d', false)))) :
    wp bufMachine (bufOutline solo crashable) t (BufAct.fill b).run Q v := by
  refine bufStep_wp (fun _ => trivial) fun s _ inv safe view => ?_
  subst view
  obtain ⟨mine, blockno⟩ := LogState.view_key key
  obtain ⟨locked, same⟩ := LogState.view_held held
  obtain ⟨rfl, rfl, clean⟩ := by simpa using same
  have dev := inv.device b t mine
  simp only [bufMachine, LogState.fill]
  split
  · next valid =>
    refine ⟨⟨inv, safe⟩, fun _ _ _ => rfl, ?_⟩
    convert h (s.buf b).data (fun _ => rfl) (by simp [valid]) using 1
    simp [bufOutline, LogState.view, BufView.hold, Handles.hold, locked, valid, ← clean]
  · next invalid =>
    have unpinned : (s.buf b).blockno ∉ s.pinned := fun pinned =>
      invalid (inv.valid_of_pinned dev pinned)
    refine after_put safe ?_ (fun _ _ => rfl) (fun _ _ _ => rfl) (fun _ _ => Iff.rfl) ?_ ?_
    · exact inv.put b _ _ _ (fun x atX devX dev => inv.alone x atX devX dev) (inv.refs b)
        (fun _ _ => dev) (fun u => inv.locker b u) (fun _ pinned => absurd pinned unpinned)
        (fun _ _ _ => by simp [LogState.content, unpinned]) (by simp [← clean])
    · intro other different lockedOther
      rw [locked] at lockedOther
      exact absurd (Option.some.inj lockedOther).symm different
    · convert h (s.disk (s.buf b).blockno) (fun valid => absurd valid invalid)
        (fun c sees _ => ?_) using 1
      · simp [LogState.view, BufView.hold, Handles.hold, mine, locked, ← clean]
      · rw [LogState.view_sees sees, ← blockno]
        rfl

theorem bread_wp {Q : BufId → BufView → Prop}
    (h : ∀ b d, v.held b = none → v.key b = (if v.mine b = 0 then none else some n) →
      (∀ c, v.sees = some c → d = c.content n) → Q b (v.get b n d false)) :
    wp bufMachine (bufOutline solo crashable) t (bread n) Q v := by
  refine wp_bind (bget_wp fun b key => ?_)
  refine wp_bind (acquiresleep_wp (n := n) (by simp [BufView.take, Handles.take])
    fun free valid d known => ?_)
  refine wp_bind (fill_wp valid (d := d) (n := n) (by simp [BufView.hold, Handles.hold])
    (by simp [BufView.hold, Handles.hold, BufView.take, Handles.take]) fun d' same read => wp_pure.mpr ?_)
  convert h b d' free key ?_ using 1
  · simp [BufView.get, BufView.hold, BufView.take, Handles.get, Handles.hold]
  · intro c sees
    obtain ⟨pinnedValid, content⟩ := known c sees
    cases valid with
    | true => rw [same rfl, content rfl]
    | false =>
      have unpinned : n ∉ c.pinned := fun pinned => by simpa using pinnedValid pinned
      rw [read c sees rfl, Seen.content, if_neg unpinned]

theorem data_wp {Q : Block → BufView → Prop} (valid dirty : Bool)
    (held : v.held b = some (valid, d, dirty)) (h : Q d v) :
    wp bufMachine (bufOutline solo crashable) t (BufAct.data b).run Q v := by
  refine bufStep_wp (fun _ => trivial) fun s _ inv safe view => ⟨⟨inv, safe⟩, fun _ _ _ => rfl, ?_⟩
  subst view
  obtain ⟨_, same⟩ := LogState.view_held held
  obtain ⟨_, rfl, _⟩ := by simpa using same
  exact h

theorem modify_wp {Q : Unit → BufView → Prop} (old : Block) (dirty : Bool)
    (held : v.held b = some (true, old, dirty)) (runs : 0 < v.op ∨ v.owner = true)
    (h : Q () (v.hold b (some (true, d, true)))) :
    wp bufMachine (bufOutline solo crashable) t (BufAct.modify b d).run Q v := by
  refine bufStep_wp (fun _ => trivial) fun s _ inv safe view => ?_
  subst view
  obtain ⟨locked, same⟩ := LogState.view_held held
  have valid : (s.buf b).valid = true := (Prod.mk.inj same).1.symm
  have mine := inv.locker b t locked
  have dev := inv.device b t mine
  refine after_put safe ?_ (fun _ _ => rfl) (fun _ _ _ => rfl) (fun _ _ => Iff.rfl) ?_ ?_
  · refine inv.put b _ _ _ (fun x atX devX dev => inv.alone x atX devX dev) (inv.refs b)
      (fun _ _ => dev) (fun u => inv.locker b u) (fun dev _ => ⟨dev, rfl, valid⟩) (by simp) fun _ => ?_
    exact ⟨valid, t, locked, runs.imp List.count_pos_iff.mp LogState.view_owner.mp⟩
  · intro other different lockedOther
    rw [locked] at lockedOther
    exact absurd (Option.some.inj lockedOther).symm different
  · convert h using 1
    simp [LogState.view, BufView.hold, Handles.hold, mine, locked, valid]

theorem releasesleep_wp {Q : Unit → BufView → Prop} {valid : Bool}
    (held : v.held b = some (valid, d, false)) (h : Q () (v.hold b none)) :
    wp bufMachine (bufOutline solo crashable) t (BufAct.releasesleep b).run Q v := by
  refine bufStep_wp (fun _ => trivial) fun s _ inv safe view => ?_
  subst view
  obtain ⟨locked, same⟩ := LogState.view_held held
  obtain ⟨_, _, clean⟩ := by simpa using same
  have mine := inv.locker b t locked
  have dev := inv.device b t mine
  simp only [bufMachine, locked, ne_eq, not_true_eq_false, if_false]
  refine after_put safe ?_ (fun _ _ => rfl) (fun _ _ _ => rfl) ?_ ?_ ?_
  · exact inv.put b _ _ _ (fun x atX devX dev => inv.alone x atX devX dev) (inv.refs b)
      (fun _ _ => dev) (by simp) (fun dev pinned => ⟨dev, rfl, inv.valid_of_pinned dev pinned⟩)
      (inv.coherent b) (by simp [← clean])
  · intro other different
    simp [locked, Ne.symm different]
  · intro other different lockedOther
    rw [locked] at lockedOther
    exact absurd (Option.some.inj lockedOther).symm different
  · convert h using 1
    simp [LogState.view, BufView.hold, Handles.hold, mine]

theorem bwrite_wp {Q : Unit → BufView → Prop} (dirty : Bool) {c : Seen} (owner : v.owner = true)
    (held : v.held b = some (true, d, dirty)) (key : v.key b = some n) (sees : v.sees = some c)
    (keep : v.recovering = false ∨ n ∈ c.pinned → n ∈ c.lh → d = c.logged n)
    (owed : v.recovering = false → ∀ tail m, n = v.start + tail + 1 → c.lh[tail]? = some m → d = c.logged m)
    (crash : crashable (Function.update c.disk n d))
    (h : Q () ((v.hold b (some (true, d, false))).see { c with disk := Function.update c.disk n d })) :
    wp bufMachine (bufOutline solo crashable) t (BufAct.bwrite b).run Q v := by
  refine wp_step fun s _ inv view => ?_
  change s.view solo t = v at view
  subst view
  obtain ⟨inv, safe⟩ := inv
  obtain ⟨mine, rfl⟩ := LogState.view_key key
  obtain ⟨locked, same⟩ := LogState.view_held held
  obtain ⟨valid, rfl, rfl⟩ := by simpa using same
  obtain rfl := LogState.view_sees sees
  have owner := LogState.view_owner.mp owner
  have dev := inv.device b t mine
  rw [LogState.view_recovering owner] at keep owed
  refine ⟨⟨owner, fun booted tail m slot entry => owed booted tail m slot entry⟩, fun _ => ?_⟩
  simp only [bufMachine, locked, ne_eq, not_true_eq_false, if_false]
  refine ⟨⟨?_, crash⟩, fun _ other different => ?_, ?_⟩
  · refine inv.change (b := b) { inv.toLogInv with installed := fun booted m member absent => ?_ }
      inv.ring ?_ (fun _ _ _ _ _ runs => runs)
      (fun x atX devX => ⟨Iff.rfl, ?_⟩) ?_ ?_ ?_ ?_ ?_ ?_ ?_
    · by_cases same : m = (s.buf b).blockno
      · subst same
        have same : (s.buf b).data = s.logged (s.buf b).blockno := keep (.inl booted) member
        simpa [LogState.bwrite, LogState.put] using same
      · simpa [LogState.bwrite, LogState.put, same] using inv.installed booted m member absent
    · intro x atX
      simp [LogState.bwrite, LogState.put, atX]
    · simp [LogState.content, LogState.bwrite, LogState.put, inv.alone x atX devX dev]
    · intro x atX devX _
      simpa [LogState.bwrite, LogState.put] using inv.alone x atX devX dev
    · simpa [LogState.bwrite, LogState.put] using inv.refs b
    · simpa [LogState.bwrite, LogState.put] using inv.device b
    · simpa [LogState.bwrite, LogState.put] using inv.locker b
    · rintro m member (fresh | ⟨_, rfl⟩)
      · exact absurd member fresh
      · simpa [LogState.bwrite, LogState.put, dev] using valid.symm
    · intro _ _ _
      simp only [LogState.bwrite, LogState.put, Function.update_self, LogState.content]
      split
      · next pinned => exact keep (.inr pinned) (inv.pinned.subset pinned)
      · rfl
    · simp [LogState.bwrite, LogState.put]
  · refine LogState.view_put_other (b := b) rfl rfl rfl rfl (fun _ => rfl) Iff.rfl (fun lockedOther => ?_)
      rfl Iff.rfl Iff.rfl ⟨rfl, rfl⟩ (fun ownerOther => ?_)
    · rw [locked] at lockedOther
      exact absurd (Option.some.inj lockedOther).symm different
    · rw [owner] at ownerOther
      exact absurd (Option.some.inj ownerOther).symm different
  · convert h using 1
    simp [bufOutline, LogState.view, LogState.bwrite, LogState.put, LogState.seen, BufView.hold, Handles.hold,
      BufView.see, owner, ← valid]
    grind

theorem unref_wp {Q : Unit → BufView → Prop} (mine : 0 < v.mine b) (free : v.held b = none)
    (h : Q () (v.drop b)) :
    wp bufMachine (bufOutline solo crashable) t (BufAct.unref b).run Q v := by
  refine bufStep_wp (fun _ => trivial) fun s _ inv safe view => ?_
  subst view
  have mine := LogState.view_mine_pos.mp mine
  have dev := inv.device b t mine
  have length := List.length_erase_of_mem mine
  have positive := List.length_pos_of_mem mine
  have unlocked : (s.buf b).locked ≠ some t := by simpa [LogState.view] using free
  simp only [bufMachine]
  refine ⟨⟨?_, safe⟩, fun _ other different => ?_, ?_⟩
  · refine inv.change (b := b) { inv.toLogInv with } (fun x => ?_) ?_ (fun _ _ _ _ _ runs => runs)
      (fun _ _ _ => ⟨Iff.rfl, rfl⟩) ?_ ?_ ?_ ?_ ?_ ?_ ?_
    · by_cases atX : x = b
      · simp only [LogState.unref]
        split
        · exact atX ▸ List.mem_cons_self ..
        · exact inv.ring x
      · simp only [LogState.unref]
        split
        · exact List.mem_cons_of_mem _ ((List.mem_erase_of_ne atX).mpr (inv.ring x))
        · exact inv.ring x
    · intro x atX
      simp [LogState.unref, LogState.put, atX]
    · intro x atX devX _
      simpa [LogState.unref, LogState.put] using inv.alone x atX devX dev
    · have refs := inv.refs b
      simp only [LogState.unref, LogState.put, Function.update_self]
      omega
    · simp [LogState.unref, LogState.put, dev]
    · intro u locked
      have locked : (s.buf b).locked = some u := by simpa [LogState.unref, LogState.put] using locked
      have different : u ≠ t := fun same => unlocked (same ▸ locked)
      simpa [LogState.unref, LogState.put] using
        (List.mem_erase_of_ne different).mpr (inv.locker b u locked)
    · rintro m member (fresh | ⟨_, rfl⟩)
      · exact absurd member fresh
      · simpa [LogState.unref, LogState.put, dev] using inv.valid_of_pinned dev member
    · simpa [LogState.unref, LogState.put, LogState.content] using inv.coherent b
    · simpa [LogState.unref, LogState.put] using inv.dirtyLocked b
  · exact LogState.view_put_other (b := b) rfl rfl rfl (List.count_erase_of_ne different) (fun _ => rfl)
      Iff.rfl (fun _ => ⟨rfl, rfl, rfl⟩) rfl Iff.rfl Iff.rfl ⟨rfl, rfl⟩ (fun _ => rfl)
  · convert h using 1
    have once : t ∈ (s.users b).erase t ↔ ¬ (s.users b).count t = 1 := by
      rw [← List.count_pos_iff, List.count_erase_self]
      have := List.count_pos_iff.mpr mine
      omega
    refine BufView.ext (funext fun x => ?_) (funext fun x => ?_) (funext fun x => ?_) rfl rfl rfl rfl rfl rfl
    all_goals by_cases atX : x = b
    all_goals simp [bufOutline, LogState.view, LogState.unref, LogState.put, BufView.drop, Handles.drop, atX]
    all_goals grind

theorem brelse_wp {Q : Unit → BufView → Prop} (valid : Bool) (mine : 0 < v.mine b)
    (held : v.held b = some (valid, d, false)) (h : Q () (v.release b)) :
    wp bufMachine (bufOutline solo crashable) t (brelse b) Q v :=
  wp_bind (releasesleep_wp held (unref_wp mine (by simp [BufView.hold, Handles.hold]) h))

theorem bunpin_wp {Q : Unit → BufView → Prop} {c : Seen} (owner : v.owner = true)
    {rest : List Nat} (key : v.key b = some n) (sees : v.sees = some c) (head : c.pinned = n :: rest)
    (installed : c.disk n = c.logged n) (h : Q () (v.see { c with pinned := rest })) :
    wp bufMachine (bufOutline solo crashable) t (BufAct.bunpin b).run Q v := by
  refine bufStep_wp (fun _ => trivial) fun s _ inv safe view => ?_
  subst view
  obtain ⟨mine, rfl⟩ := LogState.view_key key
  obtain rfl := LogState.view_sees sees
  have owner := LogState.view_owner.mp owner
  have dev := inv.device b t mine
  have head : s.pinned = (s.buf b).blockno :: rest := head
  have pinned : (s.buf b).blockno ∈ s.pinned := head ▸ List.mem_cons_self ..
  have erased : s.pinned.erase (s.buf b).blockno = rest := by rw [head, List.erase_cons_head]
  have nodup := inv.header.nodup.sublist inv.pinned.sublist
  have gone : (s.buf b).blockno ∉ s.pinned.erase (s.buf b).blockno := nodup.not_mem_erase
  have content : ∀ m, (s.bunpin b).content m = s.content m := fun m => by
    by_cases same : m = (s.buf b).blockno
    · subst same
      simp only [LogState.seen] at installed
      simp [LogState.content, LogState.bunpin, LogState.put, gone, pinned, installed]
    · simp [LogState.content, LogState.bunpin, LogState.put, List.mem_erase_of_ne same]
  simp only [bufMachine]
  refine ⟨⟨?_, safe⟩, fun _ other different => ?_, ?_⟩
  · refine inv.change (b := b) { inv.toLogInv with
        pinned := ?_
        installed := fun booted m member absent => ?_
        waiting := fun idle => absurd (idle.symm.trans owner) (by simp) } inv.ring ?_
      (fun _ _ _ _ _ runs => runs) (fun x atX devX => ⟨?_, content _⟩) ?_ ?_ ?_ ?_ ?_ ?_ ?_
    · simp only [LogState.bunpin, erased]
      exact (head ▸ List.suffix_cons ..).trans inv.pinned
    · by_cases same : m = (s.buf b).blockno
      · exact same ▸ installed
      · exact inv.installed booted m member fun pinned => absent ((List.mem_erase_of_ne same).mpr pinned)
    · intro x atX
      simp [LogState.bunpin, LogState.put, atX]
    · exact List.mem_erase_of_ne (inv.alone x atX devX dev)
    · intro x atX devX _
      simpa [LogState.bunpin, LogState.put] using inv.alone x atX devX dev
    · have refs := inv.refs b
      rw [if_pos ⟨dev, pinned⟩] at refs
      simp [LogState.bunpin, LogState.put, gone, refs]
    · simpa [LogState.bunpin, LogState.put] using inv.device b
    · simpa [LogState.bunpin, LogState.put] using inv.locker b
    · rintro m member (fresh | ⟨_, rfl⟩)
      · exact absurd (List.mem_of_mem_erase member) fresh
      · exact absurd member gone
    · rw [content]
      simpa [LogState.bunpin, LogState.put] using inv.coherent b
    · simpa [LogState.bunpin, LogState.put] using inv.dirtyLocked b
  · refine LogState.view_put_other (b := b) rfl rfl rfl rfl (fun _ => rfl) Iff.rfl
      (fun _ => ⟨rfl, rfl, rfl⟩) rfl Iff.rfl Iff.rfl ⟨rfl, rfl⟩ (fun ownerOther => ?_)
    rw [owner] at ownerOther
    exact absurd (Option.some.inj ownerOther).symm different
  · convert h using 1
    simp [bufOutline, LogState.view, LogState.bunpin, LogState.put, LogState.seen, BufView.see, owner, erased]
    grind

/-- The outcome of a step on the log alone. -/
theorem after_log {a : BufAct} {r : a.Resp} {Q : a.Resp → BufView → Prop} {s s' : LogState}
    (inv : BufInv s) (safe : crashable s.disk) (log : LogInv s')
    (same : s'.buf = s.buf ∧ s'.users = s.users ∧ s'.dirty = s.dirty ∧ s'.ring = s.ring ∧
      s'.disk = s.disk ∧ s'.pinned = s.pinned ∧ s'.logged = s.logged)
    (mode : ∀ other, other ≠ t → s.owner = some other → s'.recovering = s.recovering)
    (area : s'.log.start = s.log.start ∧ s'.log.size = s.log.size)
    (running : ∀ x u, s.dirty x = true → (s.buf x).locked = some u →
      u ∈ s.ops ∨ s.owner = some u → u ∈ s'.ops ∨ s'.owner = some u)
    (others : ∀ other, other ≠ t → s'.ops.count other = s.ops.count other ∧
      (s'.owner = some other ↔ s.owner = some other) ∧
      (s.owner = some other → s'.log.lh = s.log.lh ∧ s'.ops = s.ops))
    (post : Q r { s.view solo t with
      op := s'.ops.count t
      owner := s'.owner = some t
      recovering := s'.recovering ∧ s'.owner = some t
      sees := if solo ∨ s'.owner = some t then some { s.seen with lh := s'.log.lh, ops := s'.ops }
        else none }) :
    (bufOutline solo crashable).After t a s Q (.ok r s') := by
  obtain ⟨buf, users, dirty, ring, disk, pinned, logged⟩ := same
  have content : s'.content = s.content := by
    funext n
    simp [LogState.content, pinned, logged, disk]
  have seen : s'.seen = { s.seen with lh := s'.log.lh, ops := s'.ops } := by
    simp [LogState.seen, disk, pinned, logged]
  refine ⟨⟨{ log with
    ring := by rw [ring]; exact inv.ring
    unique := by rw [buf]; exact inv.unique
    refs := by rw [buf, users, pinned]; exact inv.refs
    device := by rw [buf, users]; exact inv.device
    locker := by rw [buf, users]; exact inv.locker
    cached := by rw [buf, pinned]; exact inv.cached
    coherent := by rw [buf, dirty, content]; exact inv.coherent
    dirtyLocked := fun x modified => ?_ }, by rw [disk]; exact safe⟩, fun _ other different => ?_, ?_⟩
  · rw [dirty] at modified
    obtain ⟨valid, u, locked, runs⟩ := inv.dirtyLocked x modified
    rw [buf]
    exact ⟨valid, u, locked, running x u modified locked runs⟩
  · obtain ⟨op, owner, lh⟩ := others other different
    refine LogState.view_eq (fun x => by rw [users]) (fun x _ => by rw [buf]) (fun x => by rw [buf])
      (fun x _ => by simp [buf, dirty]) op owner ?_ area fun mine => ?_
    · rw [owner]
      exact and_congr_left fun mine => by rw [mode other different mine]
    rw [seen, (lh mine).1, (lh mine).2]
    rfl
  · convert post using 1
    simp only [bufOutline, LogState.view, buf, users, dirty, area.1, area.2, seen]

theorem beginOp_wp {Q : Unit → BufView → Prop} (idle : v.owner = false)
    (h : Q () { v with op := v.op + 1, sees := v.sees.map fun c => { c with ops := t :: c.ops } }) :
    wp bufMachine (bufOutline solo crashable) t BufAct.beginOp.run Q v := by
  refine wp_step fun s _ inv view => ⟨trivial, fun scheduled => ?_⟩
  change s.view solo t = v at view
  subst view
  obtain ⟨inv, safe⟩ := inv
  have notMine : s.owner ≠ some t := by simpa [LogState.view] using idle
  have booted : s.recovering = false := by
    by_contra recovering
    exact notMine (scheduled (by simpa using recovering))
  simp only [bufMachine]
  cases run : s.log.beginOp with
  | none => trivial
  | some log =>
    obtain ⟨idle, _, rfl⟩ := Log.beginOp_eq_some run
    have noOwner : s.owner = none := by simpa [idle, booted] using inv.committing
    refine after_log inv safe { inv.toLogInv with
      outstanding := ?_
      quiet := fun busy => absurd noOwner busy } ⟨rfl, rfl, rfl, rfl, rfl, rfl,
      rfl⟩ (fun _ _ _ => rfl) ⟨rfl, rfl⟩
      (fun _ _ _ _ runs => runs.imp_left (List.mem_cons_of_mem _)) (fun other different => ?_) ?_
    · simp only [inv.outstanding, List.length_cons]
      omega
    · exact ⟨List.count_cons_of_ne (Ne.symm different), Iff.rfl, fun mine => by simp [noOwner] at mine⟩
    · convert h using 1
      cases solo <;> simp [LogState.view, LogState.seen, noOwner]

theorem lh_wp {Q : List Nat → BufView → Prop} {c : Seen} (sees : v.sees = some c) (h : Q c.lh v) :
    wp bufMachine (bufOutline solo crashable) t BufAct.lh.run Q v := by
  refine bufStep_wp (fun _ => trivial) fun s _ inv safe view => ⟨⟨inv, safe⟩, fun _ _ _ => rfl, ?_⟩
  subst view
  obtain rfl := LogState.view_sees sees
  exact h

theorem setLh_wp {Q : Unit → BufView → Prop} {c : Seen} {lh : List Nat} (owner : v.owner = true)
    (sees : v.sees = some c) (header : HeaderOk v.start v.size lh) (pinned : c.pinned <:+ lh)
    (installed : v.recovering = false → ∀ n ∈ lh, n ∉ c.pinned → c.disk n = c.logged n)
    (h : Q () (v.see { c with lh })) :
    wp bufMachine (bufOutline solo crashable) t (BufAct.setLh lh).run Q v := by
  refine bufStep_wp (fun _ => trivial) fun s _ inv safe view => ?_
  subst view
  obtain rfl := LogState.view_sees sees
  have owner := LogState.view_owner.mp owner
  rw [LogState.view_recovering owner] at installed
  refine after_log inv safe { inv.toLogInv with
    header := header
    pinned := pinned
    installed := installed
    waiting := fun idle => absurd (idle.symm.trans owner) (by simp) }
    ⟨rfl, rfl, rfl, rfl, rfl, rfl, rfl⟩ (fun _ _ _ => rfl) ⟨rfl, rfl⟩ (fun _ _ _ _ runs => runs)
    (fun other different => ⟨rfl, Iff.rfl, fun mine => ?_⟩) ?_
  · rw [owner] at mine
    exact absurd (Option.some.inj mine).symm different
  · convert h using 1
    simp [LogState.view, LogState.seen, BufView.see, owner]

/-- `end_op`: the last process out of a transaction owns the log and sees it closed. -/
theorem endOpStep_wp {Q : Bool → BufView → Prop} (op : 0 < v.op)
    (clean : ∀ b valid d, v.held b ≠ some (valid, d, true))
    (h : ∀ last c, HeaderOk v.start v.size c.lh → c.pinned = c.lh → (last = true ↔ c.ops.length = 1) →
      (∀ c', v.sees = some c' → c' = c) → Q last { v with
        op := v.op - 1, owner := last
        sees := if solo ∨ last = true then some { c with ops := c.ops.erase t } else none }) :
    wp bufMachine (bufOutline solo crashable) t BufAct.endOp.run Q v := by
  refine bufStep_wp (fun _ => trivial) fun s _ inv safe view => ?_
  subst view
  have member : t ∈ s.ops := List.count_pos_iff.mp op
  have positive := List.length_pos_of_mem member
  have length := List.length_erase_of_mem member
  obtain ⟨noOwner, booted⟩ := inv.noOwner member
  have notMine : ∀ x u, s.dirty x = true → (s.buf x).locked = some u → u ≠ t := by
    rintro x _ dirty locked rfl
    exact clean x (s.buf x).valid (s.buf x).data (by simp [LogState.view, locked, dirty])
  simp only [bufMachine]
  cases run : s.log.endOp with
  | error message =>
    have busy := (Log.endOp_eq_error run).2
    simp [inv.committing, noOwner] at busy
  | ok result =>
    obtain ⟨log, last⟩ := result
    obtain ⟨idle, rfl, lastIff⟩ := Log.endOp_eq_ok run
    refine after_log inv safe { inv.toLogInv with
      outstanding := ?_
      committing := ?_
      booting := fun recovering => absurd (booted.symm.trans recovering) (by simp)
      quiet := fun busy => ?_
      waiting := fun _ => inv.waiting noOwner } ⟨rfl, rfl, rfl, rfl, rfl, rfl,
      rfl⟩ (fun _ _ _ => rfl) ⟨rfl, rfl⟩
      (fun x u dirty locked runs => ?_)
      (fun other different => ⟨?_, ?_, fun mine => by simp [noOwner] at mine⟩) ?_
    · simp only [inv.outstanding, length]
      omega
    · cases last <;> simp [noOwner, booted]
    · have alone : s.log.outstanding = 1 := lastIff.mp (by
        by_contra more
        simp [more, noOwner] at busy)
      rw [inv.outstanding] at alone
      exact List.eq_nil_of_length_eq_zero (by rw [length]; omega)
    · rcases runs with inside | busy
      · exact .inl ((List.mem_erase_of_ne (notMine x u dirty locked)).mpr inside)
      · simp [noOwner] at busy
    · exact List.count_erase_of_ne different
    · cases last <;> simp [noOwner, Ne.symm different]
    · convert h last s.seen inv.header (inv.waiting noOwner)
        (lastIff.trans (by rw [inv.outstanding]; exact Nat.cast_eq_one))
        (fun c' sees => LogState.view_sees sees) using 1
      cases last <;> simp [LogState.view, LogState.seen, noOwner, booted]

theorem endCommit_wp {Q : Unit → BufView → Prop} {c : Seen} (booted : v.recovering = false)
    (owner : v.owner = true) (clean : ∀ b valid d, v.held b ≠ some (valid, d, true))
    (sees : v.sees = some c) (pinned : c.pinned = []) (empty : c.lh = [])
    (h : Q () { v with owner := false, sees := if solo then some c else none }) :
    wp bufMachine (bufOutline solo crashable) t BufAct.endCommit.run Q v := by
  refine wp_step fun s _ inv view => ?_
  change s.view solo t = v at view
  subst view
  obtain ⟨inv, safe⟩ := inv
  obtain rfl := LogState.view_sees sees
  have owner := LogState.view_owner.mp owner
  rw [LogState.view_recovering owner] at booted
  refine ⟨⟨owner, empty⟩, fun _ => ?_⟩
  refine after_log inv safe { inv.toLogInv with
    committing := rfl
    booting := fun recovering => absurd (booted.symm.trans recovering) (by simp)
    quiet := fun busy => absurd rfl busy
    waiting := fun _ => pinned.trans empty.symm } ⟨rfl, rfl, rfl, rfl, rfl, rfl,
    rfl⟩ (fun _ _ _ => rfl) ⟨rfl, rfl⟩
    (fun x u dirty locked runs => ?_) (fun other different => ⟨rfl, ?_, fun _ => ⟨rfl, rfl⟩⟩) ?_
  · rcases runs with inside | busy
    · exact .inl inside
    · obtain rfl := Option.some.inj (owner.symm.trans busy)
      exact absurd (by simp [LogState.view, locked, dirty]) (clean x (s.buf x).valid (s.buf x).data)
  · simp [owner, Ne.symm different]
  · convert h using 1
    simp [LogState.view, LogState.seen, Log.endCommit, booted]

theorem ready_wp {Q : Unit → BufView → Prop} {c : Seen} (mode : v.recovering = true)
    (clean : ∀ b valid d, v.held b ≠ some (valid, d, true)) (sees : v.sees = some c)
    (pinned : c.pinned = []) (empty : c.lh = [])
    (h : Q () { v with owner := false, recovering := false, sees := if solo then some c else none }) :
    wp bufMachine (bufOutline solo crashable) t BufAct.ready.run Q v := by
  refine bufStep_wp (fun _ => trivial) fun s _ inv safe view => ?_
  subst view
  obtain rfl := LogState.view_sees sees
  obtain ⟨recovering, owner⟩ := by simpa [LogState.view] using mode
  refine after_log inv safe { inv.toLogInv with
    installed := fun _ n member => absurd (show n ∈ [] from empty ▸ member) List.not_mem_nil
    committing := by simp [inv.committing, recovering]
    booting := fun again => absurd again (by simp)
    quiet := fun busy => absurd rfl busy
    waiting := fun _ => pinned.trans empty.symm } ⟨rfl, rfl, rfl, rfl, rfl, rfl, rfl⟩
    (fun other different mine => ?_) ⟨rfl, rfl⟩ (fun x u dirty locked runs => ?_)
    (fun other different => ⟨rfl, ?_, fun _ => ⟨rfl, rfl⟩⟩) ?_
  · rw [owner] at mine
    exact absurd (Option.some.inj mine).symm different
  · rcases runs with inside | busy
    · exact .inl inside
    · obtain rfl := Option.some.inj (owner.symm.trans busy)
      exact absurd (by simp [LogState.view, locked, dirty]) (clean x (s.buf x).valid (s.buf x).data)
  · simp [owner, Ne.symm different]
  · convert h using 1
    simp [LogState.view, LogState.seen]

theorem HeaderOk.snoc {start size : Nat} {lh : List Nat} (ok : HeaderOk start size lh)
    (home : Home start size n) (fresh : n ∉ lh) (room : lh.length < LOGSIZE)
    (fits : (lh.length : Int) < size - 1) : HeaderOk start size (lh ++ [n]) where
  nodup := ok.nodup.append (List.nodup_singleton _) (by simpa using fresh)
  short := by
    simp only [List.length_append, List.length_singleton]
    omega
  slots tail bound := by
    simp only [List.length_append, List.length_singleton] at bound
    omega
  home := by simpa [or_imp, forall_and] using ⟨ok.home, home⟩

theorem BufInv.logWrite {s : LogState} {log : Log} {pin : Bool} (inv : BufInv s)
    (home : Home s.log.start s.log.size (s.buf b).blockno)
    (noOwner : s.owner = none) (dev : (s.buf b).dev = ROOTDEV) (valid : (s.buf b).valid = true)
    (run : s.log.logWrite (s.buf b).blockno = .ok (log, pin)) : BufInv (s.logWrite b log pin) := by
  obtain ⟨room, fits, _, cases⟩ := Log.logWrite_eq_ok run
  have waiting := inv.waiting noOwner
  rcases cases with ⟨member, rfl, rfl⟩ | ⟨fresh, rfl, rfl⟩
  · refine inv.change (b := b) { inv.toLogInv with
        installed := fun _ m pinned absent => absurd (waiting ▸ pinned) absent } inv.ring ?_ (fun
        _ _ _ _ _ runs => runs)
      (fun x atX devX => ⟨Iff.rfl, ?_⟩) ?_ ?_ ?_ ?_ ?_ ?_ ?_
    · intro x atX
      simp [LogState.logWrite, LogState.put, atX]
    · simp [LogState.content, LogState.logWrite, LogState.put, inv.alone x atX devX dev]
    · intro x atX devX _
      simpa [LogState.logWrite, LogState.put] using inv.alone x atX devX dev
    · simpa [LogState.logWrite, LogState.put] using inv.refs b
    · simpa [LogState.logWrite, LogState.put] using inv.device b
    · simpa [LogState.logWrite, LogState.put] using inv.locker b
    · rintro m pinned (absent | ⟨_, rfl⟩)
      · exact absurd pinned absent
      · simpa [LogState.logWrite, LogState.put, dev] using valid
    · simp [LogState.logWrite, LogState.put, LogState.content, waiting, member]
    · simp [LogState.logWrite, LogState.put]
  · refine inv.change (b := b) { inv.toLogInv with
        header := inv.header.snoc home fresh room fits
        pinned := by simp [LogState.logWrite, waiting]
        installed := fun _ m member absent => absurd member (by simpa [LogState.logWrite, waiting] using absent)
        waiting := fun _ => ?_ } inv.ring ?_ (fun _ _ _ _ _ runs => runs)
      (fun x atX devX => ?_) ?_ ?_ ?_ ?_ ?_ ?_ ?_
    · simp [LogState.logWrite, waiting]
    · intro x atX
      simp [LogState.logWrite, LogState.put, atX]
    · simp [LogState.content, LogState.logWrite, LogState.put, inv.alone x atX devX dev]
    · intro x atX devX _
      simpa [LogState.logWrite, LogState.put] using inv.alone x atX devX dev
    · have refs := inv.refs b
      rw [waiting, if_neg fun both => fresh both.2] at refs
      simp [LogState.logWrite, LogState.put, dev, refs]
    · simpa [LogState.logWrite, LogState.put] using inv.device b
    · simpa [LogState.logWrite, LogState.put] using inv.locker b
    · intro m _ _
      simp_all [LogState.logWrite, LogState.put]
      grind
    · simp [LogState.logWrite, LogState.put, LogState.content]
    · simp [LogState.logWrite, LogState.put]

theorem logWrite_wp {Q : Unit → BufView → Prop} (dirty : Bool) (op : 0 < v.op)
    (held : v.held b = some (true, d, dirty)) (key : v.key b = some n)
    (home : Home v.start v.size n)
    (h : Q () { v.hold b (some (true, d, false)) with sees := v.sees.map fun c => c.logWrite n d }) :
    wp bufMachine (bufOutline solo crashable) t (BufAct.logWrite b).run Q v := by
  refine bufStep_wp (fun _ => trivial) fun s _ inv safe view => ?_
  subst view
  obtain ⟨mine, rfl⟩ := LogState.view_key key
  obtain ⟨locked, same⟩ := LogState.view_held held
  obtain ⟨valid, rfl, rfl⟩ := by simpa using same
  have dev := inv.device b t mine
  have member : t ∈ s.ops := List.count_pos_iff.mp op
  have positive := List.length_pos_of_mem member
  obtain ⟨noOwner, _⟩ := inv.noOwner member
  have waiting := inv.waiting noOwner
  simp only [bufMachine]
  cases run : s.log.logWrite (s.buf b).blockno with
  | error message =>
    rcases Log.logWrite_eq_error run with ⟨rfl, _⟩ | ⟨_, none⟩
    · exact List.mem_cons_of_mem _ (List.mem_cons_self ..)
    · rw [inv.outstanding] at none
      omega
  | ok result =>
    obtain ⟨log, pin⟩ := result
    obtain ⟨room, fits, _, cases⟩ := Log.logWrite_eq_ok run
    refine ⟨⟨inv.logWrite home noOwner dev valid run, safe⟩, fun _ other different => ?_, ?_⟩
    · refine LogState.view_put_other (b := b) rfl rfl rfl rfl (fun _ => rfl) Iff.rfl (fun lockedOther => ?_)
        rfl Iff.rfl Iff.rfl ?_ (fun ownerOther => ?_)
      · rw [locked] at lockedOther
        exact absurd (Option.some.inj lockedOther).symm different
      · rcases cases with ⟨_, rfl, _⟩ | ⟨_, rfl, _⟩ <;> exact ⟨rfl, rfl⟩
      · simp [noOwner] at ownerOther
    · convert h using 1
      rcases cases with ⟨member, rfl, rfl⟩ | ⟨fresh, rfl, rfl⟩
      · cases solo <;> simp [bufOutline, LogState.view, LogState.logWrite, LogState.put, LogState.seen,
          BufView.hold, Handles.hold, Seen.logWrite, locked, noOwner, valid, member]
        all_goals grind
      · cases solo <;> simp [bufOutline, LogState.view, LogState.logWrite, LogState.put, LogState.seen,
          BufView.hold, Handles.hold, Seen.logWrite, locked, noOwner, valid, fresh]
        all_goals grind

end Steps

end Xv6
