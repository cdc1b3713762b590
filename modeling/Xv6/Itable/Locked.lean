import Xv6.Itable.Steps

namespace Xv6.Itable
open Threads Function

variable {s : ItState} {t : Pid} {v : ItView} {ip : Slot} {attr : Dinode} {valid dirty : Bool}

theorem checkRef_wp {Q : Unit → ItView → Prop} (mine : 0 < v.mine ip) (post : Q () v) :
    wp itMachine itOutline t (ItAct.checkRef ip).run Q v := by
  refine wp_step fun s c inv view => ⟨trivial, fun _ => ?_⟩
  have view : s.view t = v := view
  subst view
  have positive := List.length_pos_of_mem (ItState.view_mine.mp mine)
  simp only [itMachine]
  rw [if_neg (by rw [(inv.slot ip).refs]; omega)]
  exact ⟨inv, fun _ _ => rfl, post⟩

theorem checkHeld_wp {Q : Unit → ItView → Prop} {x : Bool × Dinode × Bool} (held : v.held ip = some x)
    (post : 0 < v.mine ip → Q () v) : wp itMachine itOutline t (ItAct.checkHeld ip).run Q v := by
  refine wp_step fun s c inv view => ⟨trivial, fun _ => ?_⟩
  have view : s.view t = v := view
  subst view
  have locked := (ItState.view_held.mp held).1
  have mine := (inv.slot ip).locker t locked
  have positive := List.length_pos_of_mem mine
  simp only [itMachine]
  have fine : ¬((s.inode ip).locked ≠ some t ∨ (s.inode ip).ref < 1) := by
    rintro (free | few)
    · exact free locked
    · rw [(inv.slot ip).refs] at few
      omega
  rw [if_neg fine]
  exact ⟨inv, fun _ _ => rfl, post (ItState.view_mine.mpr mine)⟩

/-- Other processes do not see what a process stores in an entry it has locked. -/
theorem ItState.locked_view {other : Pid} {new : Inode} (locked : (s.inode ip).locked = some t)
    (different : other ≠ t) (keeps : new.locked ≠ some other) (key : new.key = (s.inode ip).key) :
    (s.put ip new (s.users ip) (s.stage ip) dirty).view other = s.view other := by
  refine ItState.put_view rfl (fun _ => key) (fun locks => ?_) fun _ => rfl
  rcases locks with eq | eq
  · exact absurd eq keeps
  · rw [locked] at eq
    exact absurd (Option.some.inj eq).symm different

/-- Storing an entry's lock or fields leaves the own pointers and stage alone. -/
theorem ItState.setInode_view_self {l : Option Pid} {b : Bool} {d : Dinode} :
    (s.setInode ip { s.inode ip with locked := l, valid := b, attr := d }).view t = { s.view t with
      held := update (s.view t).held ip (if l = some t then some (b, d, s.dirty ip) else none) } := by
  unfold ItState.setInode
  rw [ItState.put_view_self]
  refine ItView.ext (funext fun b => ?_) (funext fun b => ?_) rfl rfl (funext fun b => ?_) rfl
  all_goals by_cases same : b = ip
  all_goals simp [ItState.view, same]

theorem acquiresleep_wp {Q : Unit → ItView → Prop} (mine : 0 < v.mine ip)
    (atOnce : v.table = true → v.stage ip = .doomed t ∧ v.held ip = none)
    (post : ∀ valid attr, v.held ip = none →
      (v.stage ip = .doomed t → valid = true ∧ attr.nlink = 0 ∧ attr.type ≠ 0) →
      Q () { v with toHandles := v.toHandles.hold ip (some (valid, attr, false)) }) :
    wp itMachine itOutline t (ItAct.acquiresleep ip).run Q v := by
  refine wp_step fun s c inv view => ?_
  have view : s.view t = v := view
  subst view
  have mine := ItState.view_mine.mp mine
  have used := List.ne_nil_of_mem mine
  have slot := inv.slot ip
  refine ⟨fun table => ?_, fun _ => ?_⟩
  · -- The last pointer is that of the process itself.
    obtain ⟨doomed, free⟩ := atOnce (ItState.view_table.mpr table)
    obtain ⟨only, _⟩ := slot.doomed t (ItState.view_stage rfl doomed)
    cases locked : (s.inode ip).locked with
    | none => rfl
    | some u =>
      have member := slot.locker u locked
      rw [only, List.mem_singleton] at member
      exact absurd (member ▸ locked) (ItState.view_free.mp free)
  · simp only [itMachine]
    split
    next => trivial
    next free =>
      have unlocked : (s.inode ip).locked = none := by simpa using free
      have clean : s.dirty ip = false := by
        rw [← Bool.not_eq_true]
        exact fun changed => (slot.changed changed).1 unlocked
      refine ⟨inv.put used rfl ⟨slot.refs, fun u locked => ?_, slot.owner, fun u doomed =>
        ?_, fun u gone => ?_,
        fun changed => ?_, slot.read, slot.alive, slot.linked, slot.unread⟩ id, fun other different => ?_, ?_⟩
      · exact Option.some.inj locked ▸ mine
      · obtain ⟨only, valid, noLinks, _⟩ := slot.doomed u doomed
        exact ⟨only, valid, noLinks, fun none => by cases none⟩
      · have locked := (slot.gone u gone).1
        rw [unlocked] at locked
        cases locked
      · rw [clean] at changed
        cases changed
      · refine ItState.put_view rfl (fun _ => rfl) (fun locks => ?_) fun _ => rfl
        rcases locks with eq | eq
        · exact absurd (Option.some.inj eq).symm different
        · rw [unlocked] at eq
          cases eq
      · show Q () (ItState.view t _)
        rw [ItState.setInode_view_self]
        simp only [if_true, clean]
        refine post _ _ ?_ fun doomed => ?_
        · rw [ItState.view_free, unlocked]
          simp
        · obtain ⟨_, valid, noLinks, typed⟩ := slot.doomed t (ItState.view_stage rfl doomed)
          exact ⟨valid, noLinks, typed unlocked⟩

theorem releasesleep_wp {Q : Unit → ItView → Prop} (held : v.held ip = some (valid, attr, false))
    (stage : v.stage ip = .normal ∨ v.stage ip = .dead t)
    (post : Q () { v with toHandles := v.toHandles.hold ip none }) :
    wp itMachine itOutline t (ItAct.releasesleep ip).run Q v := by
  refine wp_step fun s c inv view => ⟨trivial, fun _ => ?_⟩
  have view : s.view t = v := view
  subst view
  obtain ⟨locked, eq⟩ := ItState.view_held.mp held
  simp only [Prod.mk.injEq] at eq
  obtain ⟨_, _, clean⟩ := eq
  have slot := inv.slot ip
  have mine := slot.locker t locked
  have quiet : (s.stage ip).quiet = true := by
    rcases stage with normal | dead
    · exact inv.quiet locked normal
    · rw [ItState.view_stage rfl dead]
      rfl
  refine ⟨inv.put (List.ne_nil_of_mem mine) rfl ⟨slot.refs, fun u none => (by cases none), slot.owner,
    fun u doomed => ?_,
    fun u gone => ?_, fun changed => ?_, slot.read, slot.alive, slot.linked, slot.unread⟩ id,
    fun other different => ?_, ?_⟩
  · rw [doomed] at quiet
    cases quiet
  · rw [gone] at quiet
    cases quiet
  · rw [clean] at changed
    cases changed
  · exact ItState.locked_view locked different (by simp) rfl
  · show Q () (ItState.view t _)
    rw [ItState.setInode_view_self]
    exact post

/-- An `iput` stores fields of the inode it frees, which keeps being without links. -/
theorem freeing_wp {a : ItAct} {Q : a.Resp → ItView → Prop} {answer : a.Resp} {g : Dinode → Dinode}
    (held : v.held ip = some (true, attr, false)) (doomed : v.stage ip = .doomed t)
    (does : ∀ s c, itMachine t c a s = .ok answer
      (s.setInode ip { s.inode ip with attr := g (s.inode ip).attr }))
    (free : ∀ s, ItState.Owed t s a) (keeps : ∀ d, (g d).nlink = d.nlink)
    (post : Q answer { v with toHandles := v.toHandles.hold ip (some (true, g attr, false)) }) :
    wp itMachine itOutline t a.run Q v := by
  refine wp_step fun s c inv view => ⟨free s, fun _ => ?_⟩
  have view : s.view t = v := view
  subst view
  obtain ⟨locked, eq⟩ := ItState.view_held.mp held
  simp only [Prod.mk.injEq] at eq
  obtain ⟨valid, rfl, clean⟩ := eq
  have doomed := ItState.view_stage rfl doomed
  have slot := inv.slot ip
  have mine := slot.locker t locked
  rw [does]
  refine ⟨inv.put (List.ne_nil_of_mem mine) rfl ⟨slot.refs, slot.locker, slot.owner,
    fun u doomed' => ?_, fun u gone => ?_,
    slot.changed, fun _ _ quiet => ?_, slot.alive, fun isNamed used valid => ?_, slot.unread⟩ id,
    fun other different => ?_, ?_⟩
  · obtain ⟨only, valid, noLinks, _⟩ := slot.doomed u doomed'
    refine ⟨only, valid, (keeps _).trans noLinks, fun free => ?_⟩
    rw [show (s.inode ip).locked = none from free] at locked
    cases locked
  · obtain ⟨holder, valid, noLinks⟩ := slot.gone u gone
    exact ⟨holder, valid, (keeps _).trans noLinks⟩
  · rw [doomed] at quiet
    cases quiet
  · exact fun none => slot.linked isNamed used valid ((keeps _).symm.trans none)
  · exact ItState.locked_view locked different (by simp [locked, different.symm]) rfl
  · show Q answer (ItState.view t _)
    rw [ItState.setInode_view_self, if_pos locked, valid, clean]
    exact post

theorem truncate_wp {Q : Unit → ItView → Prop} (held : v.held ip = some (true, attr, false))
    (doomed : v.stage ip = .doomed t)
    (post : Q () { v with toHandles := v.toHandles.hold ip (some
      (true, { attr with size := 0, addrs := noAddrs }, false)) }) :
    wp itMachine itOutline t (ItAct.truncate ip).run Q v :=
  freeing_wp (g := fun d => { d with size := 0, addrs := noAddrs }) held doomed (fun _ _ => rfl)
  (fun _ => trivial)
    (fun _ => rfl) post

theorem clearType_wp {Q : Unit → ItView → Prop} (held : v.held ip = some (true, attr, false))
    (doomed : v.stage ip = .doomed t)
    (post : Q () { v with toHandles := v.toHandles.hold ip (some (true, { attr with type := 0 }, false)) }) :
    wp itMachine itOutline t (ItAct.clearType ip).run Q v :=
  freeing_wp (g := fun d => { d with type := 0 }) held doomed (fun _ _ => rfl) (fun _ => trivial)
  (fun _ => rfl) post

theorem invalidate_wp {Q : Unit → ItView → Prop} (held : v.held ip = some (true, attr, false))
    (gone : v.stage ip = .gone t)
    (post : Q () { v with
      toHandles := v.toHandles.hold ip (some (false, attr, false)), stage := update v.stage ip (.dead t) }) :
    wp itMachine itOutline t (ItAct.invalidate ip).run Q v := by
  refine wp_step fun s c inv view => ⟨trivial, fun _ => ?_⟩
  have view : s.view t = v := view
  subst view
  obtain ⟨locked, eq⟩ := ItState.view_held.mp held
  simp only [Prod.mk.injEq] at eq
  obtain ⟨valid, rfl, clean⟩ := eq
  have gone := ItState.view_stage rfl gone
  have slot := inv.slot ip
  have mine := slot.locker t locked
  simp only [itMachine, if_pos gone]
  refine ⟨inv.put (List.ne_nil_of_mem mine) rfl ⟨slot.refs, slot.locker, fun u owner =>
    slot.owner u (by rw [gone]; exact owner),
    fun u doomed => (by cases doomed), fun u gone => (by cases gone), fun changed => ?_,
    fun _ invalid => (by cases invalid),
    fun u member => ?_, fun _ _ invalid => (by cases invalid), fun u type claimed used =>
    ⟨.inl rfl, fun w member => ?_⟩⟩
    id, fun other different => ?_, ?_⟩
  · rw [clean] at changed
    cases changed
  · rcases slot.alive u member with typed | isGone | dead
    · exact .inl typed
    · rw [gone] at isGone
      cases isGone
      exact .inr (.inr rfl)
    · rw [gone] at dead
      cases dead
  · rcases (slot.unread u type claimed used).2 w member with same | isGone | dead
    · exact .inl same
    · rw [gone] at isGone
      cases isGone
      exact .inr (.inr rfl)
    · rw [gone] at dead
      cases dead
  · refine ItState.put_view rfl (fun _ => rfl) (fun locks => ?_) fun owns => ?_
    · have eq : (s.inode ip).locked = some other := locks.elim id id
      rw [locked] at eq
      exact absurd (Option.some.inj eq).symm different
    · rw [gone] at owns
      have eq : some t = some other := owns.elim id id
      exact absurd (Option.some.inj eq).symm different
  · have eq : (s.put ip { s.inode ip with valid := false } (s.users ip) (.dead t) (s.dirty ip)).view t =
        { s.view t with
          toHandles := (s.view t).toHandles.hold ip (some (false, (s.inode ip).attr, false))
          stage := update (s.view t).stage ip (.dead t) } := by
      rw [ItState.put_view_self]
      refine ItView.ext (funext fun b => ?_) (funext fun b => ?_) (funext fun b => ?_) rfl
        (funext fun b => ?_) rfl
      all_goals by_cases same : b = ip
      all_goals simp [ItState.view, Handles.hold, same, locked, clean, Stage.owner]
    show Q () (ItState.view t _)
    rw [eq]
    exact post

theorem setFields_wp {Q : Unit → ItView → Prop} {new : Dinode} (held : v.held ip = some (true, attr, dirty))
    (normal : v.stage ip = .normal)
    (post : Q () { v with toHandles := v.toHandles.hold ip (some (true, { new with type := attr.type }, true)) }) :
    wp itMachine itOutline t (ItAct.setFields ip new).run Q v := by
  refine wp_step fun s c inv view => ⟨trivial, fun allowed => ?_⟩
  have view : s.view t = v := view
  have allowed : s.named (s.inode ip).key = true → new.nlink ≠ 0 := allowed
  subst view
  obtain ⟨locked, eq⟩ := ItState.view_held.mp held
  simp only [Prod.mk.injEq] at eq
  obtain ⟨valid, rfl, _⟩ := eq
  have slot := inv.slot ip
  have mine := slot.locker t locked
  have used := List.ne_nil_of_mem mine
  have quiet := inv.quiet locked normal
  obtain ⟨typed, sameType, _⟩ := slot.read used valid quiet
  simp only [itMachine]
  refine ⟨inv.put used rfl ⟨slot.refs, slot.locker, slot.owner, fun u doomed => ?_, fun u gone => ?_,
    fun _ => ⟨by rw [locked]; simp, valid, quiet⟩, fun _ _ _ => ⟨typed, sameType, fun clean =>
    (by cases clean)⟩, slot.alive,
    fun isNamed _ _ => allowed isNamed, slot.unread⟩ fun _ => rfl, fun other different => ?_, ?_⟩
  · rw [doomed] at quiet
    cases quiet
  · rw [gone] at quiet
    cases quiet
  · exact ItState.locked_view locked different (by simp [locked, different.symm]) rfl
  · have eq : (s.put ip { s.inode ip with attr := { new with type := (s.inode ip).attr.type } } (s.users ip)
        (s.stage ip) true).view t = { s.view t with
          toHandles := (s.view t).toHandles.hold ip (some
          (true, { new with type := (s.inode ip).attr.type }, true)) } := by
      rw [ItState.put_view_self]
      refine ItView.ext (funext fun b => ?_) (funext fun b => ?_) (funext fun b => ?_) rfl
        (funext fun b => ?_) rfl
      all_goals by_cases same : b = ip
      all_goals simp [ItState.view, Handles.hold, same, locked, valid]
    show Q () (ItState.view t _)
    rw [eq]
    exact post

end Xv6.Itable
