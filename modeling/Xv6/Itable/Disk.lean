import Xv6.Itable.Locked

namespace Xv6.Itable
open Threads Function

variable {s : ItState} {t : Pid} {v : ItView} {ip : Slot} {attr : Dinode} {valid dirty : Bool}

/-- An inode that has been changed has a pointer. -/
theorem ItInv.used_of_dirty (inv : ItInv s) {b : Slot} (changed : s.dirty b = true) : s.users b ≠ [] := by
  intro none
  have idle := inv.slot b
  rw [none] at idle
  rw [idle.unused.2.1] at changed
  cases changed

/-- The own view after `iupdate`. -/
theorem ItState.iupdate_view_self (locked : (s.inode ip).locked = some t) {stage : Stage}
    (now : (if s.stage ip = .doomed t ∧ (s.inode ip).attr.type = 0 then Stage.gone t else s.stage ip) =
      stage) :
    (s.iupdate t ip).view t = { s.view t with
      toHandles := (s.view t).toHandles.hold ip (some ((s.inode ip).valid, (s.inode ip).attr, false))
      stage := update (s.view t).stage ip (if stage.owner = some t then stage else .normal) } := by
  have eq : (s.put ip (s.inode ip) (s.users ip) stage false).view t = _ := ItState.put_view_self
  unfold ItState.iupdate
  rw [now]
  refine Eq.trans (b := (s.put ip (s.inode ip) (s.users ip) stage false).view t) rfl (eq.trans ?_)
  refine ItView.ext (funext fun b => ?_) (funext fun b => ?_) (funext fun b => ?_) rfl
    (funext fun b => ?_) rfl
  all_goals by_cases same : b = ip
  all_goals simp [ItState.view, Handles.hold, same, locked]

/-- Other processes do not see an `iupdate`. -/
theorem ItState.iupdate_view {other : Pid} (locked : (s.inode ip).locked = some t) (different : other ≠ t) :
    (s.iupdate t ip).view other = s.view other := by
  refine Eq.trans (b := (s.put ip (s.inode ip) (s.users ip) _ false).view other) rfl
    (ItState.put_view rfl (fun _ => rfl) (fun locks => ?_) fun owns => ?_)
  · have eq : (s.inode ip).locked = some other := locks.elim id id
    rw [locked] at eq
    exact absurd (Option.some.inj eq).symm different
  · split at owns
    next freed =>
      rw [freed.1] at owns
      have eq : some t = some other := owns.elim id id
      exact absurd (Option.some.inj eq).symm different
    next notFreed => exact if_neg notFreed

/-- What is to be shown for an `iupdate` of an inode that its process has locked and read. -/
theorem ItInv.iupdate (inv : ItInv s) (locked : (s.inode ip).locked = some t)
    (valid : (s.inode ip).valid = true)
    (notGone : ∀ u, s.stage ip ≠ .gone u) {stage : Stage}
    (now : (if s.stage ip = .doomed t ∧ (s.inode ip).attr.type = 0 then Stage.gone t else s.stage ip) = stage)
    (owner : ∀ u, stage.owner = some u → (s.users ip).count u = 1)
    (doomed : ∀ u, stage = .doomed u → s.users ip = [u] ∧ (s.inode ip).attr.nlink = 0)
    (gone : ∀ u, stage = .gone u → u = t ∧ (s.inode ip).attr.nlink = 0)
    (typed : stage.quiet = true → (s.inode ip).attr.type ≠ 0)
    (alive : ∀ u ∈ s.users ip, (s.inode ip).attr.type ≠ 0 ∨ stage = .gone u ∨ stage = .dead u)
    (linked : s.named (s.inode ip).key = true → (s.inode ip).attr.type ≠ 0) : ItInv (s.iupdate t ip) := by
  have slot := inv.slot ip
  have mine := slot.locker t locked
  have used := List.ne_nil_of_mem mine
  have unclaimed := slot.notClaimed used valid notGone
  refine inv.changeUsed used (fun b apart => ?_) (fun k' other => ?_) ?_ ?_ ⟨fun isNamed => ⟨unclaimed, ?_⟩,
    fun u type claimed => ?_⟩ ?_
  · simp [ItState.iupdate, ItState.put, apart]
  · simp [ItState.iupdate, ItState.put, other]
  · simp [ItState.iupdate, ItState.put]
  · simp only [ItState.iupdate, ItState.put, update_self, now]
    refine ⟨slot.refs, slot.locker, owner, fun u eq => ?_, fun u eq => ?_, fun changed => (by cases changed),
      fun _ _ quiet => ⟨typed quiet, rfl, fun _ => rfl⟩, alive, slot.linked, fun u type claimed => ?_⟩
    · obtain ⟨only, noLinks⟩ := doomed u eq
      exact ⟨only, valid, noLinks, fun free => by rw [locked] at free; cases free⟩
    · obtain ⟨same, noLinks⟩ := gone u eq
      exact ⟨same ▸ locked, valid, noLinks⟩
    · rw [show s.claimed (s.inode ip).key = some (u, type) from claimed] at unclaimed
      cases unclaimed
  · simpa [ItState.iupdate, ItState.put] using linked isNamed
  · rw [show s.claimed (s.inode ip).key = some (u, type) from claimed] at unclaimed
    cases unclaimed
  · intro isNamed
    left
    simpa [ItState.iupdate, ItState.put] using slot.linked isNamed used valid

theorem iupdateFreeing_wp {Q : Unit → ItView → Prop} (held : v.held ip = some (true, attr, false))
    (doomed : v.stage ip = .doomed t) (typed : attr.type ≠ 0) (post : Q () v) :
    wp itMachine itOutline t (ItAct.iupdate ip).run Q v := by
  refine wp_step fun s c inv view => ?_
  have view : s.view t = v := view
  subst view
  obtain ⟨locked, eq⟩ := ItState.view_held.mp held
  simp only [Prod.mk.injEq] at eq
  obtain ⟨valid, rfl, clean⟩ := eq
  have doomed' := ItState.view_stage rfl doomed
  have slot := inv.slot ip
  obtain ⟨only, _, noLinks, _⟩ := slot.doomed t doomed'
  have now : (if s.stage ip = .doomed t ∧ (s.inode ip).attr.type = 0 then Stage.gone t else s.stage ip) =
    .doomed t := by
    rw [if_neg fun freed => typed freed.2, doomed']
  refine ⟨fun untyped => absurd untyped typed, fun _ => ⟨inv.iupdate locked valid (by rw [doomed']; simp) now
    (fun u owner => slot.owner u (by rw [doomed']; exact owner)) (fun u eq => ?_) (fun u eq => by cases eq)
    (fun quiet => by cases quiet) (fun _ _ => .inl typed) (fun _ => typed), fun other different =>
    ItState.iupdate_view locked different, ?_⟩⟩
  · cases eq
    exact ⟨only, noLinks⟩
  · have eq : (s.iupdate t ip).view t = s.view t := by
      rw [ItState.iupdate_view_self locked now]
      refine ItView.ext rfl rfl ?_ rfl ?_ rfl
      · show update (s.view t).held ip _ = _
        rw [valid, ← held, update_eq_self]
      · show update (s.view t).stage ip (if some t = some t then Stage.doomed t else .normal) = _
        rw [if_pos rfl, ← doomed, update_eq_self]
    show Q () (ItState.view t _)
    rw [eq]
    exact post

theorem iupdateFreed_wp {Q : Unit → ItView → Prop} (held : v.held ip = some (true, attr, false))
    (doomed : v.stage ip = .doomed t) (untyped : attr.type = 0)
    (post : Q () { v with stage := update v.stage ip (.gone t) }) :
    wp itMachine itOutline t (ItAct.iupdate ip).run Q v := by
  refine wp_step fun s c inv view => ?_
  have view : s.view t = v := view
  subst view
  obtain ⟨locked, eq⟩ := ItState.view_held.mp held
  simp only [Prod.mk.injEq] at eq
  obtain ⟨valid, rfl, clean⟩ := eq
  have doomed' := ItState.view_stage rfl doomed
  have slot := inv.slot ip
  obtain ⟨only, _, noLinks, _⟩ := slot.doomed t doomed'
  have now : (if s.stage ip = .doomed t ∧ (s.inode ip).attr.type = 0 then Stage.gone t else s.stage ip) =
    .gone t :=
    if_pos ⟨doomed', untyped⟩
  refine ⟨fun _ => doomed', fun _ => ⟨inv.iupdate locked valid (by rw [doomed']; simp) now (fun u owner => ?_)
    (fun u eq => by cases eq) (fun u eq => ?_) (fun quiet => by cases quiet) (fun u member => ?_)
    (fun isNamed => ?_),
    fun other different => ItState.iupdate_view locked different, ?_⟩⟩
  · exact slot.owner u (by rw [doomed']; exact owner)
  · cases eq
    exact ⟨rfl, noLinks⟩
  · rw [only, List.mem_singleton] at member
    rw [member]
    exact .inr (.inl rfl)
  · exact absurd noLinks (slot.linked isNamed (by rw [only]; simp) valid)
  · have eq : (s.iupdate t ip).view t = { s.view t with stage := update (s.view t).stage ip (.gone t) } := by
      rw [ItState.iupdate_view_self locked now]
      refine ItView.ext rfl rfl ?_ rfl ?_ rfl
      · show update (s.view t).held ip _ = _
        rw [valid, ← held, update_eq_self]
      · show update (s.view t).stage ip (if some t = some t then Stage.gone t else .normal) = _
        rw [if_pos rfl]
    show Q () (ItState.view t _)
    rw [eq]
    exact post

theorem iupdate_wp {Q : Unit → ItView → Prop} (held : v.held ip = some (true, attr, dirty))
    (normal : v.stage ip = .normal)
    (post : Q () { v with toHandles := v.toHandles.hold ip (some (true, attr, false)) }) :
    wp itMachine itOutline t (ItAct.iupdate ip).run Q v := by
  refine wp_step fun s c inv view => ?_
  have view : s.view t = v := view
  subst view
  obtain ⟨locked, eq⟩ := ItState.view_held.mp held
  simp only [Prod.mk.injEq] at eq
  obtain ⟨valid, rfl, _⟩ := eq
  have slot := inv.slot ip
  have used := List.ne_nil_of_mem (slot.locker t locked)
  have quiet := inv.quiet locked normal
  have typed := (slot.read used valid quiet).1
  have now : (if s.stage ip = .doomed t ∧ (s.inode ip).attr.type = 0 then Stage.gone t else s.stage ip) =
    s.stage ip :=
    if_neg fun freed => typed freed.2
  have notGone : ∀ u, s.stage ip ≠ .gone u := by
    intro u gone
    rw [gone] at quiet
    cases quiet
  refine ⟨fun untyped => absurd untyped typed, fun _ => ⟨inv.iupdate locked valid notGone now slot.owner
    (fun u doomed => ?_) (fun u gone => absurd gone (notGone u)) (fun _ => typed) (fun _ _ => .inl typed)
    (fun _ => typed), fun other different => ItState.iupdate_view locked different, ?_⟩⟩
  · rw [doomed] at quiet
    cases quiet
  · have eq : (s.iupdate t ip).view t =
        { s.view t with toHandles := (s.view t).toHandles.hold ip (some (true, (s.inode ip).attr, false)) } := by
      rw [ItState.iupdate_view_self locked now, valid]
      refine ItView.ext rfl rfl rfl rfl ?_ rfl
      show update (s.view t).stage ip (if (s.stage ip).owner = some t then s.stage ip else .normal) = _
      exact update_eq_self ..
    show Q () (ItState.view t _)
    rw [eq]
    exact post

theorem load_wp {Q : Unit → ItView → Prop} (held : v.held ip = some (valid, attr, false))
    (normal : v.stage ip = .normal)
    (post : ∀ attr claimed,
      Q () { v with toHandles := v.toHandles.hold ip (some (true, attr, false)), claimed }) :
    wp itMachine itOutline t (ItAct.load ip).run Q v := by
  refine wp_step fun s c inv view => ?_
  have view : s.view t = v := view
  subst view
  obtain ⟨locked, eq⟩ := ItState.view_held.mp held
  simp only [Prod.mk.injEq] at eq
  obtain ⟨validEq, rfl, clean⟩ := eq
  have slot := inv.slot ip
  have mine := slot.locker t locked
  have used := List.ne_nil_of_mem mine
  have quiet := inv.quiet locked normal
  have own := ItState.view_stage_normal normal
  have notGone : ∀ u, s.stage ip ≠ .gone u := by
    intro u gone
    rw [gone] at quiet
    cases quiet
  refine ⟨fun type claimed => ⟨?_, ((inv.key _).unread t type claimed).2⟩, fun _ => ?_⟩
  · rcases (slot.unread t type claimed used).1 with invalid | ⟨u, gone⟩
    · exact invalid
    · exact absurd gone (notGone u)
  simp only [itMachine]
  split
  next isValid =>
    refine ⟨inv, fun _ _ => rfl, ?_⟩
    have same := post (s.inode ip).attr (s.view t).claimed
    rw [show (s.view t).toHandles.hold ip (some (true, (s.inode ip).attr, false)) = (s.view
      t).toHandles from ?_] at same
    · exact same
    · rw [← validEq, isValid] at held
      rw [Handles.hold, ← held, update_eq_self]
  next notValid =>
    have invalid : (s.inode ip).valid = false := by simpa using notValid
    have typed : (s.dinode ip).type ≠ 0 := inv.alive mine normal
    rw [if_neg typed]
    -- Only the process itself can have allocated the inode and not yet read it.
    have claims : ∀ u type, s.claimed (s.inode ip).key = some (u, type) → u = t := by
      intro u type claimed
      rcases (slot.unread u type claimed used).2 t mine with same | gone | dead
      · exact same.symm
      · rw [gone] at own
        exact absurd rfl own
      · rw [dead] at own
        exact absurd rfl own
    have unclaimed : (s.load t ip).claimed (s.inode ip).key = none := by
      simp only [ItState.load]
      split
      next => exact update_self ..
      next notMine =>
        cases claimed : s.claimed (s.inode ip).key with
        | none => rfl
        | some x => exact absurd (by rw [claimed]; exact congrArg some (claims x.1 x.2 claimed)) notMine
    have elsewhere : ∀ k', k' ≠ (s.inode ip).key → (s.load t ip).claimed k' = s.claimed k' := by
      intro k' other
      simp only [ItState.load]
      split
      next => exact update_of_ne other ..
      next => rfl
    refine ⟨inv.changeUsed used (fun b apart => ?_)
      (fun k' other => ⟨rfl, rfl, elsewhere k' other⟩) ?_ ?_ ?_ ?_,
      fun other different => ?_, ?_⟩
    · simp [ItState.load, ItState.setInode, ItState.put, apart]
    · simp [ItState.load, ItState.setInode, ItState.put]
    · rw [unclaimed]
      simp only [ItState.load, ItState.setInode, ItState.put, update_self]
      refine ⟨slot.refs, slot.locker, slot.owner, fun u doomed => ?_, fun u gone => absurd gone (notGone u),
        fun changed => ?_, fun _ _ _ => ⟨typed, rfl, fun _ => rfl⟩, slot.alive, fun isNamed _ _ => ?_,
        fun u type none => by cases none⟩
      · rw [doomed] at quiet
        cases quiet
      · rw [clean] at changed
        cases changed
      · rcases inv.linked _ isNamed with links | ⟨b, atB, changed⟩
        · exact links
        · rw [inv.unique b ip (inv.used_of_dirty changed) used atB, clean] at changed
          cases changed
    · rw [unclaimed]
      exact ⟨fun isNamed => ⟨rfl, ((inv.key _).linked isNamed).2⟩, fun u type none => by cases none⟩
    · intro isNamed
      rcases inv.linked _ isNamed with links | ⟨b, atB, changed⟩
      · exact .inl links
      · rw [inv.unique b ip (inv.used_of_dirty changed) used atB, clean] at changed
        cases changed
    · have put : (s.setInode ip { s.inode ip with attr := s.dinode ip, valid := true }).view
        other = s.view other :=
        ItState.locked_view locked different (by simp [locked, different.symm]) rfl
      refine Eq.trans (b := (s.setInode ip { s.inode ip with attr := s.dinode ip, valid := true }).view other)
        (ItView.ext rfl rfl rfl rfl rfl (funext fun k => ?_)) put
      show (if ((s.load t ip).claimed k).map Prod.fst = some other then _ else _) =
        if (s.claimed k).map Prod.fst = some other then _ else _
      by_cases same : k = (s.inode ip).key
      · rw [same, unclaimed]
        have notOther : (s.claimed (s.inode ip).key).map Prod.fst ≠ some other := by
          intro eq
          obtain ⟨x, claimed, rfl⟩ := Option.map_eq_some_iff.mp eq
          exact different (claims x.1 x.2 claimed)
        rw [if_neg notOther]
        rfl
      · rw [elsewhere k same]
        rfl
    · have eq : (s.load t ip).view t = { s.view t with
          toHandles := (s.view t).toHandles.hold ip (some (true, s.dinode ip, false))
          claimed := ((s.load t ip).view t).claimed } := by
        have put : (s.setInode ip { s.inode ip with attr := s.dinode ip, valid := true }).view t = _ :=
          ItState.setInode_view_self
        rw [if_pos locked, clean] at put
        exact ItView.ext (congrArg (fun v => v.mine) put) (congrArg (fun v => v.key) put)
          (congrArg (fun v => v.held) put) (congrArg (fun v => v.table) put)
          (congrArg (fun v => v.stage) put) rfl
      show Q () (ItState.view t _)
      rw [eq]
      exact post _ _

theorem ninodes_wp {Q : Nat → ItView → Prop} (post : ∀ n, Q n v) :
    wp itMachine itOutline t ItAct.ninodes.run Q v := by
  refine wp_step fun s c inv view => ⟨trivial, fun _ => ⟨inv, fun _ _ => rfl, ?_⟩⟩
  have view : s.view t = v := view
  subst view
  exact post _

theorem claim_wp {Q : Bool → ItView → Prop} {k : Key} {type : Nat} (typed : type ≠ 0) (used : Q false v)
    (free : Q true { v with claimed := update v.claimed k (some type) }) :
    wp itMachine itOutline t (ItAct.claim k type).run Q v := by
  refine wp_step fun s c inv view => ⟨trivial, fun _ => ?_⟩
  have view : s.view t = v := view
  subst view
  simp only [itMachine]
  split
  next untyped =>
    have notNamed : s.named k ≠ true := fun isNamed => ((inv.key k).linked isNamed).2 untyped
    have unclaimed : s.claimed k = none := by
      cases claimed : s.claimed k with
      | none => rfl
      | some x =>
        obtain ⟨typed', eq⟩ := (inv.key k).unread x.1 x.2 claimed
        rw [eq] at untyped
        exact absurd untyped typed'
    refine ⟨⟨inv.unique, fun b => ?_, fun k' => ?_, fun k' => ?_⟩, fun other different => ?_, ?_⟩
    · have slot := inv.slot b
      by_cases same : (s.inode b).key = k
      · simp only [same, update_self]
        rw [same] at slot
        by_cases busy : s.users b = []
        · rw [busy] at slot ⊢
          exact slot.idle
        · -- Whoever points to the entry has freed it, and it is invalid or about to be.
          have freed : ∀ u ∈ s.users b, s.stage b = .gone u ∨ s.stage b = .dead u :=
            fun u member => (slot.alive u member).resolve_left (fun typed => typed untyped)
          obtain ⟨u, member⟩ := List.exists_mem_of_ne_nil _ busy
          have notRead : (s.inode b).valid = true → (s.stage b).quiet ≠ true := by
            intro valid quiet
            obtain ⟨typed, eq, _⟩ := slot.read busy valid quiet
            exact typed (eq.trans untyped)
          refine ⟨slot.refs, slot.locker, slot.owner, slot.doomed, slot.gone, slot.changed,
            fun _ valid quiet => absurd quiet (notRead valid), fun _ _ => .inl typed,
            fun isNamed => absurd isNamed notNamed, fun w type' claimed _ =>
            ⟨?_, fun w' member' => .inr (freed w' member')⟩⟩
          cases valid : (s.inode b).valid with
          | false => exact .inl rfl
          | true =>
            rcases freed u member with gone | dead
            · exact .inr ⟨u, gone⟩
            · exact absurd (by rw [dead]; rfl) (notRead valid)
      · simp only [update_of_ne same]
        exact slot
    · by_cases same : k' = k
      · simp only [same, update_self]
        refine ⟨fun isNamed => absurd isNamed notNamed, fun u type' claimed => ?_⟩
        cases claimed
        exact ⟨typed, rfl⟩
      · simp only [update_of_ne same]
        exact inv.key k'
    · intro isNamed
      by_cases same : k' = k
      · exact absurd (same ▸ isNamed) notNamed
      · simp only [update_of_ne same]
        exact inv.linked k' isNamed
    · refine ItView.ext rfl rfl rfl rfl rfl (funext fun k' => ?_)
      by_cases same : k' = k
      · simp [ItState.view, same, unclaimed, different.symm]
      · simp only [ItState.view]
        rw [update_of_ne same]
    · have eq : ItState.view t { s with
          disk := update s.disk k (fresh type), claimed := update s.claimed k (some (t, type)) } =
          { s.view t with claimed := update (s.view t).claimed k (some type) } := by
        refine ItView.ext rfl rfl rfl rfl rfl (funext fun k' => ?_)
        by_cases same : k' = k
        · simp [ItState.view, same]
        · simp only [ItState.view]
          rw [update_of_ne same, update_of_ne same]
      show Q true (ItState.view t _)
      rw [eq]
      exact free
  next => exact ⟨inv, fun _ _ => rfl, used⟩

theorem enter_wp {Q : Unit → ItView → Prop} (mine : 0 < v.mine ip)
    (normal : v.stage ip = .normal) (post : Q () v) :
    wp itMachine itOutline t (ItAct.enter ip).run Q v := by
  refine wp_step fun s c inv view => ⟨trivial, fun allowed => ?_⟩
  have view : s.view t = v := view
  subst view
  obtain ⟨valid, links⟩ : (s.inode ip).valid = true ∧ (s.inode ip).attr.nlink ≠ 0 := allowed
  have mine := ItState.view_mine.mp mine
  have used := List.ne_nil_of_mem mine
  have slot := inv.slot ip
  have notGone : ∀ u, s.stage ip ≠ .gone u := fun u gone => links (slot.gone u gone).2.2
  have quiet : (s.stage ip).quiet = true := by
    cases stage : s.stage ip with
    | normal => rfl
    | dead u => rfl
    | doomed u => exact absurd stage ((inv.stage_self mine normal).1 u)
    | gone u => exact absurd stage (notGone u)
  have unclaimed := slot.notClaimed used valid notGone
  refine ⟨inv.changeUsed used (fun b _ => ⟨rfl, rfl, rfl, rfl⟩)
    (fun k' other => ⟨rfl, update_of_ne other .., rfl⟩) rfl
    ⟨slot.refs, slot.locker, slot.owner, slot.doomed, slot.gone, slot.changed, slot.read, slot.alive,
    fun _ _ _ => links,
      slot.unread⟩ ⟨fun _ => ⟨unclaimed, inv.alive mine normal⟩, (inv.key _).unread⟩ fun _ => ?_,
      fun _ _ => rfl, post⟩
  cases changed : s.dirty ip with
  | true => exact .inr ⟨ip, rfl, changed⟩
  | false =>
    have same := (slot.read used valid quiet).2.2 changed
    exact .inl (same ▸ links)

theorem remove_wp {Q : Unit → ItView → Prop} {k : Key} (post : Q () v) :
    wp itMachine itOutline t (ItAct.remove k).run Q v := by
  refine wp_step fun s c inv view => ⟨trivial, fun _ => ?_⟩
  have view : s.view t = v := view
  subst view
  have fewer : ∀ k', update s.named k false k' = true → s.named k' = true := by
    intro k' isNamed
    by_cases same : k' = k
    · simp [same] at isNamed
    · simpa [same] using isNamed
  refine ⟨⟨inv.unique, fun b => ?_, fun k' => ⟨fun isNamed => (inv.key k').linked (fewer k' isNamed),
    (inv.key k').unread⟩,
    fun k' isNamed => inv.linked k' (fewer k' isNamed)⟩, fun _ _ => rfl, post⟩
  have slot := inv.slot b
  exact ⟨slot.refs, slot.locker, slot.owner, slot.doomed, slot.gone, slot.changed, slot.read, slot.alive,
    fun isNamed => slot.linked (fewer _ isNamed), slot.unread⟩

end Xv6.Itable
