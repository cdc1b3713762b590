import Xv6.Itable.Invariant

namespace Xv6.Itable
open Threads Function

variable {s : ItState} {t : Pid} {v : ItView} {ip : Slot}

section Views

theorem ItState.view_mine : 0 < (s.view t).mine ip ↔ t ∈ s.users ip := List.count_pos_iff

theorem ItState.view_held {x : Bool × Dinode × Bool} : (s.view t).held ip = some x ↔
    (s.inode ip).locked = some t ∧ ((s.inode ip).valid, (s.inode ip).attr, s.dirty ip) = x := by
  simp only [ItState.view, Option.ite_none_right_eq_some, Option.some.injEq]

theorem ItState.view_free : (s.view t).held ip = none ↔ (s.inode ip).locked ≠ some t := by
  simp only [ItState.view, ite_eq_right_iff, reduceCtorEq, imp_false, ne_eq]

theorem ItState.view_table : (s.view t).table = true ↔ s.lock = some t := by
  simp [ItState.view]

theorem ItState.view_stage_normal : (s.view t).stage ip = .normal → (s.stage ip).owner ≠ some t := by
  intro normal owner
  simp only [ItState.view, if_pos owner] at normal
  rw [normal] at owner
  cases owner

theorem ItState.view_stage {stage : Stage} (own : stage.owner = some t) :
    (s.view t).stage ip = stage → s.stage ip = stage := by
  intro eq
  simp only [ItState.view] at eq
  split at eq
  next => exact eq
  next =>
    rw [← eq] at own
    cases own

/-- The own view of a process that stores an entry. -/
theorem ItState.put_view_self {new : Inode} {users : List Pid} {stage : Stage} {dirty : Bool} :
    (s.put ip new users stage dirty).view t = { s.view t with
      mine := update (s.view t).mine ip (users.count t)
      key := update (s.view t).key ip (if t ∈ users then some new.key else none)
      held := update (s.view t).held ip (if new.locked = some t then some (new.valid, new.attr, dirty) else none)
      stage := update (s.view t).stage ip (if stage.owner = some t then stage else .normal) } := by
  refine ItView.ext (funext fun b => ?_) (funext fun b => ?_) (funext fun b => ?_) rfl
    (funext fun b => ?_) rfl
  all_goals by_cases same : b = ip
  all_goals simp [ItState.view, ItState.put, same]

/-- The entries that a process is in the middle of freeing have nobody else. -/
theorem ItInv.stage_self (inv : ItInv s) (mine : t ∈ s.users ip) (normal : (s.view t).stage ip = .normal) :
    (∀ u, s.stage ip ≠ .doomed u) ∧ ∀ u, s.stage ip = .gone u → u ≠ t := by
  have own := ItState.view_stage_normal normal
  refine ⟨fun u doomed => ?_, fun u gone same => ?_⟩
  · have only := ((inv.slot ip).doomed u doomed).1
    rw [only, List.mem_singleton] at mine
    rw [doomed] at own
    exact own (mine ▸ rfl)
  · rw [gone] at own
    exact own (same ▸ rfl)

/-- An entry that its process has locked, and is not in the middle of freeing, is quiet. -/
theorem ItInv.quiet (inv : ItInv s) (locked : (s.inode ip).locked = some t)
    (normal : (s.view t).stage ip = .normal) :
    (s.stage ip).quiet = true := by
  have mine := (inv.slot ip).locker t locked
  obtain ⟨notDoomed, notGone⟩ := inv.stage_self mine normal
  cases stage : s.stage ip with
  | normal => rfl
  | dead u => rfl
  | doomed u => exact absurd stage (notDoomed u)
  | gone u =>
    have holder := ((inv.slot ip).gone u stage).1
    rw [locked] at holder
    exact absurd (Option.some.inj holder).symm (notGone u stage)

/-- An inode that can be read and whose entry is quiet is not allocated by somebody who has not read it. -/
theorem SlotOk.notClaimed {i : Inode} {users : List Pid} {stage : Stage} {dirty : Bool}
    {d : Dinode} {n : Bool}
    {c : Option (Pid × Nat)} (h : SlotOk i users stage dirty d n c) (used : users ≠ [])
    (valid : i.valid = true)
    (notGone : ∀ u, stage ≠ .gone u) : c = none := by
  cases claimed : c with
  | none => rfl
  | some x =>
    rcases (h.unread x.1 x.2 claimed used).1 with invalid | ⟨u, gone⟩
    · rw [valid] at invalid
      cases invalid
    · exact absurd gone (notGone u)

end Views

section Table

theorem acquire_wp {Q : Unit → ItView → Prop} (post : Q () { v with table := true }) :
    wp itMachine itOutline t ItAct.acquire.run Q v := by
  refine wp_step fun s c inv view => ⟨trivial, fun _ => ?_⟩
  have view : s.view t = v := view
  subst view
  simp only [itMachine]
  split
  next => trivial
  next free =>
    have free : s.lock = none := by simpa using free
    refine ⟨⟨inv.unique, inv.slot, inv.key, inv.linked⟩, fun other different => ?_, ?_⟩
    · refine ItView.ext rfl rfl rfl ?_ rfl rfl
      simp [ItState.view, free, different.symm]
    · have eq : ItState.view t { s with lock := some t } = { s.view t with table := true } :=
        ItView.ext rfl rfl rfl (by simp [ItState.view]) rfl rfl
      show Q () (ItState.view t _)
      rw [eq]
      exact post

theorem release_wp {Q : Unit → ItView → Prop} (table : v.table = true)
    (post : Q () { v with table := false }) :
    wp itMachine itOutline t ItAct.release.run Q v := by
  refine wp_step fun s c inv view => ⟨trivial, fun _ => ?_⟩
  have view : s.view t = v := view
  subst view
  have held := ItState.view_table.mp table
  refine ⟨⟨inv.unique, inv.slot, inv.key, inv.linked⟩, fun other different => ?_, ?_⟩
  · refine ItView.ext rfl rfl rfl ?_ rfl rfl
    simp [ItState.view, held, different.symm]
  · have eq : ItState.view t { s with lock := none } = { s.view t with table := false } :=
      ItView.ext rfl rfl rfl (by simp [ItState.view]) rfl rfl
    show Q () (ItState.view t _)
    rw [eq]
    exact post

/-- One more pointer for a process that may have one. -/
theorem SlotOk.hit {i : Inode} {users : List Pid} {stage : Stage} {dirty : Bool} {d : Dinode} {n : Bool}
    {c : Option (Pid × Nat)} (h : SlotOk i users stage dirty d n c) (used : users ≠ [])
    (own : stage.owner ≠ some t)
    (notDoomed : ∀ u, stage ≠ .doomed u) (alive : d.type ≠ 0)
    (unread : ∀ u type, c = some (u, type) → t = u) :
    SlotOk { i with ref := i.ref + 1 } (t :: users) stage dirty d n c := by
  refine ⟨?_, fun u locked => List.mem_cons_of_mem _ (h.locker u locked), fun u owner => ?_,
    fun u doomed => absurd doomed (notDoomed u), h.gone, h.changed, fun _ => h.read used,
    fun u member => .inl alive,
    fun isNamed _ => h.linked isNamed used, fun u type claimed _ => ?_⟩
  · simp [h.refs]
  · rw [List.count_cons_of_ne]
    · exact h.owner u owner
    · rintro rfl
      exact own owner
  · obtain ⟨invalid, others⟩ := h.unread u type claimed used
    refine ⟨invalid, fun w member => ?_⟩
    rcases List.mem_cons.mp member with rfl | old
    · exact .inl (unread u type claimed)
    · exact others w old

/-- Other processes do not see one more pointer. -/
theorem ItState.hit_view {other : Pid} (different : other ≠ t) : (s.hit t ip).view other = s.view other :=
  ItState.put_view (List.count_cons_of_ne different.symm) (fun _ => rfl)
    (fun _ => ⟨rfl, rfl, rfl, rfl⟩) fun _ => rfl

theorem ItState.hit_view_self : (s.hit t ip).view t =
    { s.view t with toHandles := (s.view t).toHandles.take ip (s.inode ip).key } := by
  unfold ItState.hit
  rw [ItState.put_view_self]
  refine ItView.ext (funext fun b => ?_) (funext fun b => ?_) (funext fun b => ?_) rfl
    (funext fun b => ?_) rfl
  all_goals by_cases same : b = ip
  all_goals simp [ItState.view, Handles.take, same]

theorem find_wp {Q : Slot → ItView → Prop} {k : Key} (table : v.table = true)
    (still : ∀ b, v.stage b = .normal)
    (post : ∀ ip, Q ip { v with toHandles := v.toHandles.take ip k }) :
    wp itMachine itOutline t (ItAct.find k).run Q v := by
  refine wp_step fun s c inv view => ?_
  have view : s.view t = v := view
  subst view
  refine ⟨ItState.view_table.mp table, fun allowed => ?_⟩
  have allowed : s.named k = true ∨ (s.claimed k).map Prod.fst = some t := allowed
  have alive : (s.disk k).type ≠ 0 := by
    rcases allowed with isNamed | claimed
    · exact ((inv.key k).linked isNamed).2
    · obtain ⟨x, made, _⟩ := Option.map_eq_some_iff.mp claimed
      obtain ⟨typed, eq⟩ := (inv.key k).unread x.1 x.2 made
      rw [eq]
      exact typed
  have unread : ∀ u type, s.claimed k = some (u, type) → t = u := by
    intro u type claimed
    rcases allowed with isNamed | mine
    · rw [((inv.key k).linked isNamed).1] at claimed
      cases claimed
    · rw [claimed] at mine
      exact (Option.some.inj mine).symm
  simp only [itMachine, ItState.find]
  cases lookup : s.lookup k with
  | some ip =>
    obtain ⟨positive, key⟩ : 0 < (s.inode ip).ref ∧ (s.inode ip).key = k := by
      simpa using List.find?_some lookup
    have slot := inv.slot ip
    have used : s.users ip ≠ [] := by
      rintro none
      rw [slot.refs, none] at positive
      simp at positive
    have notDoomed : ∀ u, s.stage ip ≠ .doomed u := by
      -- A doomed inode has no links, and nobody has just allocated it.
      intro u doomed
      obtain ⟨_, valid, noLinks, _⟩ := slot.doomed u doomed
      rw [key] at slot
      rcases allowed with isNamed | mine
      · exact slot.linked isNamed used valid noLinks
      · have := slot.notClaimed used valid fun w gone => by rw [doomed] at gone; cases gone
        rw [this] at mine
        cases mine
    refine ⟨inv.put used rfl (slot.hit used (ItState.view_stage_normal (still ip)) notDoomed (key ▸ alive)
      (key ▸ unread)) id, fun other different => ItState.hit_view different, ?_⟩
    show Q ip (ItState.view t _)
    rw [ItState.hit_view_self, key]
    exact post ip
  | none =>
    have missing : ∀ b, s.users b ≠ [] → (s.inode b).key ≠ k := by
      intro b used key
      have := List.find?_eq_none.mp lookup b (List.mem_finRange b)
      simp only [key, beq_self_eq_true, Bool.and_true, decide_eq_true_eq, (inv.slot b).refs] at this
      exact used (List.eq_nil_of_length_eq_zero (by omega))
    cases empty : s.empty with
    | none => exact rfl
    | some ip =>
      have none : (s.inode ip).ref = 0 := by simpa using List.find?_some empty
      have slot := inv.slot ip
      have users : s.users ip = [] := List.eq_nil_of_length_eq_zero (by rw [← slot.refs, none])
      rw [users] at slot
      obtain ⟨unlocked, clean, normal⟩ := slot.unused
      refine ⟨inv.change (k := k) (show s.users ip ≠ [] → _ from fun used => absurd users used)
        (fun b apart => ?_)
        (fun _ _ => ⟨rfl, rfl, rfl⟩) (by simp [ItState.put]) (fun b _ used => missing b used)
        ?_ (inv.key k) ?_,
        fun other different => ?_, ?_⟩
      · simp [ItState.put, apart]
      · simp only [ItState.put, update_self, users, normal, clean]
        refine ⟨rfl, fun u locked => ?_, fun u owner => (by cases owner), fun u doomed => (by cases doomed),
          fun u gone => (by cases gone), fun changed => (by cases changed), fun _ invalid =>
          (by cases invalid),
          fun u _ => .inl alive, fun _ _ invalid => (by cases invalid), fun u type claimed _ =>
          ⟨.inl rfl, fun w member => .inl ?_⟩⟩
        · rw [show (s.inode ip).locked = some u from locked] at unlocked
          cases unlocked
        · rw [List.mem_singleton.mp member]
          exact unread u type claimed
      · intro isNamed
        rcases inv.linked k isNamed with links | ⟨b, atB, changed⟩
        · exact .inl links
        · right
          have apart : b ≠ ip := by
            rintro rfl
            rw [clean] at changed
            cases changed
          exact ⟨b, by simpa [ItState.put, apart] using atB, by simpa [ItState.put, apart] using changed⟩
      · refine ItState.put_view (List.count_cons_of_ne different.symm) (fun member => ?_)
          (fun locks => ?_) fun _ => rfl
        · rw [users] at member
          cases member
        · simp [unlocked] at locks
      · have eq : (s.put ip { s.inode ip with key := k, ref := 1, valid := false }
            (t :: s.users ip) (s.stage ip)
            (s.dirty ip)).view t = { s.view t with toHandles := (s.view t).toHandles.take ip k } := by
          rw [ItState.put_view_self]
          refine ItView.ext (funext fun b => ?_) (funext fun b => ?_) (funext fun b => ?_) rfl
            (funext fun b => ?_) rfl
          all_goals by_cases same : b = ip
          all_goals simp [ItState.view, Handles.take, same, unlocked]
        show Q ip (ItState.view t _)
        rw [eq]
        exact post ip

/-- An inode that a process points to is allocated, unless the process is the one that has freed it. -/
theorem ItInv.alive (inv : ItInv s) (mine : t ∈ s.users ip) (normal : (s.view t).stage ip = .normal) :
    (s.disk (s.inode ip).key).type ≠ 0 := by
  have own := ItState.view_stage_normal normal
  rcases (inv.slot ip).alive t mine with typed | gone | dead
  · exact typed
  · rw [gone] at own
    exact absurd rfl own
  · rw [dead] at own
    exact absurd rfl own

theorem incRef_wp {Q : Unit → ItView → Prop} (table : v.table = true) (mine : 0 < v.mine ip)
    (normal : v.stage ip = .normal) (post : ∀ k, Q () { v with toHandles := v.toHandles.take ip k }) :
    wp itMachine itOutline t (ItAct.incRef ip).run Q v := by
  refine wp_step fun s c inv view => ?_
  have view : s.view t = v := view
  subst view
  have mine := ItState.view_mine.mp mine
  have used := List.ne_nil_of_mem mine
  refine ⟨ItState.view_table.mp table, fun _ => ⟨inv.put used rfl ((inv.slot ip).hit used
    (ItState.view_stage_normal normal) (inv.stage_self mine normal).1 (inv.alive mine normal)
    fun u type claimed => ?_) id,
    fun other different => ItState.hit_view different, ?_⟩⟩
  · have own := ItState.view_stage_normal normal
    rcases ((inv.slot ip).unread u type claimed used).2 t mine with same | gone | dead
    · exact same
    · rw [gone] at own
      exact absurd rfl own
    · rw [dead] at own
      exact absurd rfl own
  · show Q () (ItState.view t _)
    rw [ItState.hit_view_self]
    exact post _

theorem isLast_wp {Q : Bool → ItView → Prop} (table : v.table = true) (mine : 0 < v.mine ip)
    (normal : v.stage ip = .normal) (free : v.held ip = none ∨ 2 ≤ v.mine ip) (more : Q false v)
    (last : v.mine ip = 1 → v.held ip = none → Q true { v with stage := update v.stage ip (.doomed t) }) :
    wp itMachine itOutline t (ItAct.isLast ip).run Q v := by
  refine wp_step fun s c inv view => ?_
  have view : s.view t = v := view
  subst view
  refine ⟨ItState.view_table.mp table, fun _ => ?_⟩
  simp only [itMachine]
  split
  next seen =>
    obtain ⟨one, valid, noLinks⟩ := seen
    have mine := ItState.view_mine.mp mine
    have slot := inv.slot ip
    have only : s.users ip = [t] := by
      obtain ⟨u, only⟩ := List.length_eq_one_iff.mp (slot.refs ▸ one)
      rw [only, List.mem_singleton] at mine
      rw [only, mine]
    have used : s.users ip ≠ [] := by rw [only]; simp
    have count : (s.view t).mine ip = 1 := by simp [ItState.view, only]
    have free : (s.view t).held ip = none := by
      rcases free with free | two
      · exact free
      · omega
    have unlocked : (s.inode ip).locked = none := by
      cases locked : (s.inode ip).locked with
      | none => rfl
      | some u =>
        have member := slot.locker u locked
        rw [only, List.mem_singleton] at member
        exact absurd (member ▸ locked) (ItState.view_free.mp free)
    have noStage : s.stage ip = .normal := by
      have own := ItState.view_stage_normal normal
      cases owner : (s.stage ip).owner with
      | none =>
        cases stage : s.stage ip with
        | normal => rfl
        | _ => rw [stage] at owner; cases owner
      | some u =>
        have member := List.count_pos_iff.mp (Nat.lt_of_lt_of_eq Nat.one_pos (slot.owner u owner).symm)
        rw [only, List.mem_singleton] at member
        exact absurd (member ▸ owner) own
    have clean : s.dirty ip = false := by
      rw [← Bool.not_eq_true]
      exact fun changed => (slot.changed changed).1 unlocked
    have typed := (slot.read used valid (by rw [noStage]; rfl)).1
    have alive := inv.alive mine normal
    refine ⟨inv.put used rfl ⟨slot.refs, slot.locker, fun u owner => ?_, fun u doomed => ?_,
      fun u gone => (by cases gone), fun changed => ?_, fun _ _ quiet => (by cases quiet),
      fun u member => .inl alive, slot.linked, fun u type claimed _ => ?_⟩ id,
      fun other different => ?_, ?_⟩
    · rw [← Option.some.inj owner, only]
      simp
    · cases doomed
      exact ⟨only, valid, noLinks, fun _ => typed⟩
    · rw [clean] at changed
      cases changed
    · rw [slot.notClaimed used valid fun w gone => by rw [noStage] at gone; cases gone] at claimed
      cases claimed
    · refine ItState.put_view rfl (fun _ => rfl) (fun _ => ⟨rfl, rfl, rfl, rfl⟩) fun owns => ?_
      rcases owns with owner | owner
      · exact absurd (Option.some.inj owner).symm different
      · rw [noStage] at owner
        cases owner
    · have eq : (s.put ip (s.inode ip) (s.users ip) (.doomed t) (s.dirty ip)).view t =
          { s.view t with stage := update (s.view t).stage ip (.doomed t) } := by
        rw [ItState.put_view_self]
        refine ItView.ext (funext fun b => ?_) (funext fun b => ?_) (funext fun b => ?_) rfl
          (funext fun b => ?_) rfl
        all_goals by_cases same : b = ip
        all_goals simp [ItState.view, same, Stage.owner]
      show Q true (ItState.view t _)
      rw [eq]
      exact last count free
  next => exact ⟨inv, fun _ _ => rfl, more⟩

theorem decRef_wp {Q : Unit → ItView → Prop} (table : v.table = true) (mine : 0 < v.mine ip)
    (stage : v.stage ip = .normal ∨ v.stage ip = .dead t) (free : v.held ip = none ∨ 2 ≤ v.mine ip)
    (post : Q () { v with toHandles := v.toHandles.drop ip, stage := update v.stage ip .normal }) :
    wp itMachine itOutline t (ItAct.decRef ip).run Q v := by
  refine wp_step fun s c inv view => ?_
  have view : s.view t = v := view
  subst view
  refine ⟨ItState.view_table.mp table, fun _ => ?_⟩
  have mine := ItState.view_mine.mp mine
  have used := List.ne_nil_of_mem mine
  have slot := inv.slot ip
  have others : ∀ u, u ≠ t → ((s.users ip).erase t).count u = (s.users ip).count u :=
    fun u different => List.count_erase_of_ne different
  -- The stage is of another process, or ends here with the only pointer of its process.
  have after : (s.stage ip = .dead t ∧ t ∉ (s.users ip).erase t) ∨
      ((s.stage ip).owner ≠ some t ∧ ∀ u, s.stage ip ≠ .doomed u) := by
    rcases stage with normal | dead
    · exact .inr ⟨ItState.view_stage_normal normal, (inv.stage_self mine normal).1⟩
    · have dead := ItState.view_stage rfl dead
      refine .inl ⟨dead, fun member => ?_⟩
      have one := slot.owner t (by rw [dead]; rfl)
      have positive := List.count_pos_iff.mpr member
      rw [List.count_erase_self, one] at positive
      omega
  have new : ∀ u, (if s.stage ip = .dead t then Stage.normal else s.stage ip) = .gone u →
    s.stage ip = .gone u := by
    intro u gone
    split at gone
    next => cases gone
    next => exact gone
  have locker : ∀ u, (s.inode ip).locked = some u → u ∈ (s.users ip).erase t := by
    intro u locked
    by_cases same : u = t
    · rw [same] at locked ⊢
      have two : 2 ≤ (s.users ip).count t := by
        rcases free with free | two
        · exact absurd locked (ItState.view_free.mp free)
        · exact two
      refine List.count_pos_iff.mp ?_
      rw [List.count_erase_self]
      omega
    · exact (List.mem_erase_of_ne same).mpr (slot.locker u locked)
  refine ⟨inv.put used rfl ⟨?_, locker, fun u owner => ?_, fun u doomed => ?_, fun u gone =>
    slot.gone u (new u gone),
    fun changed => ?_, fun _ valid quiet => ?_, fun u member => ?_, fun isNamed _ => slot.linked isNamed used,
    fun u type claimed rest => ?_⟩ id, fun other different => ?_, ?_⟩
  · rw [List.length_erase_of_mem mine, slot.refs]
  · split at owner
    next => cases owner
    next =>
      rw [others u fun same => ?_]
      · exact slot.owner u owner
      · rw [same] at owner
        rcases after with ⟨dead, _⟩ | ⟨own, _⟩
        · contradiction
        · exact own owner
  · split at doomed
    next => cases doomed
    next notDead =>
      rcases after with ⟨dead, _⟩ | ⟨_, notDoomed⟩
      · exact absurd dead notDead
      · exact absurd doomed (notDoomed u)
  · obtain ⟨locked, valid, quiet⟩ := slot.changed changed
    refine ⟨locked, valid, ?_⟩
    split
    next => rfl
    next => exact quiet
  · refine slot.read used valid ?_
    split at quiet
    next dead => rw [dead]; rfl
    next => exact quiet
  · rcases slot.alive u (List.mem_of_mem_erase member) with typed | gone | dead
    · exact .inl typed
    · right; left
      rw [if_neg (by rw [gone]; simp)]
      exact gone
    · by_cases same : s.stage ip = .dead t
      · rw [same] at dead
        cases dead
        rcases after with ⟨_, notIn⟩ | ⟨own, _⟩
        · exact absurd member notIn
        · rw [same] at own
          exact absurd rfl own
      · rw [if_neg same]
        exact .inr (.inr dead)
  · obtain ⟨invalid, owners⟩ := slot.unread u type claimed used
    refine ⟨?_, fun w member => ?_⟩
    · rcases invalid with invalid | ⟨w, gone⟩
      · exact .inl invalid
      · refine .inr ⟨w, ?_⟩
        rw [if_neg (by rw [gone]; simp)]
        exact gone
    · rcases owners w (List.mem_of_mem_erase member) with same | gone | dead
      · exact .inl same
      · right; left
        rw [if_neg (by rw [gone]; simp)]
        exact gone
      · by_cases same : s.stage ip = .dead t
        · rw [same] at dead
          cases dead
          rcases after with ⟨_, notIn⟩ | ⟨own, _⟩
          · exact absurd member notIn
          · rw [same] at own
            exact absurd rfl own
        · rw [if_neg same]
          exact .inr (.inr dead)
  · refine ItState.put_view (others other different) (fun _ => rfl)
      (fun _ => ⟨rfl, rfl, rfl, rfl⟩) fun owns => ?_
    by_cases dead : s.stage ip = .dead t
    · rw [if_pos dead, dead] at owns
      rcases owns with owner | owner
      · cases owner
      · exact absurd (Option.some.inj owner).symm different
    · exact if_neg dead
  · have eq : (s.drop t ip).view t =
        { s.view t with toHandles := (s.view t).toHandles.drop ip, stage := update (s.view t).stage ip .normal } := by
      unfold ItState.drop
      rw [ItState.put_view_self]
      have own : (if (if s.stage ip = .dead t then Stage.normal else s.stage ip).owner = some t then
          (if s.stage ip = .dead t then Stage.normal else s.stage ip) else .normal) = .normal := by
        rcases after with ⟨dead, _⟩ | ⟨own, _⟩
        · rw [if_pos dead]
          rfl
        · by_cases dead : s.stage ip = .dead t
          · rw [if_pos dead]
            rfl
          · rw [if_neg dead, if_neg own]
      have member : t ∈ (s.users ip).erase t ↔ (s.users ip).count t ≠ 1 := by
        have positive := List.count_pos_iff.mpr mine
        rw [← List.count_pos_iff, List.count_erase_self]
        omega
      rw [own]
      refine ItView.ext (funext fun b => ?_) (funext fun b => ?_) (funext fun b => ?_) rfl rfl rfl
      all_goals by_cases same : b = ip
      all_goals simp [ItState.view, Handles.drop, same, member]
      split <;> simp_all
    show Q () (ItState.view t _)
    rw [eq]
    exact post

end Table

end Xv6.Itable
