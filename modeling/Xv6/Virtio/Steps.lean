import Xv6.Virtio.Invariant

namespace Xv6.Virtio
open Threads Function

section Steps

variable {s s' : DiskState} {t other : Actor} {v : VView} {h h' d1 d2 : Nat} {b : BufNo} {c c' : Chain}
  {stage : Stage} {l : List Nat}

theorem DiskState.view_mine {x : Shape × Phase} (mine : (s.view t).mine h = some x) :
    ∃ c, s.chain h = some c ∧ c.owner = t ∧ x = (c.toShape, c.stage.phase) := by
  obtain ⟨c, atH, eq⟩ := Option.bind_eq_some_iff.mp mine
  split at eq
  · next owner => exact ⟨c, atH, owner, (Option.some.inj eq).symm⟩
  · cases eq

theorem DiskState.mine_none (none : (s.view t).mine h = none) (atH : s.chain h = some c) : c.owner ≠ t := by
  intro owner
  simp [view, atH, owner] at none

theorem DiskState.view_locked : (s.view t).locked = true ↔ s.lock = some t := by simp [view]

theorem DiskState.view_bufs : (s.view t).bufs b = true ↔ s.bufLock b = some t := by simp [view]

theorem DiskState.shape_some (atH : s.chain h = some c) : s.shape h = some c.toShape := by
  simp [shape, atH]

theorem DiskState.shape_chain {x : Shape} (atH : s.shape h = some x) :
    ∃ c, s.chain h = some c ∧ c.toShape = x := Option.map_eq_some_iff.mp atH

theorem DiskState.setStage_chain (atH : s.chain h = some c) :
    (s.setStage h stage).chain = update s.chain h (some { c with stage }) := by
  simp [setStage, atH]

/-- The owner of a chain sees it; to everybody else only its phase matters. -/
theorem DiskState.view_eq (lock : s'.lock = some other ↔ s.lock = some other)
    (bufLock : ∀ b, s'.bufLock b = some other ↔ s.bufLock b = some other)
    (chain : ∀ x, (s'.view other).mine x = (s.view other).mine x) : s'.view other = s.view other :=
  VView.ext (by simp only [view, lock]) (funext fun b => by simp only [view, bufLock]) (funext chain)

/-- A change of a chain that another actor does not own. -/
theorem DiskState.mine_other {y : Option Chain} (chain : s'.chain = update s.chain h y)
    (before : ∀ c, s.chain h = some c → c.owner ≠ other) (after : ∀ c, y = some c →
      c.owner ≠ other) (x : Nat) :
    (s'.view other).mine x = (s.view other).mine x := by
  simp only [view, chain]
  by_cases atX : x = h
  · subst atX
    rw [update_self]
    have blind : ∀ z : Option Chain, (∀ c, z = some c → c.owner ≠ other) →
        (z.bind fun c => if c.owner = other then some (c.toShape, c.stage.phase) else none) = none :=
          fun z foreign => by
      cases z with
      | none => rfl
      | some c => exact if_neg (foreign c rfl)
    rw [blind _ before, blind _ after]
  · rw [update_of_ne atX]

/-- A change of a chain within its phase. -/
theorem DiskState.mine_same (atH : s.chain h = some c) (chain : s'.chain = update s.chain h (some c'))
    (shape : c'.toShape = c.toShape) (phase : c'.stage.phase = c.stage.phase) (x : Nat) :
    (s'.view other).mine x = (s.view other).mine x := by
  simp only [view, chain]
  by_cases atX : x = h
  · subst atX
    rw [update_self, atH]
    simp only [Option.bind_some, shape, phase]
  · rw [update_of_ne atX]

/-- What the owner sees of its chain after a change. -/
theorem DiskState.mine_self (chain : s'.chain = update s.chain h (some c')) (owner : c'.owner = t) :
    (s'.view t).mine = update (s.view t).mine h (some (c'.toShape, c'.stage.phase)) := by
  funext x
  simp only [view, chain]
  by_cases atX : x = h
  · subst atX
    simp [owner]
  · simp [atX]

/-! ### Lists of heads -/

theorem Lists.stay (lists : Lists s stage l) (atH : s.chain h = some c)
    (chain : s'.chain = update s.chain h (some c')) (before : c.stage ≠ stage) (after : c'.stage ≠ stage) :
    Lists s' stage l := by
  refine ⟨lists.1, fun x => (lists.2 x).trans ?_⟩
  rw [chain]
  by_cases atX : x = h
  · subst atX
    simp [atH, before, after]
  · rw [update_of_ne atX]

theorem Lists.leave (lists : Lists s stage l) (chain : s'.chain = update s.chain h (some c'))
    (after : c'.stage ≠ stage) : Lists s' stage (l.erase h) := by
  refine ⟨lists.1.erase h, fun x => ?_⟩
  rw [lists.1.mem_erase_iff, lists.2, chain]
  by_cases atX : x = h
  · subst atX
    simp [after]
  · rw [update_of_ne atX]
    simp [atX]

theorem Lists.enter (lists : Lists s stage l) (atH : s.chain h = some c)
    (chain : s'.chain = update s.chain h (some c')) (before : c.stage ≠ stage) (after : c'.stage = stage)
    {l' : List Nat} (more : l'.Perm (h :: l)) : Lists s' stage l' := by
  have absent : h ∉ l := fun member => by
    obtain ⟨d, atD, same⟩ := (lists.2 h).mp member
    rw [atH] at atD
    cases atD
    exact before same
  refine ⟨more.nodup_iff.mpr (List.nodup_cons.mpr ⟨absent, lists.1⟩), fun x => ?_⟩
  rw [more.mem_iff, List.mem_cons, lists.2, chain]
  by_cases atX : x = h
  · subst atX
    simp [after]
  · rw [update_of_ne atX]
    simp [atX]

/-- A list of heads does not fill the ring while there is another chain. -/
theorem VInv.room (inv : VInv s) (lists : Lists s stage l) (atH : s.chain h = some c)
    (apart : c.stage ≠ stage) :
    l.length < NUM := by
  have absent : h ∉ l := fun member => by
    obtain ⟨d, atD, same⟩ := (lists.2 h).mp member
    rw [atH] at atD
    cases atD
    exact apart same
  have small : ∀ x ∈ h :: l, x < NUM := fun x member => by
    rcases List.mem_cons.mp member with rfl | member
    · exact inv.layout.inside x _ x (DiskState.shape_some atH) (by simp [Shape.has])
    · obtain ⟨d, atD, _⟩ := (lists.2 x).mp member
      exact inv.layout.inside x _ x (DiskState.shape_some atD) (by simp [Shape.has])
  have bound := (List.nodup_cons.mpr ⟨absent, lists.1⟩).length_le_of_lt small
  rw [List.length_cons] at bound
  omega

/-- A step that moves one chain to another stage. -/
theorem VInv.change (inv : VInv s) (atH : s.chain h = some c) (chain : s'.chain = update s.chain h (some c'))
    (shape : c'.toShape = c.toShape) (free : s'.table.free = s.table.free) (bufLock : s'.bufLock = s.bufLock)
    (self : ChainOk s' h c') (others : ∀ x d, x ≠ h → s.chain x = some d → ChainOk s' x d)
    (avail : RingQueue NUM s'.availRing s'.takeIdx s'.availIdx s'.submitted)
    (used : RingQueue NUM s'.usedRing s'.usedIdx s'.deviceUsedIdx s'.finished)
    (submitted : Lists s' .submitted s'.submitted) (taken : Lists s' .taken s'.taken)
    (finished : Lists s' .finished s'.finished) : VInv s' := by
  have same : s'.shape = s.shape := by
    funext x
    unfold DiskState.shape
    rw [chain]
    by_cases atX : x = h
    · subst atX
      simp [atH, shape]
    · rw [update_of_ne atX]
  refine ⟨?_, fun x d atX => ?_, avail, used, submitted, taken, finished⟩
  · rw [free, bufLock, same]
    exact inv.layout
  · rw [chain] at atX
    by_cases here : x = h
    · subst here
      rw [update_self] at atX
      cases atX
      exact self
    · exact others x d here (by rwa [update_of_ne here] at atX)

/-- The lists of a step that moves a chain between stages that have none. -/
theorem VInv.unlisted (inv : VInv s) (atH : s.chain h = some c)
    (chain : s'.chain = update s.chain h (some c'))
    (before : c.stage ≠ .submitted ∧ c.stage ≠ .taken ∧ c.stage ≠ .finished)
    (after : c'.stage ≠ .submitted ∧ c'.stage ≠ .taken ∧ c'.stage ≠ .finished) :
    Lists s' .submitted s.submitted ∧ Lists s' .taken s.taken ∧ Lists s' .finished s.finished :=
  ⟨inv.submitted.stay atH chain before.1 after.1, inv.taken.stay atH chain before.2.1 after.2.1,
    inv.finished.stay atH chain before.2.2 after.2.2⟩

/-- Only the holder of the lock has a chain that is in the ring and not yet published. -/
theorem VInv.ringed_mine (inv : VInv s) (lock : s.lock = some t) (single : ∀ x, x ≠ h →
      (s.view t).mine x = none)
    {x : Nat} {d : Chain} (apart : x ≠ h) (atX : s.chain x = some d) : d.stage ≠ .ringed := fun ringed => by
  have owner := ((inv.chains x d atX).ringed ringed).1
  rw [lock] at owner
  exact DiskState.mine_none (single x apart) atX (Option.some.inj owner).symm

/-- The descriptors of a chain are not those of another. -/
theorem Layout.ne {free : Nat → Bool} {bufLock : BufNo → Option Actor} {shape : Nat → Option Shape}
    (layout : Layout free bufLock shape) {x y : Nat} {cx cy : Shape} (atX : shape x = some cx)
    (atY : shape y = some cy) (apart : x ≠ y) {d : Nat} (inX : cx.has x d) : d ∉ [y, cy.d1, cy.d2] :=
  fun inY => apart (layout.disjoint x cx y cy d atX atY inX inY)

theorem Table.Linked.congr {T T' : Table} (linked : T.Linked h d1 d2)
    (same : ∀ d ∈ [h, d1, d2], T'.desc d = T.desc d) : T'.Linked h d1 d2 := by
  have first := same h (by simp)
  have second := same d1 (by simp)
  have third := same d2 (by simp)
  exact ⟨first ▸ linked.first, second ▸ linked.second, third ▸ linked.third⟩

theorem vStep_wp {a : VAct} {Q : a.Resp → VView → Prop}
    (h : ∀ s n, VInv s → s.view t = v → s.Owed t a ∧ virtioOutline.After t a s Q (virtioMachine t n a s)) :
    wp virtioMachine virtioOutline t a.run Q v :=
  wp_step fun s n inv view => ⟨(h s n inv view).1, fun _ => (h s n inv view).2⟩

theorem choose_wp {Q : Nat → VView → Prop} (post : ∀ n, Q n v) :
    wp virtioMachine virtioOutline t VAct.choose.run Q v :=
  vStep_wp fun s n inv view => ⟨trivial, inv, fun _ _ => rfl, by subst view; exact post n⟩

theorem stuck_wp {Q : Empty → VView → Prop} : wp virtioMachine virtioOutline t VAct.stuck.run Q v :=
  vStep_wp fun _ _ _ _ => ⟨trivial, trivial⟩

theorem acquire_wp {Q : Unit → VView → Prop} (post : Q () { v with locked := true }) :
    wp virtioMachine virtioOutline t VAct.acquire.run Q v := by
  refine vStep_wp fun s n inv view => ⟨trivial, ?_⟩
  subst view
  simp only [virtioMachine]
  split
  · trivial
  · next free =>
    have free : s.lock = none := by simpa using free
    refine ⟨⟨inv.layout, fun x d atX => ?_, inv.avail, inv.used, inv.submitted, inv.taken, inv.finished⟩,
      fun other different => DiskState.view_eq ?_ (fun _ => Iff.rfl) fun _ => rfl, ?_⟩
    · refine { inv.chains x d atX with ringed := fun ringed => ?_ }
      have := ((inv.chains x d atX).ringed ringed).1
      rw [free] at this
      cases this
    · simp [free, Ne.symm different]
    · convert post using 1
      exact VView.ext (by simp [virtioOutline, DiskState.view]) rfl rfl

theorem release_wp {Q : Unit → VView → Prop} (locked : v.locked = true)
    (calm : ∀ h c, v.mine h ≠ some (c, .ringed)) (post : Q () { v with locked := false }) :
    wp virtioMachine virtioOutline t VAct.release.run Q v := by
  refine vStep_wp fun s n inv view => ⟨trivial, ?_⟩
  subst view
  have locked := DiskState.view_locked.mp locked
  simp only [virtioMachine, if_pos locked]
  refine ⟨⟨inv.layout, fun x d atX => ?_, inv.avail, inv.used, inv.submitted, inv.taken, inv.finished⟩,
    fun other different => DiskState.view_eq ?_ (fun _ => Iff.rfl) fun _ => rfl, ?_⟩
  · refine { inv.chains x d atX with ringed := fun ringed => ?_ }
    have owner := ((inv.chains x d atX).ringed ringed).1
    rw [locked] at owner
    have owner : t = d.owner := Option.some.inj owner
    have atX : s.chain x = some d := atX
    refine absurd ?_ (calm x d.toShape)
    simp [DiskState.view, atX, ringed, Stage.phase, owner]
  · simp [locked, Ne.symm different]
  · convert post using 1
    exact VView.ext (by simp [virtioOutline, DiskState.view]) rfl rfl

theorem acquiresleep_wp {Q : Unit → VView → Prop} (post : Q () { v with bufs := update v.bufs b true }) :
    wp virtioMachine virtioOutline t (VAct.acquiresleep b).run Q v := by
  refine vStep_wp fun s n inv view => ⟨trivial, ?_⟩
  subst view
  simp only [virtioMachine]
  split
  · trivial
  · next free =>
    have free : s.bufLock b = none := by simpa using free
    refine ⟨⟨{ inv.layout with locked := fun x d atX => ?_ }, fun x d atX => { inv.chains x d atX with },
      inv.avail, inv.used, inv.submitted, inv.taken, inv.finished⟩,
      fun other different => DiskState.view_eq Iff.rfl (fun b' => ?_) fun _ => rfl, ?_⟩
    · have owner := inv.layout.locked x d atX
      have apart : d.buf ≠ b := fun same => by
        rw [same, free] at owner
        cases owner
      exact (update_of_ne apart _ _).trans owner
    · by_cases same : b' = b
      · simp [same, free, Ne.symm different]
      · simp [same]
    · convert post using 1
      refine VView.ext rfl (funext fun b' => ?_) rfl
      by_cases same : b' = b <;> simp [virtioOutline, DiskState.view, same]

theorem releasesleep_wp {Q : Unit → VView → Prop} (mine : v.bufs b = true)
    (idle : ∀ h c p, v.mine h = some (c, p) → c.buf ≠ b)
    (post : Q () { v with bufs := update v.bufs b false }) :
    wp virtioMachine virtioOutline t (VAct.releasesleep b).run Q v := by
  refine vStep_wp fun s n inv view => ⟨trivial, ?_⟩
  subst view
  have mine := DiskState.view_bufs.mp mine
  refine ⟨⟨{ inv.layout with locked := fun x d atX => ?_ }, fun x d atX => { inv.chains x d atX with },
    inv.avail, inv.used, inv.submitted, inv.taken, inv.finished⟩,
    fun other different => DiskState.view_eq Iff.rfl (fun b' => ?_) fun _ => rfl, ?_⟩
  · have owner := inv.layout.locked x d atX
    have apart : d.buf ≠ b := fun same => by
      rw [same, mine] at owner
      obtain ⟨c, atC, rfl⟩ := DiskState.shape_chain atX
      have owner : t = c.owner := Option.some.inj owner
      refine idle x c.toShape c.stage.phase ?_ same
      have atC : s.chain x = some c := atC
      simp [DiskState.view, atC, owner]
    exact (update_of_ne apart _ _).trans owner
  · by_cases same : b' = b
    · simp [same, mine, Ne.symm different]
    · simp [same]
  · convert post using 1
    refine VView.ext rfl (funext fun b' => ?_) rfl
    by_cases same : b' = b <;> simp [virtioOutline, DiskState.view, same]

/-! ### A request -/

/-- The view of a process whose only request has come this far. -/
def VView.at (v : VView) (h : Nat) (x : Shape × Phase) : VView :=
  { v with mine := update (fun _ => none) h (some x) }

/-- The chain behind such a view. -/
theorem DiskState.view_at {x : Shape × Phase} (view : s.view t = v.at h x) :
    (∃ c, s.chain h = some c ∧ c.owner = t ∧ x = (c.toShape, c.stage.phase)) ∧
      ∀ y, y ≠ h → (s.view t).mine y = none := by
  have mine : (s.view t).mine = update (fun _ => none) h (some x) := by rw [view]; rfl
  refine ⟨DiskState.view_mine (by rw [mine, update_self]), fun y apart => ?_⟩
  rw [mine, update_of_ne apart]

/-- What the owner of a single request sees after a step that moves it on. -/
theorem DiskState.view_moved {x : Shape × Phase} (s' : DiskState) (view : s.view t = v.at h x)
    (lock : s'.lock = s.lock)
    (bufLock : s'.bufLock = s.bufLock) (chain : s'.chain = update s.chain h (some c'))
    (owner : c'.owner = t) :
    s'.view t = v.at h (c'.toShape, c'.stage.phase) := by
  refine VView.ext ?_ (funext fun b => ?_) ?_
  · have same : (s.view t).locked = v.locked := by rw [view]; rfl
    show (s'.view t).locked = v.locked
    rw [← same]
    simp only [DiskState.view, lock]
  · have same : (s.view t).bufs b = v.bufs b := by rw [view]; rfl
    show (s'.view t).bufs b = v.bufs b
    rw [← same]
    simp only [DiskState.view, bufLock]
  · rw [DiskState.mine_self chain owner, view]
    funext y
    by_cases atY : y = h <;> simp [VView.at, atY]

/-- Nobody else sees a request move on. -/
theorem DiskState.view_foreign (lock : s'.lock = s.lock) (bufLock : s'.bufLock = s.bufLock)
    (atH : s.chain h = some c) (owner : c.owner = t) (chain : s'.chain = update s.chain h (some c'))
    (shape : c'.toShape = c.toShape) (different : other ≠ t) : s'.view other = s.view other := by
  refine DiskState.view_eq (by rw [lock]) (fun _ => by rw [bufLock]) (DiskState.mine_other chain ?_ ?_)
  · intro d atD
    rw [atH] at atD
    cases atD
    rw [owner]
    exact different.symm
  · rintro d ⟨⟩
    rw [shape, owner]
    exact different.symm

theorem Layout.add {free free' : Nat → Bool} {bufLock : BufNo → Option Actor} {shape : Nat → Option Shape}
    (layout : Layout free bufLock shape) (nodup : [h, d1, d2].Nodup)
    (unused : ∀ d ∈ [h, d1, d2], d < NUM ∧ free d = true)
    (now : ∀ d, free' d = (free d && decide (d ∉ [h, d1, d2])))
    (locked : bufLock b = some t) (idle : ∀ x c, shape x = some c → c.buf ≠ b) :
    Layout free' bufLock (update shape h (some ⟨t, b, d1, d2⟩)) := by
  have apart : ∀ x c d, shape x = some c → c.has x d → d ∉ [h, d1, d2] := fun x c d atX has member =>
    ((layout.free d).mp (unused d member).2).2 x c atX has
  have new : ∀ x c, update shape h (some ⟨t, b, d1, d2⟩) x = some c →
      x = h ∧ c = ⟨t, b, d1, d2⟩ ∨ x ≠ h ∧ shape x = some c := fun x c atX => by
    by_cases same : x = h
    · subst same
      rw [update_self] at atX
      exact .inl ⟨rfl, (Option.some.inj atX).symm⟩
    · exact .inr ⟨same, by rwa [update_of_ne same] at atX⟩
  refine ⟨fun x c atX => ?_, fun x c x' c' d atX atX' has has' => ?_, fun d => ?_, fun x c d atX has => ?_,
    fun x c x' c' atX atX' same => ?_, fun x c atX => ?_⟩
  · rcases new x c atX with ⟨rfl, rfl⟩ | ⟨_, atX⟩
    · exact nodup
    · exact layout.nodup x c atX
  · rcases new x c atX with ⟨rfl, rfl⟩ | ⟨_, old⟩ <;> rcases new x' c' atX' with ⟨rfl, rfl⟩ | ⟨_, old'⟩
    · rfl
    · exact absurd has (apart x' c' d old' has')
    · exact absurd has' (apart x c d old has)
    · exact layout.disjoint x c x' c' d old old' has has'
  · rw [now, Bool.and_eq_true, decide_eq_true_eq, layout.free]
    constructor
    · rintro ⟨⟨small, none⟩, outside⟩
      refine ⟨small, fun x c atX has => ?_⟩
      rcases new x c atX with ⟨rfl, rfl⟩ | ⟨_, atX⟩
      · exact outside has
      · exact none x c atX has
    · rintro ⟨small, none⟩
      have outside : d ∉ [h, d1, d2] := fun member => none h ⟨t, b, d1, d2⟩ (update_self ..) member
      refine ⟨⟨small, fun x c atX has => none x c ?_ has⟩, outside⟩
      have apart : x ≠ h := fun same => by
        have member : h ∈ [h, d1, d2] := by simp
        exact apart x c h atX (by simp [Shape.has, same]) member
      rw [update_of_ne apart]
      exact atX
  · rcases new x c atX with ⟨rfl, rfl⟩ | ⟨_, atX⟩
    · exact (unused d has).1
    · exact layout.inside x c d atX has
  · rcases new x c atX with ⟨rfl, rfl⟩ | ⟨_, old⟩ <;> rcases new x' c' atX' with ⟨rfl, rfl⟩ | ⟨_, old'⟩
    · rfl
    · exact absurd same.symm (idle x' c' old')
    · exact absurd same (idle x c old)
    · exact layout.buffers x c x' c' old old' same
  · rcases new x c atX with ⟨rfl, rfl⟩ | ⟨_, atX⟩
    · exact locked
    · exact layout.locked x c atX

theorem Layout.remove {free free' : Nat → Bool} {bufLock : BufNo → Option Actor} {shape : Nat → Option Shape}
    {c : Shape} (layout : Layout free bufLock shape) (atH : shape h = some c)
    (now : ∀ d, free' d = (free d || decide (d ∈ [h, c.d1, c.d2]))) :
    Layout free' bufLock (update shape h none) := by
  have old : ∀ x d, update shape h none x = some d → x ≠ h ∧ shape x = some d := fun x d atX => by
    by_cases same : x = h
    · subst same
      rw [update_self] at atX
      cases atX
    · exact ⟨same, by rwa [update_of_ne same] at atX⟩
  refine ⟨fun x d atX => layout.nodup x d (old x d atX).2,
    fun x c x' c' d atX atX' has has' => layout.disjoint x c x' c' d (old x c atX).2
    (old x' c' atX').2 has has',
    fun d => ?_, fun x c d atX has => layout.inside x c d (old x c atX).2 has,
    fun x c x' c' atX atX' same => layout.buffers x c x' c' (old x c atX).2 (old x' c' atX').2 same,
    fun x c atX => layout.locked x c (old x c atX).2⟩
  rw [now, Bool.or_eq_true, decide_eq_true_eq, layout.free]
  constructor
  · rintro (⟨small, none⟩ | member)
    · exact ⟨small, fun x e atX has => none x e (old x e atX).2 has⟩
    · refine ⟨layout.inside h c d atH member, fun x e atX has => ?_⟩
      obtain ⟨apart, atX⟩ := old x e atX
      exact apart (layout.disjoint x e h c d atX atH has member)
  · rintro ⟨small, none⟩
    by_cases member : d ∈ [h, c.d1, c.d2]
    · exact .inr member
    · refine .inl ⟨small, fun x e atX has => ?_⟩
      have apart : x ≠ h := by
        rintro rfl
        rw [atH] at atX
        cases atX
        exact member has
      exact none x e (by rw [update_of_ne apart]; exact atX) has

theorem alloc3Desc_wp {Q : Option (Nat × Nat × Nat) → VView → Prop} (mine : v.mine = fun _ => none)
    (locked : v.bufs b = true) (none : Q .none v)
    (some : ∀ h d1 d2, Q (.some (h, d1, d2)) (v.at h (⟨t, b, d1, d2⟩, .allocated))) :
    wp virtioMachine virtioOutline t (VAct.alloc3Desc b).run Q v := by
  refine vStep_wp fun s n inv view => ⟨trivial, ?_⟩
  subst view
  have locked := DiskState.view_bufs.mp locked
  obtain ⟨r, T, run, result⟩ := s.table.alloc3Desc_ok
  simp only [virtioMachine, DiskState.alloc3Desc, run]
  cases r with
  | none =>
    obtain ⟨free, desc⟩ := result
    refine ⟨⟨?_, fun x d atX => ?_, inv.avail, inv.used, inv.submitted, inv.taken, inv.finished⟩,
      fun _ _ => rfl, none⟩
    · show Layout T.free _ _
      rw [free]
      exact inv.layout
    · have ok := inv.chains x d atX
      refine { ok with linked := fun stage => (ok.linked stage).congr fun e member => desc e ?_ }
      by_contra unused
      have unused : s.table.free e = true := by simpa using unused
      exact ((inv.layout.free e).mp unused).2 x _ (DiskState.shape_some atX) member
  | some l =>
    obtain ⟨length, nodup, unused, free, desc⟩ := result
    obtain ⟨h, d1, d2, rfl⟩ := List.length_eq_three.mp length
    have empty : s.chain h = .none := by
      cases atH : s.chain h with
      | none => rfl
      | some c =>
        have := ((inv.layout.free h).mp (unused h (by simp)).2).2 h _ (DiskState.shape_some atH)
        simp [Shape.has] at this
    have idle : ∀ x c, s.shape x = .some c → c.buf ≠ b := fun x c atX same => by
      have owner := inv.layout.locked x c atX
      rw [same, locked] at owner
      obtain ⟨d, atD, rfl⟩ := DiskState.shape_chain atX
      exact DiskState.mine_none (congrFun mine x) atD (Option.some.inj owner).symm
    set s' : DiskState := { s with
      table := T
      chain := update s.chain h (.some ⟨⟨t, b, d1, d2⟩, .allocated, false⟩) } with hs'
    have chain : s'.chain = update s.chain h (.some ⟨⟨t, b, d1, d2⟩, .allocated, false⟩) := rfl
    have shape : s'.shape = update s.shape h (.some ⟨t, b, d1, d2⟩) := by
      funext x
      unfold DiskState.shape
      rw [chain]
      by_cases atX : x = h
      · subst atX; simp
      · rw [update_of_ne atX, update_of_ne atX]
    have lists : ∀ stage l, stage ≠ .allocated → Lists s stage l → Lists s' stage l :=
      fun stage l apart lists => by
      refine ⟨lists.1, fun x => (lists.2 x).trans ?_⟩
      rw [chain]
      by_cases atX : x = h
      · subst atX
        simp [empty, apart.symm]
      · rw [update_of_ne atX]
    refine ⟨⟨?_, fun x d atX => ?_, inv.avail, inv.used, lists _ _ (by simp) inv.submitted,
      lists _ _ (by simp) inv.taken, lists _ _ (by simp) inv.finished⟩, fun other different => ?_, ?_⟩
    · rw [shape]
      exact inv.layout.add nodup unused free locked idle
    · rw [chain] at atX
      by_cases here : x = h
      · subst here
        rw [update_self] at atX
        cases atX
        exact ⟨by simp, by simp, by simp [Stage.waits], by simp, by simp [Stage.done], by simp⟩
      · rw [update_of_ne here] at atX
        have ok := inv.chains x d atX
        exact { ok with linked := fun stage => (ok.linked stage).congr fun e _ => congrFun desc e }
    · refine DiskState.view_eq Iff.rfl (fun _ => Iff.rfl) (DiskState.mine_other chain (by simp [empty]) ?_)
      rintro d ⟨⟩
      exact different.symm
    · convert some h d1 d2 using 1
      refine VView.ext rfl rfl ?_
      rw [show (virtioOutline.view t s').mine = (s'.view t).mine from rfl, DiskState.mine_self chain rfl, mine]
      rfl

theorem format_wp {Q : Unit → VView → Prop} {blockno : Nat} {write : Bool}
    (post : Q () (v.at h (⟨t, b, d1, d2⟩, .ready))) :
    wp virtioMachine virtioOutline t (VAct.format h d1 d2 b blockno write).run Q
      (v.at h (⟨t, b, d1, d2⟩, .allocated)) := by
  refine vStep_wp fun s n inv view => ⟨trivial, ?_⟩
  obtain ⟨⟨c, atH, owner, eq⟩, _⟩ := DiskState.view_at view
  have phase : Phase.allocated = c.stage.phase := congrArg Prod.snd eq
  have stage : c.stage = .allocated := by
    revert phase
    cases c.stage <;> simp [Stage.phase]
  have shape : c.toShape = ⟨t, b, d1, d2⟩ := (congrArg Prod.fst eq).symm
  set s' : DiskState := s.format h d1 d2 b blockno write with hs'
  have chain : s'.chain = update s.chain h (some { c with stage := .ready }) := DiskState.setStage_chain atH
  have desc : ∀ e, e ∉ [h, d1, d2] → s'.table.desc e = s.table.desc e := fun e outside => by
    simp only [List.mem_cons, List.not_mem_nil, or_false, not_or] at outside
    simp [hs', DiskState.format, Table.format, outside]
  have nodup := inv.layout.nodup h _ (DiskState.shape_some atH)
  rw [shape] at nodup
  have apart : h ≠ d1 ∧ h ≠ d2 ∧ d1 ≠ d2 := by simpa [and_assoc] using nodup
  have chosen : c.buf = b ∧ c.d1 = d1 ∧ c.d2 = d2 := by
    have := congrArg Shape.buf shape
    have := congrArg Shape.d1 shape
    have := congrArg Shape.d2 shape
    simp_all
  have lists := inv.unlisted atH chain (by simp [stage]) (by simp)
  refine ⟨inv.change atH chain rfl rfl rfl ?_ (fun x d different atX => ?_) inv.avail
    inv.used lists.1 lists.2.1
    lists.2.2, fun other different => DiskState.view_foreign rfl rfl atH owner chain rfl different, ?_⟩
  · refine ⟨fun _ => ?_, fun _ _ => ?_, fun _ => ?_, by simp, by simp [Stage.done], by simp⟩
    · rw [chosen.2.1, chosen.2.2]
      refine ⟨?_, ?_, ?_⟩
      all_goals simp [DiskState.format, Table.format, apart.1, apart.2.1, apart.2.2]
    · simp [DiskState.format, chosen.1]
    · simp [DiskState.format, chosen.1]
  · have ok := inv.chains x d atX
    have foreign := fun e has => inv.layout.ne (DiskState.shape_some atX) (DiskState.shape_some atH)
      different (d := e) has
    rw [chosen.2.1, chosen.2.2] at foreign
    refine ⟨fun stage => (ok.linked stage).congr fun e has => desc e (foreign e has), fun first second => ?_,
      fun waits => ?_, fun finished => ?_, ok.done, ok.ringed⟩
    · simpa [hs', DiskState.format, different] using ok.info first second
    · have := ok.waits waits
      by_cases same : d.buf = b
      · simp [DiskState.format, same]
      · simpa [hs', DiskState.format, same] using this
    · simpa [hs', DiskState.format, different] using ok.status finished
  · have moved := DiskState.view_moved s' view rfl rfl chain owner
    rw [show virtioOutline.view t s' = s'.view t from rfl, moved]
    rw [show ({ c with stage := .ready } : Chain).toShape = ⟨t, b, d1, d2⟩ from shape]
    exact post

theorem ring_wp {Q : Unit → VView → Prop} {x : Shape} (locked : v.locked = true)
    (post : Q () (v.at h (x, .ringed))) :
    wp virtioMachine virtioOutline t (VAct.ring h).run Q (v.at h (x, .ready)) := by
  refine vStep_wp fun s n inv view => ?_
  obtain ⟨⟨c, atH, owner, eq⟩, single⟩ := DiskState.view_at view
  have shape : x = c.toShape := congrArg Prod.fst eq
  have phase : Phase.ready = c.stage.phase := congrArg Prod.snd eq
  have stage : c.stage = .ready := by
    revert phase
    cases c.stage <;> simp [Stage.phase]
  have lock : s.lock = some t := by
    rw [← DiskState.view_locked, view]
    exact locked
  have room := inv.room inv.submitted atH (by simp [stage])
  refine ⟨?_, ?_⟩
  · show (s.availIdx - s.takeIdx).toNat < NUM
    rw [inv.avail.distance (by decide)]
    exact room
  · set s' : DiskState := { s.setStage h .ringed with
      availRing := update s.availRing (DiskState.slot s.availIdx) h } with hs'
    have chain : s'.chain = update s.chain h (some { c with stage := .ringed }) :=
      DiskState.setStage_chain atH
    have lists := inv.unlisted atH chain (by simp [stage]) (by simp)
    have ok := inv.chains h c atH
    refine ⟨inv.change atH chain rfl rfl rfl ?_ (fun y d different atY => ?_) ?_ inv.used lists.1 lists.2.1
      lists.2.2, fun other different => DiskState.view_foreign rfl rfl atH owner chain rfl different, ?_⟩
    · refine ⟨fun _ => ok.linked (by simp [stage]), fun _ _ => ok.info (by simp [stage]) (by simp [stage]),
        fun _ => ok.waits (by simp [stage, Stage.waits]), by simp, by simp [Stage.done], fun _ => ⟨?_, ?_⟩⟩
      · exact lock.trans (congrArg some owner.symm)
      · simp [DiskState.setStage]
    · have other := inv.chains y d atY
      exact { other with ringed := fun ringed => absurd ringed (inv.ringed_mine lock single different atY) }
    · exact inv.avail.store (by decide) room h
    · have moved := DiskState.view_moved s' view rfl rfl chain owner
      rw [show virtioOutline.view t s' = s'.view t from rfl, moved]
      rw [shape] at post
      exact post

theorem bump_wp {Q : Unit → VView → Prop} {x : Shape} (locked : v.locked = true)
    (post : Q () (v.at h (x, .inflight))) :
    wp virtioMachine virtioOutline t (VAct.bump h).run Q (v.at h (x, .ringed)) := by
  refine vStep_wp fun s n inv view => ⟨trivial, ?_⟩
  obtain ⟨⟨c, atH, owner, eq⟩, single⟩ := DiskState.view_at view
  have shape : x = c.toShape := congrArg Prod.fst eq
  have phase : Phase.ringed = c.stage.phase := congrArg Prod.snd eq
  have stage : c.stage = .ringed := by
    revert phase
    cases c.stage <;> simp [Stage.phase]
  have lock : s.lock = some t := by
    rw [← DiskState.view_locked, view]
    exact locked
  have room := inv.room inv.submitted atH (by simp [stage])
  set s' : DiskState := { s.setStage h .submitted with
    availIdx := s.availIdx + 1, submitted := s.submitted ++ [h] } with hs'
  have chain : s'.chain = update s.chain h (some { c with stage := .submitted }) :=
    DiskState.setStage_chain atH
  have ok := inv.chains h c atH
  refine ⟨inv.change atH chain rfl rfl rfl ?_ (fun y d different atY => ?_) ?_ inv.used ?_ ?_ ?_,
    fun other different => DiskState.view_foreign rfl rfl atH owner chain rfl different, ?_⟩
  · exact ⟨fun _ => ok.linked (by simp [stage]), fun _ _ => ok.info (by simp [stage]) (by simp [stage]),
      fun _ => ok.waits (by simp [stage, Stage.waits]), by simp, by simp [Stage.done], by simp⟩
  · have other := inv.chains y d atY
    exact { other with ringed := fun ringed => absurd ringed (inv.ringed_mine lock single different atY) }
  · exact inv.avail.bump (by decide) room (ok.ringed stage).2
  · exact inv.submitted.enter atH chain (by simp [stage]) rfl (List.perm_append_singleton h _)
  · exact inv.taken.stay atH chain (by simp [stage]) (by simp)
  · exact inv.finished.stay atH chain (by simp [stage]) (by simp)
  · have moved := DiskState.view_moved s' view rfl rfl chain owner
    rw [show virtioOutline.view t s' = s'.view t from rfl, moved]
    rw [shape] at post
    exact post

theorem disk_wp {Q : Bool → VView → Prop} {x : Shape} (buf : x.buf = b)
    (busy : Q true (v.at h (x, .inflight)))
    (noticed : Q false (v.at h (x, .noticed))) :
    wp virtioMachine virtioOutline t (VAct.disk h b).run Q (v.at h (x, .inflight)) := by
  refine vStep_wp fun s n inv view => ⟨trivial, ?_⟩
  obtain ⟨⟨c, atH, owner, eq⟩, _⟩ := DiskState.view_at view
  have shape : x = c.toShape := congrArg Prod.fst eq
  have phase : Phase.inflight = c.stage.phase := congrArg Prod.snd eq
  simp only [virtioMachine]
  cases flag : s.disk b with
  | true =>
    rw [if_pos rfl]
    refine ⟨inv, fun _ _ => rfl, ?_⟩
    rw [show virtioOutline.view t s = s.view t from rfl, view]
    exact busy
  | false =>
    have ok := inv.chains h c atH
    have same : c.buf = b := by rw [← buf, shape]
    have stage : c.stage = .served := by
      have waits := ok.waits
      rw [same, flag] at waits
      revert phase waits
      cases c.stage <;> simp [Stage.phase, Stage.waits]
    set s' : DiskState := s.setStage h .noticed with hs'
    have chain : s'.chain = update s.chain h (some { c with stage := .noticed }) :=
      DiskState.setStage_chain atH
    have lists := inv.unlisted atH chain (by simp [stage]) (by simp)
    refine ⟨inv.change atH chain rfl rfl rfl ?_ (fun y d different atY => { inv.chains y d atY with
        }) inv.avail
      inv.used lists.1 lists.2.1 lists.2.2,
      fun other different => DiskState.view_foreign rfl rfl atH owner chain rfl different, ?_⟩
    · exact ⟨fun _ => ok.linked (by simp [stage]), fun _ _ => ok.info (by simp [stage]) (by simp [stage]),
        by simp [Stage.waits], by simp, fun _ => ok.done (by simp [stage, Stage.done]), by simp⟩
    · have moved := DiskState.view_moved s' view rfl rfl chain owner
      rw [if_neg (by simp), show virtioOutline.view t _ = s'.view t from rfl, moved]
      rw [shape] at noticed
      exact noticed

theorem clear_wp {Q : Unit → VView → Prop} {x : Shape} (post : Q () (v.at h (x, .cleared))) :
    wp virtioMachine virtioOutline t (VAct.clear h).run Q (v.at h (x, .noticed)) := by
  refine vStep_wp fun s n inv view => ?_
  obtain ⟨⟨c, atH, owner, eq⟩, _⟩ := DiskState.view_at view
  have shape : x = c.toShape := congrArg Prod.fst eq
  have phase : Phase.noticed = c.stage.phase := congrArg Prod.snd eq
  have stage : c.stage = .noticed := by
    revert phase
    cases c.stage <;> simp [Stage.phase]
  have ok := inv.chains h c atH
  refine ⟨⟨c, atH, owner, ok.done (by simp [stage, Stage.done])⟩, ?_⟩
  set s' : DiskState := { s.setStage h .cleared with
    info := update s.info h { s.info h with b := none } } with hs'
  have chain : s'.chain = update s.chain h (some { c with stage := .cleared }) := DiskState.setStage_chain atH
  have lists := inv.unlisted atH chain (by simp [stage]) (by simp)
  refine ⟨inv.change atH chain rfl rfl rfl ?_ (fun y d different atY => ?_) inv.avail
    inv.used lists.1 lists.2.1
    lists.2.2, fun other different => DiskState.view_foreign rfl rfl atH owner chain rfl different, ?_⟩
  · exact ⟨fun _ => ok.linked (by simp [stage]), by simp, by simp [Stage.waits], by simp,
      fun _ => ok.done (by simp [stage, Stage.done]), by simp⟩
  · have other := inv.chains y d atY
    exact { other with
      info := fun first second => by simpa [hs', different] using other.info first second
      status := fun finished => by simpa [hs', different] using other.status finished }
  · have moved := DiskState.view_moved s' view rfl rfl chain owner
    rw [show virtioOutline.view t s' = s'.view t from rfl, moved]
    rw [shape] at post
    exact post

theorem freeChain_wp {Q : Unit → VView → Prop} {x : Shape} (post : Q () { v with mine := fun _ => none }) :
    wp virtioMachine virtioOutline t (VAct.freeChain h).run Q (v.at h (x, .cleared)) := by
  refine vStep_wp fun s n inv view => ⟨trivial, ?_⟩
  obtain ⟨⟨c, atH, owner, eq⟩, single⟩ := DiskState.view_at view
  have phase : Phase.cleared = c.stage.phase := congrArg Prod.snd eq
  have stage : c.stage = .cleared := by
    revert phase
    cases c.stage <;> simp [Stage.phase]
  have atShape := DiskState.shape_some atH
  obtain ⟨T, run, free, desc⟩ := Table.freeChain_ok ((inv.chains h c atH).linked (by simp [stage]))
    (inv.layout.nodup h _ atShape) fun e member => ⟨inv.layout.inside h _ e atShape member, by
      by_contra unused
      exact ((inv.layout.free e).mp (by simpa using unused)).2 h _ atShape member⟩
  simp only [virtioMachine, run]
  set s' : DiskState := { s with table := T, chain := update s.chain h none } with hs'
  have chain : s'.chain = update s.chain h none := rfl
  have shape' : s'.shape = update s.shape h none := by
    funext y
    unfold DiskState.shape
    rw [chain]
    by_cases atY : y = h
    · subst atY; simp
    · rw [update_of_ne atY, update_of_ne atY]
  have lists : ∀ stage l, stage ≠ .cleared → Lists s stage l → Lists s' stage l :=
    fun stage' l apart lists => by
    refine ⟨lists.1, fun y => (lists.2 y).trans ?_⟩
    rw [chain]
    by_cases atY : y = h
    · subst atY
      simp [atH, stage, apart.symm]
    · rw [update_of_ne atY]
  refine ⟨⟨?_, fun y d atY => ?_, inv.avail, inv.used, lists _ _ (by simp) inv.submitted,
    lists _ _ (by simp) inv.taken, lists _ _ (by simp) inv.finished⟩, fun other different => ?_, ?_⟩
  · rw [shape']
    exact inv.layout.remove atShape free
  · have different : y ≠ h := by
      rintro rfl
      simp [chain] at atY
    rw [chain, update_of_ne different] at atY
    have ok := inv.chains y d atY
    have foreign := fun e has => inv.layout.ne (DiskState.shape_some atY) atShape different (d := e) has
    exact { ok with linked := fun stage => (ok.linked stage).congr fun e has => desc e (foreign e has) }
  · refine DiskState.view_eq Iff.rfl (fun _ => Iff.rfl) (DiskState.mine_other chain ?_ (by simp))
    intro d atD
    rw [atH] at atD
    cases atD
    rw [owner]
    exact different.symm
  · convert post using 1
    refine VView.ext ?_ ?_ (funext fun y => ?_)
    · have same : (s.view t).locked = v.locked := by rw [view]; rfl
      exact same
    · have same : (s.view t).bufs = v.bufs := by rw [view]; rfl
      exact same
    · by_cases atY : y = h
      · simp [virtioOutline, DiskState.view, chain, atY]
      · have none := single y atY
        simpa [virtioOutline, DiskState.view, chain, atY] using none

/-! ### The handler and the device -/

theorem service_wp {Q : Bool → VView → Prop} (post : ∀ r, Q r v) :
    wp virtioMachine virtioOutline t VAct.service.run Q v := by
  refine vStep_wp fun s n inv view => ?_
  subst view
  by_cases idle : s.usedIdx = s.deviceUsedIdx
  · refine ⟨fun more => absurd idle more, ?_⟩
    simp only [virtioMachine, DiskState.service, if_pos idle]
    exact ⟨inv, fun _ _ => rfl, post false⟩
  · obtain ⟨h, rest, queue⟩ : ∃ h rest, s.finished = h :: rest := by
      cases queue : s.finished with
      | nil => exact absurd ((inv.used.eq_iff (by decide)).mpr queue) idle
      | cons h rest => exact ⟨h, rest, rfl⟩
    have used := inv.used
    rw [queue] at used
    have head : s.usedRing (DiskState.slot s.usedIdx) = h := used.head
    obtain ⟨c, atH, stage⟩ := (inv.finished.2 h).mp (by simp [queue])
    have ok := inv.chains h c atH
    have info := ok.info (by simp [stage]) (by simp [stage])
    refine ⟨fun _ => ⟨c, by rw [head]; exact atH, stage, by rw [head]; exact info⟩, ?_⟩
    simp only [virtioMachine, DiskState.service, if_neg idle, head, ok.status stage, info, ne_eq,
      not_true_eq_false,
      if_false]
    set s' : DiskState := { s.setStage h .served with
      disk := update s.disk c.buf false
      usedIdx := s.usedIdx + 1
      finished := s.finished.tail } with hs'
    have chain : s'.chain = update s.chain h (some { c with stage := .served }) :=
      DiskState.setStage_chain atH
    have same : ∀ other, s'.view other = s.view other := fun other =>
      DiskState.view_eq Iff.rfl (fun _ => Iff.rfl) (DiskState.mine_same atH chain rfl
        (by simp [stage, Stage.phase]))
    refine ⟨inv.change atH chain rfl rfl rfl ?_ (fun y d different atY => ?_) inv.avail ?_ ?_ ?_ ?_,
      fun other _ => same other, ?_⟩
    · exact ⟨fun _ => ok.linked (by simp [stage]), fun _ _ => info, by simp [Stage.waits], by simp,
        fun _ => ok.done (by simp [stage, Stage.done]), by simp⟩
    · have other := inv.chains y d atY
      refine { other with waits := fun waits => ?_ }
      have apart : d.buf ≠ c.buf := fun same =>
        different (inv.layout.buffers y _ h _ (DiskState.shape_some atY) (DiskState.shape_some atH) same)
      simpa [hs', apart] using other.waits waits
    · rw [show s'.finished = rest by simp [hs', queue]]
      exact used.pop (by decide)
    · exact inv.submitted.stay atH chain (by simp [stage]) (by simp)
    · exact inv.taken.stay atH chain (by simp [stage]) (by simp)
    · have left := inv.finished.leave chain (by simp)
      rw [queue, List.erase_cons_head] at left
      rw [show s'.finished = rest by simp [hs', queue]]
      exact left
    · rw [show virtioOutline.view t s' = s'.view t from rfl, same]
      exact post true

theorem take_wp {Q : Unit → VView → Prop} (post : Q () v) :
    wp virtioMachine virtioOutline t VAct.take.run Q v := by
  refine vStep_wp fun s n inv view => ⟨trivial, ?_⟩
  subst view
  simp only [virtioMachine]
  split
  · trivial
  · next more =>
    obtain ⟨h, rest, queue⟩ : ∃ h rest, s.submitted = h :: rest := by
      cases queue : s.submitted with
      | nil => exact absurd ((inv.avail.eq_iff (by decide)).mpr queue) more
      | cons h rest => exact ⟨h, rest, rfl⟩
    have avail := inv.avail
    rw [queue] at avail
    have head : s.availRing (DiskState.slot s.takeIdx) = h := avail.head
    obtain ⟨c, atH, stage⟩ := (inv.submitted.2 h).mp (by simp [queue])
    have ok := inv.chains h c atH
    rw [head]
    set s' : DiskState := { s.setStage h .taken with
      takeIdx := s.takeIdx + 1, taken := h :: s.taken, submitted := s.submitted.tail } with hs'
    have chain : s'.chain = update s.chain h (some { c with stage := .taken }) := DiskState.setStage_chain atH
    have same : ∀ other, s'.view other = s.view other := fun other =>
      DiskState.view_eq Iff.rfl (fun _ => Iff.rfl) (DiskState.mine_same atH chain rfl
        (by simp [stage, Stage.phase]))
    refine ⟨inv.change atH chain rfl rfl rfl ?_ (fun y d different atY => { inv.chains y d atY with
        }) ?_ inv.used
      ?_ ?_ ?_, fun other _ => same other, ?_⟩
    · exact ⟨fun _ => ok.linked (by simp [stage]), fun _ _ => ok.info (by simp [stage]) (by simp [stage]),
        fun _ => ok.waits (by simp [stage, Stage.waits]), by simp, by simp [Stage.done], by simp⟩
    · rw [show s'.submitted = rest by simp [hs', queue]]
      exact avail.pop (by decide)
    · have left := inv.submitted.leave chain (by simp)
      rw [queue, List.erase_cons_head] at left
      rw [show s'.submitted = rest by simp [hs', queue]]
      exact left
    · exact inv.taken.enter atH chain (by simp [stage]) rfl (List.Perm.refl _)
    · exact inv.finished.stay atH chain (by simp [stage]) (by simp)
    · rw [show virtioOutline.view t s' = s'.view t from rfl, same]
      exact post

theorem complete_wp {Q : Unit → VView → Prop} (post : Q () v) :
    wp virtioMachine virtioOutline t VAct.complete.run Q v := by
  refine vStep_wp fun s h inv view => ⟨trivial, ?_⟩
  subst view
  simp only [virtioMachine]
  split
  · next member =>
    obtain ⟨c, atH, stage⟩ := (inv.taken.2 h).mp member
    have ok := inv.chains h c atH
    have linked := ok.linked (by simp [stage])
    have room := inv.room inv.finished atH (by simp [stage])
    set s' : DiskState := s.complete h with hs'
    have chain : s'.chain = update s.chain h (some { c with stage := .finished, completed := true }) := by
      simp [hs', DiskState.complete, atH]
    have info : s'.info = update s.info h { s.info h with status := 0 } := by
      simp only [hs', DiskState.complete, linked.first.2, linked.second.2, linked.third.2]
    have same : ∀ other, s'.view other = s.view other := fun other =>
      DiskState.view_eq Iff.rfl (fun _ => Iff.rfl) (DiskState.mine_same atH chain rfl
        (by simp [stage, Stage.phase]))
    refine ⟨inv.change atH chain rfl rfl rfl ?_ (fun y d different atY => ?_) inv.avail ?_ ?_ ?_ ?_,
      fun other _ => same other, ?_⟩
    · refine ⟨fun _ => linked, fun _ _ => ?_, fun _ => ok.waits (by simp [stage, Stage.waits]), fun _ => ?_,
        fun _ => rfl, by simp⟩
      · simpa [info] using ok.info (by simp [stage]) (by simp [stage])
      · simp [info]
    · have other := inv.chains y d atY
      exact { other with
        info := fun first second => by simpa [info, different] using other.info first second
        status := fun finished => by simpa [info, different] using other.status finished }
    · exact inv.used.push (by decide) room h
    · exact inv.submitted.stay atH chain (by simp [stage]) (by simp)
    · exact inv.taken.leave chain (by simp)
    · exact inv.finished.enter atH chain (by simp [stage]) rfl (List.perm_append_singleton h _)
    · rw [show virtioOutline.view t s' = s'.view t from rfl, same]
      exact post
  · trivial

end Steps

end Xv6.Virtio
