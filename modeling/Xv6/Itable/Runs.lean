import Xv6.Itable.Disk

namespace Xv6.Itable
open Threads Function

variable {t : Pid} {v : ItView} {ip : Slot} {ninodes : Nat} {disk : Key → Dinode}
  {named : Key → Bool} {x : ItConfig}

/-- Between two calls a process is in no stage of an `iput`, and what it has locked is valid and written. -/
structure ItView.Calm (v : ItView) : Prop where
  table : v.table = false
  stage : ∀ b, v.stage b = .normal
  held : ∀ b valid attr dirty, v.held b = some (valid, attr, dirty) → valid = true ∧ dirty = false

/-! ## kernel/fs.c -/

theorem iget_wp {k : Key} (calm : v.Calm) : wp itMachine itOutline t (iget k) (fun _ v => v.Calm) v :=
  wp_bind (acquire_wp (wp_bind (find_wp rfl calm.stage fun _ =>
    wp_bind (release_wp rfl ⟨rfl, calm.stage, calm.held⟩))))

theorem idup_wp (calm : v.Calm) (mine : 0 < v.mine ip) :
    wp itMachine itOutline t (idup ip) (fun _ v => v.Calm) v :=
  wp_bind (acquire_wp (wp_bind (incRef_wp rfl mine (calm.stage ip) fun _ =>
    release_wp rfl ⟨rfl, calm.stage, calm.held⟩)))

theorem ilock_wp (calm : v.Calm) (mine : 0 < v.mine ip) :
    wp itMachine itOutline t (ilock ip) (fun _ v => v.Calm) v := by
  refine wp_bind (checkRef_wp mine (wp_bind (acquiresleep_wp mine (fun table => ?_) fun valid attr _ _ => ?_)))
  · rw [calm.table] at table
    cases table
  · refine load_wp (show _ = some (valid, attr, false) by simp [Handles.hold]) (calm.stage ip)
      fun attr' _ => ⟨calm.table, calm.stage, fun b valid' attr'' dirty held => ?_⟩
    by_cases same : b = ip
    · simp only [Handles.hold, same, update_self, Option.some.injEq, Prod.mk.injEq] at held
      exact ⟨held.1.symm, held.2.2.symm⟩
    · simp only [Handles.hold, update_of_ne same] at held
      exact calm.held b valid' attr'' dirty held

theorem iunlock_wp {y : Bool × Dinode × Bool} (calm : v.Calm) (held : v.held ip = some y) :
    wp itMachine itOutline t (iunlock ip) (fun _ v' => v'.Calm ∧ 0 < v'.mine ip ∧ v'.held ip = none) v := by
  obtain ⟨valid, attr, dirty⟩ := y
  obtain ⟨_, rfl⟩ := calm.held ip valid attr dirty held
  refine wp_bind (checkHeld_wp held fun mine => releasesleep_wp held (.inl (calm.stage ip))
    ⟨⟨calm.table, calm.stage, fun b valid' attr' dirty' held' => ?_⟩, mine, by simp [Handles.hold]⟩)
  by_cases same : b = ip
  · simp [Handles.hold, same] at held'
  · simp only [Handles.hold, update_of_ne same] at held'
    exact calm.held b valid' attr' dirty' held'

/-- `iput` frees the inode when its pointer is the last one, and drops the pointer. -/
theorem iput_wp (calm : v.Calm) (mine : 0 < v.mine ip) (free : v.held ip = none ∨ 2 ≤ v.mine ip) :
    wp itMachine itOutline t (iput ip) (fun _ v => v.Calm) v := by
  refine wp_bind (acquire_wp (wp_bind (isLast_wp rfl mine (calm.stage ip) free ?_ fun one unlocked => ?_)))
  · refine wp_bind (decRef_wp rfl mine (.inl (calm.stage ip)) free
      (release_wp rfl ⟨rfl, fun b => ?_, calm.held⟩))
    by_cases same : b = ip
    · simp [same]
    · simpa [same] using calm.stage b
  · refine wp_bind (acquiresleep_wp mine (fun _ => ⟨update_self .., unlocked⟩) fun valid attr _ seen => ?_)
    obtain ⟨rfl, _, typed⟩ := seen (update_self ..)
    refine wp_bind (release_wp rfl (wp_bind (wp_bind (truncate_wp (show _ = some (true, attr, false) from ?_)
      (update_self ..) ?_))))
    · simp [Handles.hold]
    refine iupdateFreeing_wp (show _ = some (true, { attr with size := 0, addrs := noAddrs }, false) from ?_)
      (update_self ..) typed ?_
    · simp [Handles.hold]
    refine wp_bind (clearType_wp (show _ = some (true, { attr with size := 0, addrs := noAddrs }, false) from ?_)
      (update_self ..) ?_)
    · simp [Handles.hold]
    refine wp_bind (iupdateFreed_wp
      (show _ = some (true, { attr with type := 0, size := 0, addrs := noAddrs }, false) from ?_)
      (update_self ..) rfl ?_)
    · simp [Handles.hold]
    refine wp_bind (invalidate_wp
      (show _ = some (true, { attr with type := 0, size := 0, addrs := noAddrs }, false) from ?_)
      (update_self ..) ?_)
    · simp [Handles.hold]
    refine wp_bind (releasesleep_wp
      (show _ = some (false, { attr with type := 0, size := 0, addrs := noAddrs }, false) from ?_)
      (.inr (update_self ..)) ?_)
    · simp [Handles.hold]
    refine wp_bind (acquire_wp (wp_bind (decRef_wp rfl mine (.inr (update_self ..)) (.inl ?_) (release_wp rfl ?_))))
    · simp [Handles.hold]
    · refine ⟨rfl, fun b => ?_, fun b valid' attr' dirty' held => ?_⟩
      all_goals by_cases same : b = ip
      · simp [same]
      · simpa [same] using calm.stage b
      · simp [Handles.hold, Handles.drop, same] at held
      · simp only [Handles.hold, Handles.drop, update_of_ne same] at held
        exact calm.held b valid' attr' dirty' held

theorem iunlockput_wp {y : Bool × Dinode × Bool} (calm : v.Calm) (held : v.held ip = some y) :
    wp itMachine itOutline t (iunlockput ip) (fun _ v => v.Calm) v := by
  refine wp_seq (iunlock_wp calm held) ?_
  rintro _ v' ⟨calm, mine, free⟩
  exact iput_wp calm mine (.inl free)

theorem iallocFrom_wp {dev type : Nat} (typed : type ≠ 0) (n inum : Nat) (calm : v.Calm) :
    wp itMachine itOutline t (iallocFrom dev type n inum) (fun _ v => v.Calm) v := by
  induction n generalizing inum with
  | zero => exact calm
  | succ n ih =>
    refine wp_bind (claim_wp typed (ih (inum + 1)) ?_)
    exact wp_seq (iget_wp ⟨calm.table, calm.stage, calm.held⟩) fun _ _ calm => calm

theorem ialloc_wp {dev type : Nat} (typed : type ≠ 0) (calm : v.Calm) :
    wp itMachine itOutline t (ialloc dev type) (fun _ v => v.Calm) v :=
  wp_bind (ninodes_wp fun n => iallocFrom_wp typed (n - 1) 1 calm)

theorem modify_wp {new : Dinode} {y : Bool × Dinode × Bool} (calm : v.Calm) (held : v.held ip = some y) :
    wp itMachine itOutline t (modify ip new) (fun _ v => v.Calm) v := by
  obtain ⟨valid, attr, dirty⟩ := y
  obtain ⟨rfl, _⟩ := calm.held ip valid attr dirty held
  refine wp_bind (setFields_wp held (calm.stage ip) (iupdate_wp
    (show _ = some (true, { new with type := attr.type }, true) from ?_) (calm.stage ip)
    ⟨calm.table, calm.stage, fun b valid' attr' dirty' held' => ?_⟩))
  · simp [Handles.hold]
  · by_cases same : b = ip
    · simp only [Handles.hold, same, update_self, Option.some.injEq, Prod.mk.injEq] at held'
      exact ⟨held'.1.symm, held'.2.2.symm⟩
    · simp only [Handles.hold, update_of_ne same] at held'
      exact calm.held b valid' attr' dirty' held'

theorem ItCall.code_wp {s : ItState} {call : ItCall} (calm : (s.view t).Calm) (legal : call.legal t s) :
    wp itMachine itOutline t call.code (fun _ v => v.Calm) (s.view t) := by
  have locks : ∀ ip, (s.inode ip).locked = some t → (s.view t).held ip = some _ :=
    fun ip locked => ItState.view_held.mpr ⟨locked, rfl⟩
  cases call with
  | iget k => exact wp_seq (iget_wp calm) fun _ _ calm => calm
  | idup ip => exact idup_wp calm (ItState.view_mine.mpr legal)
  | ilock ip => exact ilock_wp calm (ItState.view_mine.mpr legal)
  | iunlock ip => exact wp_mono (fun _ _ done => done.1) (iunlock_wp calm (locks ip legal))
  | iput ip =>
    refine iput_wp calm (ItState.view_mine.mpr legal.1) ?_
    by_cases locked : (s.inode ip).locked = some t
    · exact .inr (legal.2 locked)
    · exact .inl (ItState.view_free.mpr locked)
  | iunlockput ip => exact iunlockput_wp calm (locks ip legal)
  | ialloc dev type => exact wp_seq (ialloc_wp legal calm) fun _ _ calm => calm
  | modify ip new => exact modify_wp calm (locks ip legal)
  | enter ip => exact enter_wp (ItState.view_mine.mpr legal) (calm.stage ip) calm
  | remove k => exact remove_wp calm

/-! ## Runs -/

/-- An inode that an entry of a directory names is allocated and has links. -/
def Sound (disk : Key → Dinode) (named : Key → Bool) : Prop :=
  ∀ k, named k = true → (disk k).type ≠ 0 ∧ (disk k).nlink ≠ 0

/-- All runs in which the callers keep to what `ItState.Allowed` asks of them. -/
abbrev ItReach (ninodes : Nat) (disk : Key → Dinode) (named : Key → Bool) (x : ItConfig) : Prop :=
  Reach itMachine (fun t a s => s.Allowed t a) itCalls (itStart ninodes disk named) x

theorem itReach_holds (sound : Sound disk named) (run : ItReach ninodes disk named x) :
    itOutline.Holds itMachine (fun _ v => v.Calm) x := by
  refine Outline.Holds.reach itOutline_isolated (fun t s call _ calm legal => ItCall.code_wp calm legal)
    ⟨⟨fun a b used => absurd rfl used, fun b => ?_, fun k => ⟨fun isNamed => ⟨rfl, (sound k isNamed).1⟩,
      fun u type claimed => (by cases claimed)⟩, fun k isNamed => .inl (sound k isNamed).2⟩, fun t => ?_⟩ run
  · exact ⟨rfl, fun u locked => (by cases locked), fun u owner => (by cases owner), fun u doomed =>
      (by cases doomed),
      fun u gone => (by cases gone), fun changed => (by cases changed), fun used => absurd rfl used,
      fun u member => (by cases member), fun _ used => absurd rfl used, fun _ _ claimed => (by cases claimed)⟩
  · exact wp_pure.mpr ⟨rfl, fun b => rfl, fun b valid attr dirty held => by cases held⟩

variable {s s' : ItState} {c : Unit} {a : ItAct} {answer : a.Resp}

/-- The disk changes in `iupdate` and `ialloc` only. -/
theorem itMachine_disk (step : itMachine t c a s = .ok answer s') (k : Key) :
    s'.disk k = s.disk k ∨ (∃ ip, a = .iupdate ip ∧ (s.inode ip).key = k ∧ s'.disk k = (s.inode ip).attr) ∨
      (s.disk k).type = 0 := by
  cases a with
  | iupdate ip =>
    cases step
    by_cases same : (s.inode ip).key = k
    · exact .inr (.inl ⟨ip, rfl, same, by simp [ItState.iupdate, same]⟩)
    · exact .inl (by simp [ItState.iupdate, ItState.put, Ne.symm same])
  | claim k' type =>
    simp only [itMachine] at step
    split at step
    next untyped =>
      cases step
      by_cases same : k = k'
      · exact .inr (.inr (same ▸ untyped))
      · exact .inl (update_of_ne same ..)
    next => cases step; exact .inl rfl
  | _ =>
    simp only [itMachine, ItState.find] at step
    repeat' split at step
    all_goals first
      | cases step; exact .inl rfl
      | cases step

/-- An entry is doomed by the test at the beginning of `iput`. -/
theorem itMachine_stage (step : itMachine t c a s = .ok answer s') {u : Pid}
    (doomed : s'.stage ip = .doomed u)
    (fresh : s.stage ip ≠ .doomed u) :
    u = t ∧ a = .isLast ip ∧ (s.inode ip).ref = 1 ∧ (s.inode ip).attr.nlink = 0 := by
  have stored : ∀ b stage, update s.stage b stage ip = .doomed u → ip = b ∧ stage = .doomed u := by
    intro b stage now
    by_cases same : ip = b
    · subst same
      exact ⟨rfl, by simpa using now⟩
    · exact absurd (by simpa [same] using now) fresh
  cases a with
  | isLast b =>
    simp only [itMachine] at step
    split at step
    next seen =>
      cases step
      obtain ⟨rfl, eq⟩ := stored _ _ doomed
      exact ⟨(Stage.doomed.inj eq).symm, rfl, seen.1, seen.2.2⟩
    next => cases step; exact absurd doomed fresh
  | decRef b =>
    cases step
    obtain ⟨rfl, eq⟩ := stored _ _ doomed
    split at eq
    next => cases eq
    next => exact absurd eq fresh
  | iupdate b =>
    cases step
    obtain ⟨rfl, eq⟩ := stored _ _ doomed
    split at eq
    next => cases eq
    next => exact absurd eq fresh
  | invalidate b =>
    cases step
    obtain ⟨rfl, eq⟩ := stored _ _ doomed
    split at eq
    next => cases eq
    next => exact absurd eq fresh
  | load b =>
    simp only [itMachine] at step
    repeat' split at step
    · cases step; exact absurd doomed fresh
    · cases step
    · cases step
      obtain ⟨rfl, eq⟩ := stored _ _ doomed
      exact absurd eq fresh
  | _ =>
    simp only [itMachine, ItState.find] at step
    repeat' split at step
    all_goals first
      | (cases step; exact absurd doomed fresh)
      | (cases step; obtain ⟨rfl, eq⟩ := stored _ _ doomed; exact absurd eq fresh)
      | cases step

/-- An allocated inode is read first by the process that has allocated it. -/
theorem itMachine_claimed (step : itMachine t c a s = .ok answer s') {k : Key} {u : Pid} {type : Nat}
    (claimed : s.claimed k = some (u, type)) (busy : (s.disk k).type ≠ 0) :
    s'.claimed k = some (u, type) ∨ u = t ∧ ∃ ip, a = .load ip ∧ (s.inode ip).key = k := by
  cases a with
  | claim k' type' =>
    simp only [itMachine] at step
    split at step
    next untyped =>
      cases step
      refine .inl ((update_of_ne (fun same => ?_) ..).trans claimed)
      exact busy (same ▸ untyped)
    next => cases step; exact .inl claimed
  | load b =>
    simp only [itMachine] at step
    repeat' split at step
    · cases step; exact .inl claimed
    · cases step
    · cases step
      by_cases same : (s.inode b).key = k
      · by_cases mine : (s.claimed (s.inode b).key).map Prod.fst = some t
        · rw [same, claimed] at mine
          exact .inr ⟨Option.some.inj mine, b, rfl, same⟩
        · left
          show (if _ then _ else _ : Key → Option (Pid × Nat)) k = _
          rw [if_neg mine, claimed]
      · left
        show (if _ then _ else _ : Key → Option (Pid × Nat)) k = _
        split
        next => exact (update_of_ne (Ne.symm same) ..).trans claimed
        next => exact claimed
  | _ =>
    simp only [itMachine, ItState.find] at step
    repeat' split at step
    all_goals first
      | cases step; exact .inl claimed
      | cases step

/-- In every run: two entries in use stand for different inodes; the reference count of an entry is the
number of its pointers; an inode is freed on disk by an `iput` that has doomed it, which happens under
`itable.lock` when it is the last pointer and the inode has no links; the `acquiresleep` of that `iput` does
not wait; and an inode that a process has allocated is read by this process first, which then finds its entry
invalid and on disk what `ialloc` wrote. -/
theorem inode_table (sound : Sound disk named) (run : ItReach ninodes disk named x) :
    (∀ a b, 0 < (x.shared.inode a).ref → 0 < (x.shared.inode b).ref →
      (x.shared.inode a).key = (x.shared.inode b).key → a = b) ∧
    (∀ b, (x.shared.inode b).ref = (x.shared.users b).length) ∧
    (∀ y, Step itMachine (fun t a s => s.Allowed t a) itCalls x y → ∀ k, (x.shared.disk k).type ≠ 0 →
      (y.shared.disk k).type = 0 → ∃ t ip next, x.code t = .act (.iupdate ip) next ∧
        (x.shared.inode ip).key = k ∧ x.shared.stage ip = .doomed t) ∧
    (∀ y, Step itMachine (fun t a s => s.Allowed t a) itCalls x y → ∀ ip t, y.shared.stage ip = .doomed t →
      x.shared.stage ip ≠ .doomed t → x.shared.lock = some t ∧ (x.shared.inode ip).ref = 1 ∧
        (x.shared.inode ip).attr.nlink = 0 ∧ ∃ next, x.code t = .act (.isLast ip) next) ∧
    (∀ t ip next, x.code t = .act (.acquiresleep ip) next → x.shared.lock = some t →
      (x.shared.inode ip).locked = none) ∧
    (∀ t ip next type, x.code t = .act (.load ip) next →
      x.shared.claimed (x.shared.inode ip).key = some (t, type) →
      (x.shared.inode ip).valid = false ∧ x.shared.disk (x.shared.inode ip).key = fresh type) ∧
    (∀ y, Step itMachine (fun t a s => s.Allowed t a) itCalls x y → ∀ k t type,
      x.shared.claimed k = some (t, type) → y.shared.claimed k = some (t, type) ∨
        ∃ ip next, x.code t = .act (.load ip) next ∧ (x.shared.inode ip).key = k) := by
  have holds := itReach_holds sound run
  have inv : ItInv x.shared := holds.inv
  have used : ∀ b, 0 < (x.shared.inode b).ref → x.shared.users b ≠ [] := by
    intro b positive none
    rw [(inv.slot b).refs, none] at positive
    cases positive
  refine ⟨fun a b usedA usedB => inv.unique a b (used a usedA) (used b usedB), fun b => (inv.slot b).refs,
    fun y step k typed freed => ?_, fun y step ip u doomed fresh => ?_, fun t ip next atSleep =>
    holds.owes atSleep,
    fun t ip next type atLoad => holds.owes atLoad type, fun y step k u type claimed => ?_⟩
  · cases step with
    | call _ _ => exact absurd freed typed
    | @act t a next _ answer s' atAct _ eq =>
      rcases itMachine_disk eq k with same | ⟨ip, rfl, key, now⟩ | untyped
      · exact absurd (same ▸ freed) typed
      · exact ⟨t, ip, next, atAct, key, holds.owes atAct (now ▸ freed)⟩
      · exact absurd untyped typed
  · cases step with
    | call _ _ => exact absurd doomed fresh
    | @act t a next _ answer s' atAct _ eq =>
      obtain ⟨rfl, rfl, one, noLinks⟩ := itMachine_stage eq doomed fresh
      exact ⟨holds.owes atAct, one, noLinks, next, atAct⟩
  · cases step with
    | call _ _ => exact .inl claimed
    | @act t a next _ answer s' atAct _ eq =>
      have busy : (x.shared.disk k).type ≠ 0 := by
        obtain ⟨typed, eq⟩ := (inv.key k).unread u type claimed
        rw [eq]
        exact typed
      rcases itMachine_claimed eq claimed busy with still | ⟨rfl, ip, rfl, key⟩
      · exact .inl still
      · exact .inr ⟨ip, next, atAct, key⟩

/-- One process frees an inode; between its last `iupdate` and the end another one allocates the inode
again, waits for it, and comes to read it. -/
def reuse : List (Move Pid Unit ItCall) :=
  .call 0 (.ialloc 1 2) :: List.replicate 5 (.act 0 ()) ++ .call 0 (.ilock ⟨0, NINODE_pos⟩) ::
    List.replicate 3 (.act 0 ()) ++ .call 0 (.iunlockput ⟨0, NINODE_pos⟩) :: List.replicate 10 (.act 0 ()) ++
    .call 1 (.ialloc 1 3) :: List.replicate 5 (.act 1 ()) ++ List.replicate 2 (.act 0 ()) ++
    .call 1 (.ilock ⟨0, NINODE_pos⟩) :: List.replicate 2 (.act 1 ())

/-- The inode that a process is about to read. -/
def loading : Prog ItAct ItAct.Resp Unit → Option Slot
  | .act (.load ip) _ => some ip
  | _ => none

theorem loading_eq {code : Prog ItAct ItAct.Resp Unit} {ip : Slot} (loads : loading code = some ip) :
    ∃ next, code = .act (.load ip) next := by
  unfold loading at loads
  split at loads
  next ip' next => cases loads; exact ⟨next, rfl⟩
  next => cases loads

theorem inode_table_reuse : ∃ x : ItConfig, x.shared.users ⟨0, by decide⟩ = [1, 0] ∧
    (x.shared.inode ⟨0, by decide⟩).valid = false ∧ x.shared.disk (1, 1) = fresh 3 := by
  obtain ⟨x, run, found⟩ := Option.map_eq_some_iff.mp
    (show (drive itMachine (fun t a s => s.Allowed t a) itCalls reuse
        (itStart 2 (fun _ => fresh 0) fun _ => false)).map
      (fun x => (x.shared.users ⟨0, by decide⟩, (x.shared.inode ⟨0, by decide⟩).key, x.shared.claimed (1, 1),
        loading (x.code 1))) = some ([1, 0], (1, 1), some (1, 3), some ⟨0, by decide⟩) by decide +kernel)
  simp only [Prod.mk.injEq] at found
  obtain ⟨users, key, claimed, atLoad⟩ := found
  obtain ⟨next, code⟩ := loading_eq atLoad
  have sees := (inode_table (fun k isNamed => by cases isNamed) (drive_reach run)).2.2.2.2.2.1 1 _ next 3 code
    (key ▸ claimed)
  rw [key] at sees
  exact ⟨x, users, sees⟩

end Xv6.Itable
