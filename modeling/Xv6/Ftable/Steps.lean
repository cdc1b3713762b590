import Xv6.Ftable.Invariant

namespace Xv6.Ftable
open Threads Function

variable {s : FtState} {t : ProcId} {v : FtView}

theorem FileInv.congr {s' : FtState} (h : FileInv s) (file : s'.file = s.file) (users : s'.users = s.users)
    (maker : s'.maker = s.maker) : FileInv s' := by
  refine ⟨?_, ?_, ?_⟩ <;> simp only [file, users, maker]
  exacts [h.refs, h.bare, h.blank]

theorem PipeInv.congr {s' : FtState} (h : PipeInv s) (file : s'.file = s.file) (ends : s'.ends = s.ends)
    (page : s'.page = s.page) (allocated : s'.allocated = s.allocated) (owner : s'.owner = s.owner)
    (kallocs : s'.kallocs = s.kallocs) (kfrees : s'.kfrees = s.kfrees) : PipeInv s' := by
  refine ⟨?_, ?_, ?_, ?_, ?_, ?_⟩ <;> simp only [FtState.IsEnd, file, ends, page, allocated,
    owner, kallocs, kfrees]
  exacts [h.ends, h.flags, h.shut, h.owned, h.live, h.count]

section Table

variable {f : FileId} {new : File} {us : List ProcId} {m : Option ProcId}

theorem FileInv.setFile (h : FileInv s) (refs : new.ref = us.length) (bare : us = [] → new.type = .none)
    (blank : ∀ q, m = some q → us = [q] ∧ new.type = .none) : FileInv (s.setFile f new us m) := by
  refine ⟨fun g => ?_, fun g => ?_, fun g q => ?_⟩
  all_goals by_cases same : g = f
  all_goals simp only [FtState.setFile, same, update_self, ne_eq, not_false_eq_true, update_of_ne]
  exacts [refs, h.refs g, bare, h.bare g, blank q, h.blank g q]

/-- Storing a file that is no end of a pipe, neither before nor after. -/
theorem PipeInv.setFile (h : PipeInv s) (before : (s.file f).type ≠ .pipe) (after : new.type ≠ .pipe) :
    PipeInv (s.setFile f new us m) := by
  refine ⟨fun k w g => ?_, h.flags, h.shut, h.owned, h.live, h.count⟩
  rw [show (s.setFile f new us m).ends = s.ends from rfl, h.ends]
  unfold FtState.IsEnd FtState.setFile
  by_cases same : g = f
  · subst same
    simp [before, after]
  · simp only [update_of_ne same]

/-- Storing a file with what makes it the end of a pipe. -/
theorem PipeInv.setFile_same (h : PipeInv s) (type : new.type = (s.file f).type)
    (pipe : new.pipe = (s.file f).pipe)
    (writable : new.writable = (s.file f).writable) : PipeInv (s.setFile f new us m) := by
  refine ⟨fun k w g => ?_, h.flags, h.shut, h.owned, h.live, h.count⟩
  rw [show (s.setFile f new us m).ends = s.ends from rfl, h.ends]
  unfold FtState.IsEnd FtState.setFile
  by_cases same : g = f
  · subst same
    simp only [update_self, type, pipe, writable]
  · simp only [update_of_ne same]

/-- The references of a file change by those of a running process. -/
theorem ProcInv.setFile (h : ProcInv s) (running : s.status t = .running)
    (only : ∀ q, q ≠ t → us.count q = (s.users f).count q) (maker : ∀ q, q ≠ t → m = some q →
      s.maker f = some q) :
    ProcInv (s.setFile f new us m) := by
  have stopped : ∀ q, s.status q ≠ .running → q ≠ t := fun q idle same => idle (same ▸ running)
  refine ⟨fun q idle g => ?_, h.empty, fun q idle => ?_⟩
  · by_cases same : g = f
    · subst same
      simp only [FtState.setFile, update_self, only q (stopped q idle)]
      exact h.slots q idle g
    · simp only [FtState.setFile, update_of_ne same]
      exact h.slots q idle g
  · obtain ⟨ops, makes, rest⟩ := h.quiet q idle
    refine ⟨ops, fun g => ?_, rest⟩
    by_cases same : g = f
    · subst same
      simp only [FtState.setFile, update_self]
      exact fun eq => makes g (maker q (stopped q idle) eq)
    · simp only [FtState.setFile, update_of_ne same]
      exact makes g

/-- Other processes do not see a file change that keeps their references. -/
theorem FtState.setFile_view {q : ProcId} (users : us.count q = (s.users f).count q)
    (maker : m = some q ↔ s.maker f = some q) : (s.setFile f new us m).view q = s.view q := by
  refine FtState.view_congr Iff.rfl (fun g => ?_) (fun g => ?_) (fun _ _ => Iff.rfl)
    (fun _ => Iff.rfl) rfl rfl
    (fun _ => Iff.rfl) fun _ _ => rfl
  all_goals by_cases same : g = f
  all_goals simp [FtState.setFile, same, users, maker]

/-- The own view of a process that stores a file. -/
theorem FtState.setFile_view_self (running : s.status t = .running) :
    (s.setFile f new us m).view t = { s.view t with
      mine := update (s.view t).mine f (us.count t), blank := update (s.view t).blank f (m = some t) } := by
  rw [FtState.view_of_running running, FtState.view_of_running (s := s.setFile f new us m) running]
  refine FtView.ext rfl (funext fun g => ?_) (funext fun g => ?_) rfl rfl rfl rfl rfl
  all_goals by_cases same : g = f
  all_goals simp [FtState.setFile, same]

end Table

section Ends

variable {k : PageId} {w : Bool} {x : End}

@[simp] theorem FtState.setEnd_allocated : (s.setEnd k w x).allocated = s.allocated := rfl

@[simp] theorem FtState.setEnd_owner : (s.setEnd k w x).owner = s.owner := rfl

/-- A file becomes or ceases to be the end of a pipe that its process gives away or takes. -/
theorem PipeInv.move {f : FileId} {new : File} {us : List ProcId} {m : Option ProcId} (h : PipeInv s)
    (before : ∀ k' w', s.IsEnd f k' w' → k = k' ∧ w = w') (was : ∀ g, s.ends k w = .file g → g = f)
    (after : ∀ k' w', (new.type = .pipe ∧ new.pipe = k' ∧ new.writable = w') ↔ k' = k ∧ w' = w ∧ x = .file f)
    (is : ∀ g, x = .file g → g = f) (open' : x ≠ .shut) (wasOpen : s.ends k w ≠ .shut) :
    PipeInv ((s.setFile f new us m).setEnd k w x) := by
  have same : ∀ k' w', ((s.setFile f new us m).setEnd k w x).ends k' w' =
      if k' = k ∧ w' = w then x else s.ends k' w' := by
    intro k' w'
    show update s.ends k (update (s.ends k) w x) k' w' = _
    by_cases atK : k' = k
    · subst atK
      by_cases atW : w' = w
      · subst atW; simp
      · simp [atW]
    · simp [atK]
  have shutIff : ∀ k' w', ((s.setFile f new us m).setEnd k w x).ends k' w' = .shut ↔ s.ends k' w' = .shut := by
    intro k' w'
    rw [same]
    split
    next at' => rw [at'.1, at'.2]; exact ⟨fun eq => absurd eq open', fun eq => absurd eq wasOpen⟩
    next => exact Iff.rfl
  refine ⟨fun k' w' g => ?_, fun k' unowned alloc w' => ?_, fun k' closed w' => ?_, h.owned,
    fun k' unowned alloc => ?_,
    h.count⟩
  · rw [same]
    by_cases atF : g = f
    · subst atF
      unfold FtState.IsEnd
      simp only [FtState.setEnd, FtState.setFile, update_self]
      rw [after]
      split
      next at' => simp [at'.1, at'.2]
      next away =>
        refine ⟨fun eq => ?_, fun eq => absurd ⟨eq.1, eq.2.1⟩ away⟩
        obtain ⟨rfl, rfl⟩ := before k' w' ((h.ends k' w' g).mp eq)
        exact absurd ⟨rfl, rfl⟩ away
    · have isEnd : ((s.setFile f new us m).setEnd k w x).IsEnd g k' w' ↔ s.IsEnd g k' w' := by
        unfold FtState.IsEnd
        simp only [FtState.setEnd, FtState.setFile, update_of_ne atF]
      rw [isEnd, ← h.ends]
      split
      next at' =>
        rw [at'.1, at'.2]
        exact ⟨fun eq => absurd (is g eq) atF, fun eq => absurd (was g eq) atF⟩
      next => exact Iff.rfl
  · rw [Ne, shutIff]
    exact h.flags k' unowned alloc w'
  · rw [shutIff]
    exact h.shut k' closed w'
  · obtain ⟨w', open''⟩ := h.live k' unowned alloc
    exact ⟨w', by rw [Ne, shutIff]; exact open''⟩

theorem ProcInv.setEnd (h : ProcInv s) (running : ∀ q, s.status q ≠ .running → x ≠ .hand q) :
    ProcInv (s.setEnd k w x) := by
  refine ⟨h.slots, h.empty, fun q idle => ?_⟩
  obtain ⟨ops, makes, hands, rest⟩ := h.quiet q idle
  refine ⟨ops, makes, fun k' w' => ?_, rest⟩
  show update s.ends k (update (s.ends k) w x) k' w' ≠ _
  by_cases atK : k' = k
  · subst atK
    by_cases atW : w' = w
    · subst atW
      simpa using running q idle
    · simpa [atW] using hands k' w'
  · simpa [atK] using hands k' w'

theorem FtState.setEnd_view {q : ProcId} (hand : x = .hand q ↔ s.ends k w = .hand q) :
    (s.setEnd k w x).view q = s.view q := by
  refine FtState.view_congr Iff.rfl (fun _ => rfl) (fun _ => Iff.rfl) (fun k' w' => ?_)
    (fun _ => Iff.rfl) rfl rfl
    (fun _ => Iff.rfl) fun _ _ => rfl
  show update s.ends k (update (s.ends k) w x) k' w' = _ ↔ _
  by_cases atK : k' = k
  · subst atK
    by_cases atW : w' = w
    · subst atW
      simpa using hand
    · simp [atW]
  · simp [atK]

theorem FtState.setEnd_view_self (running : s.status t = .running) :
    (s.setEnd k w x).view t = { s.view t with
      hand := update (s.view t).hand k (update ((s.view t).hand k) w (x = .hand t)) } := by
  rw [FtState.view_of_running running, FtState.view_of_running (s := s.setEnd k w x) running]
  refine FtView.ext rfl rfl rfl (funext fun k' => funext fun w' => ?_) rfl rfl rfl rfl
  by_cases atK : k' = k
  · subst atK
    by_cases atW : w' = w
    · subst atW; simp [FtState.setEnd]
    · simp [FtState.setEnd, atW]
  · simp [FtState.setEnd, atK]

end Ends

section Steps

/-- A step that neither changes anything nor asks for anything. -/
theorem pass_wp {a : FtAct} {Q : a.Resp → FtView → Prop} (running : v.running = true)
    (same : ∀ s c, ∃ answer, ftMachine t c a s = .ok answer s) (free : ∀ s, FtState.Owed t s a)
    (post : ∀ answer, Q answer v) : wp ftMachine ftOutline t a.run Q v := by
  refine ftStep_wp running fun s c inv view now => ⟨free s, ?_⟩
  obtain ⟨answer, eq⟩ := same s c
  rw [eq]
  refine ⟨inv, fun _ _ => rfl, ?_⟩
  rw [show ftOutline.view t s = v from view]
  exact post answer

/-- A change of the list of open transactions. -/
theorem FtState.ops_view {ops : List ProcId} {q : ProcId} (same : ops.count q = s.ops.count q) :
    FtState.view q { s with ops } = s.view q :=
  FtState.view_congr Iff.rfl (fun _ => rfl) (fun _ => Iff.rfl) (fun _ _ => Iff.rfl)
  (fun _ => Iff.rfl) same rfl
    (fun _ => Iff.rfl) fun _ _ => rfl

theorem beginOp_wp {Q : Unit → FtView → Prop} (running : v.running = true) (outside : v.op = 0)
    (post : Q () { v with op := 1 }) : wp ftMachine ftOutline t FtAct.beginOp.run Q v := by
  refine ftStep_wp running fun s c inv view now => ?_
  rw [FtState.view_of_running now] at view
  subst view
  have outside : s.ops.count t = 0 := outside
  refine ⟨List.count_eq_zero.mp outside, ⟨inv.toFileInv.congr rfl rfl rfl,
    inv.toPipeInv.congr rfl rfl rfl rfl rfl rfl rfl, inv.slots, inv.empty, fun q idle => ?_⟩, ?_, ?_⟩
  · obtain ⟨ops, rest⟩ := inv.quiet q idle
    refine ⟨fun member => ?_, rest⟩
    rcases List.mem_cons.mp member with rfl | old
    · exact idle now
    · exact ops old
  · exact fun other different => FtState.ops_view (List.count_cons_of_ne different.symm)
  · show Q () (FtState.view t _)
    rw [FtState.view_of_running (s := { s with ops := t :: s.ops }) now]
    simp only [List.count_cons_self, outside]
    exact post

theorem endOp_wp {Q : Unit → FtView → Prop} (running : v.running = true)
    (post : Q () { v with op := v.op - 1 }) :
    wp ftMachine ftOutline t FtAct.endOp.run Q v := by
  refine ftStep_wp running fun s c inv view now => ?_
  rw [FtState.view_of_running now] at view
  subst view
  refine ⟨trivial, ⟨inv.toFileInv.congr rfl rfl rfl,
    inv.toPipeInv.congr rfl rfl rfl rfl rfl rfl rfl, inv.slots, inv.empty, fun q idle => ?_⟩, ?_, ?_⟩
  · exact ⟨fun member => (inv.quiet q idle).1 (List.mem_of_mem_erase member), (inv.quiet q idle).2⟩
  · exact fun other different => FtState.ops_view (List.count_erase_of_ne different)
  · show Q () (FtState.view t _)
    rw [FtState.view_of_running (s := { s with ops := s.ops.erase t }) now]
    simp only [List.count_erase_self]
    exact post

theorem filealloc_wp {Q : Option FileId → FtView → Prop} (running : v.running = true) (full : Q none v)
    (found : ∀ f, v.mine f = 0 → v.blank f = false →
      Q (some f) { v with mine := update v.mine f 1, blank := update v.blank f true }) :
    wp ftMachine ftOutline t FtAct.filealloc.run Q v := by
  refine ftStep_wp running fun s c inv view now => ⟨trivial, ?_⟩
  subst view
  simp only [ftMachine]
  cases free : s.freeFile with
  | none => exact ⟨inv, fun _ _ => rfl, full⟩
  | some f =>
    have none : (s.file f).ref = 0 := by simpa using List.find?_some free
    have users : s.users f = [] := List.eq_nil_of_length_eq_zero (by rw [← inv.refs, none])
    have bare := inv.bare f users
    have maker : s.maker f = .none := by
      cases made : s.maker f with
      | none => rfl
      | some q => rw [(inv.blank f q made).1] at users; cases users
    refine ⟨⟨inv.toFileInv.setFile (by simp [users]) (by simp) fun q made => ⟨?_, bare⟩,
      inv.toPipeInv.setFile (by rw [bare]; decide) (by rw [bare]; decide), inv.toProcInv.setFile now ?_ ?_⟩,
      ?_, ?_⟩
    · rw [users, Option.some.inj made]
    · exact fun q different => List.count_cons_of_ne different.symm
    · intro q different eq
      exact absurd (Option.some.inj eq).symm different
    · intro other different
      refine FtState.setFile_view ?_ ?_
      · exact List.count_cons_of_ne different.symm
      · rw [maker]
        simp [different.symm]
    · show Q _ (FtState.view t _)
      rw [FtState.setFile_view_self now]
      simp only [users, List.count_cons_self, List.count_nil, decide_true]
      refine found f ?_ ?_
      · rw [FtState.view_of_running now]
        simp [users]
      · rw [FtState.view_of_running now]
        simp [maker]

theorem filedup_wp {Q : Unit → FtView → Prop} {f : FileId} (running : v.running = true) (mine : 0 < v.mine f)
    (filled : v.blank f = false) (post : Q () { v with mine := update v.mine f (v.mine f + 1) }) :
    wp ftMachine ftOutline t (FtAct.filedup f).run Q v := by
  refine ftStep_wp running fun s c inv view now => ⟨trivial, ?_⟩
  subst view
  have self := FtState.view_of_running now
  have member : t ∈ s.users f := by
    rw [self] at mine
    exact List.count_pos_iff.mp mine
  have notMaker : s.maker f ≠ some t := by
    rw [self] at filled
    simpa using filled
  have noMaker : s.maker f = none := by
    cases made : s.maker f with
    | none => rfl
    | some q =>
      rw [(inv.blank f q made).1, List.mem_singleton] at member
      exact absurd (member ▸ made) notMaker
  have positive : ¬ (s.file f).ref < 1 := by
    have := List.length_pos_of_mem member
    rw [inv.refs]
    omega
  simp only [ftMachine, if_neg positive]
  refine ⟨⟨inv.toFileInv.setFile (by simp [inv.refs]) (by simp) fun q made => ?_,
    inv.toPipeInv.setFile_same rfl rfl rfl,
    inv.toProcInv.setFile now (fun q different => List.count_cons_of_ne different.symm) fun _ _ => id⟩,
    ?_, ?_⟩
  · rw [noMaker] at made
    cases made
  · exact fun other different => FtState.setFile_view (List.count_cons_of_ne different.symm) Iff.rfl
  · show Q _ (FtState.view t _)
    rw [FtState.setFile_view_self now, List.count_cons_self]
    have blank : update (s.view t).blank f (decide (s.maker f = some t)) = (s.view t).blank := by
      rw [decide_eq_false notMaker, ← filled, update_eq_self]
    have count : (s.users f).count t = (s.view t).mine f := by rw [self]
    rw [blank, count]
    exact post

theorem unref_wp {Q : Option File → FtView → Prop} {f : FileId} (running : v.running = true)
    (mine : 0 < v.mine f)
    (more : v.blank f = false → Q none { v with mine := update v.mine f (v.mine f - 1) })
    (last : ∀ ff : File, (v.blank f = true → ff.type = .none) → Q (some ff) { v with
      mine := update v.mine f (v.mine f - 1)
      blank := update v.blank f false
      hand := if ff.type = .pipe then update v.hand ff.pipe (update (v.hand ff.pipe) ff.writable true)
        else v.hand }) :
    wp ftMachine ftOutline t (FtAct.unref f).run Q v := by
  refine ftStep_wp running fun s c inv view now => ⟨trivial, ?_⟩
  subst view
  have self := FtState.view_of_running now
  have member : t ∈ s.users f := by
    rw [self] at mine
    exact List.count_pos_iff.mp mine
  have length := List.length_erase_of_mem member
  have positive := List.length_pos_of_mem member
  have count : ((s.users f).erase t).count t = (s.view t).mine f - 1 := by
    rw [self, List.count_erase_self]
  simp only [ftMachine, FtState.unref, inv.refs]
  rw [if_neg (by omega)]
  by_cases shared : (s.users f).length - 1 > 0
  · have noMaker : s.maker f = none := by
      cases made : s.maker f with
      | none => rfl
      | some q =>
        rw [(inv.blank f q made).1, List.length_singleton] at shared
        omega
    rw [if_pos shared]
    refine ⟨⟨inv.toFileInv.setFile length.symm (fun empty => ?_) fun q made => ?_,
      inv.toPipeInv.setFile_same rfl rfl rfl,
      inv.toProcInv.setFile now (fun q different => List.count_erase_of_ne different) fun _ _ => id⟩, ?_, ?_⟩
    · rw [empty, List.length_nil] at length
      omega
    · rw [noMaker] at made
      cases made
    · exact fun other different => FtState.setFile_view (List.count_erase_of_ne different) Iff.rfl
    · show Q _ (FtState.view t _)
      have filled : (s.view t).blank f = false := by simp [self, noMaker]
      have blank : update (s.view t).blank f (decide (s.maker f = some t)) = (s.view t).blank := by
        rw [noMaker, decide_eq_false (by simp), ← filled, update_eq_self]
      rw [FtState.setFile_view_self now, count, blank]
      exact more filled
  · -- The last reference goes.
    have users : s.users f = [t] := by
      obtain ⟨q, only⟩ := List.length_eq_one_iff.mp (show (s.users f).length = 1 by omega)
      rw [only, List.mem_singleton] at member
      rw [only, member]
    have gone : (s.users f).erase t = [] := by simp [users]
    have untyped : (s.view t).blank f = true → (s.file f).type = .none := by
      rw [self]
      simp only [decide_eq_true_eq]
      exact fun made => (inv.blank f t made).2
    have noMaker : ∀ q, q ≠ t → s.maker f ≠ some q := by
      intro q different made
      rw [(inv.blank f q made).1] at users
      exact different (List.singleton_inj.mp users)
    have others : ∀ q, q ≠ t → ((s.users f).erase t).count q = (s.users f).count q :=
      fun q different => List.count_erase_of_ne different
    rw [if_neg shared]
    unfold FtState.lastUnref
    have fileInv : FileInv (s.setFile f { s.file f with ref := 0, type := .none }
      ((s.users f).erase t) none) := by
      refine inv.toFileInv.setFile (by rw [gone]; rfl) (fun _ => rfl) fun q none => by cases none
    have procInv : ProcInv (s.setFile f { s.file f with ref := 0, type := .none }
      ((s.users f).erase t) none) :=
      inv.toProcInv.setFile now others fun _ _ none => by cases none
    have otherView : ∀ q, q ≠ t →
        (s.setFile f { s.file f with ref := 0, type := .none } ((s.users f).erase t) none).view q =
        s.view q :=
      fun q different => FtState.setFile_view (others q different) (by simp [noMaker q different])
    have selfView : (s.setFile f { s.file f with ref := 0, type := .none } ((s.users f).erase t)
      none).view t = _ :=
      FtState.setFile_view_self now
    rw [count, decide_eq_false (by simp)] at selfView
    by_cases type : (s.file f).type = .pipe
    · have atEnd : s.ends (s.file f).pipe (s.file f).writable = .file f :=
        (inv.ends _ _ f).mpr ⟨type, rfl, rfl⟩
      rw [if_pos type]
      refine ⟨⟨fileInv.congr rfl rfl rfl, ?_, procInv.setEnd fun q idle => ?_⟩, fun other different => ?_, ?_⟩
      · refine inv.toPipeInv.move (fun k w isEnd => ⟨isEnd.2.1, isEnd.2.2⟩) (fun g eq => ?_)
          (by simp) (by simp) (by simp) (by rw [atEnd]; simp)
        rw [atEnd] at eq
        exact (End.file.inj eq).symm
      · rintro ⟨⟩
        exact idle now
      · refine (FtState.setEnd_view ?_).trans (otherView other different)
        simp [FtState.setFile, atEnd, different.symm]
      · show Q _ (FtState.view t _)
        rw [FtState.setEnd_view_self (s := s.setFile f _ _ none) now, selfView]
        have post := last { s.file f with ref := (s.users f).length - 1 } untyped
        simp only [if_pos type] at post
        simp only [decide_true]
        exact post
    · rw [if_neg type]
      refine ⟨⟨fileInv, inv.toPipeInv.setFile type (by simp), procInv⟩, fun other different =>
        otherView other different, ?_⟩
      show Q _ (FtState.view t _)
      rw [selfView]
      have post := last { s.file f with ref := (s.users f).length - 1 } untyped
      simp only [if_neg type] at post
      exact post

theorem setPipe_wp {Q : Unit → FtView → Prop} {f : FileId} {k : PageId} {w : Bool}
    (running : v.running = true)
    (blank : v.blank f = true) (hand : v.hand k w = true)
    (post : Q () { v with
      blank := update v.blank f false, hand := update v.hand k (update (v.hand k) w false) }) :
    wp ftMachine ftOutline t (FtAct.setPipe f w k).run Q v := by
  refine ftStep_wp running fun s c inv view now => ⟨trivial, ?_⟩
  subst view
  have self := FtState.view_of_running now
  rw [self] at blank hand
  simp only [decide_eq_true_eq] at blank hand
  obtain ⟨users, untyped⟩ := inv.blank f t blank
  have count : (s.users f).count t = (s.view t).mine f := by rw [self]
  refine ⟨⟨(inv.toFileInv.setFile (by simp [inv.refs]) (fun empty => ?_) fun q none =>
      by cases none).congr rfl rfl rfl, ?_, ProcInv.setEnd ?_ fun q idle => ?_⟩, fun other different => ?_, ?_⟩
  · rw [users] at empty
    cases empty
  · refine inv.toPipeInv.move (fun k' w' isEnd => ?_) (fun g eq => ?_) (fun k' w' => ?_)
      (fun g eq => ?_) (by simp)
      (by rw [hand]; simp)
    · rw [isEnd.1] at untyped
      cases untyped
    · rw [hand] at eq
      cases eq
    · simp [eq_comm]
    · exact (End.file.inj eq).symm
  · exact inv.toProcInv.setFile now (fun _ _ => rfl) fun _ _ none => by cases none
  · simp
  · refine (FtState.setEnd_view ?_).trans (FtState.setFile_view rfl ?_)
    · simp [FtState.setFile, hand, different.symm]
    · simp [blank, different.symm]
  · show Q _ (FtState.view t _)
    rw [FtState.setEnd_view_self (s := s.setFile f _ _ none) now, FtState.setFile_view_self now, count]
    simp only [update_eq_self, reduceCtorEq, decide_false]
    exact post

theorem setInode_wp {Q : Unit → FtView → Prop} {f : FileId} {type : FileKind} {major : Int} {ip : Nat}
    {readable writable : Bool} (running : v.running = true) (notPipe : type ≠ .pipe)
    (blank : v.blank f = true)
    (post : Q () { v with blank := update v.blank f false }) :
    wp ftMachine ftOutline t (FtAct.setInode f type major ip readable writable).run Q v := by
  refine ftStep_wp running fun s c inv view now => ⟨trivial, ?_⟩
  subst view
  have self := FtState.view_of_running now
  rw [self] at blank
  simp only [decide_eq_true_eq] at blank
  obtain ⟨users, untyped⟩ := inv.blank f t blank
  have count : (s.users f).count t = (s.view t).mine f := by rw [self]
  refine ⟨⟨inv.toFileInv.setFile (by simp [inv.refs]) (fun empty => ?_) fun q none => (by cases none),
    inv.toPipeInv.setFile (by rw [untyped]; decide) notPipe,
    inv.toProcInv.setFile now (fun _ _ => rfl) fun _ _ none => by cases none⟩, fun other different => ?_, ?_⟩
  · rw [users] at empty
    cases empty
  · exact FtState.setFile_view rfl (by simp [blank, different.symm])
  · show Q _ (FtState.view t _)
    rw [FtState.setFile_view_self now, count]
    simp only [update_eq_self, reduceCtorEq, decide_false]
    exact post

end Steps

end Xv6.Ftable
