import Xv6.Ftable.Steps

namespace Xv6.Ftable
open Threads Function

variable {s : FtState} {t : ProcId} {v : FtView} {k : PageId}

/-- An end that is not shut is that of an allocated page that nobody has to himself. -/
theorem PipeInv.used (h : PipeInv s) {w : Bool} (open' : s.ends k w ≠ .shut) : s.owner k = none ∧
    s.allocated k = true := by
  constructor
  · by_contra owned
    exact open' (h.shut k (.inl owned) w)
  · cases alloc : s.allocated k with
    | true => rfl
    | false => exact absurd (h.shut k (.inr alloc) w) open'

/-- A page that no process has to itself changes hands. -/
theorem ProcInv.setOwner {s' : FtState} (h : ProcInv s) (status : s'.status = s.status)
    (users : s'.users = s.users)
    (ofile : s'.ofile = s.ofile) (ops : s'.ops = s.ops) (maker : s'.maker = s.maker)
    (ends : ∀ q, s.status q ≠ .running → ∀ k w, s'.ends k w = .hand q → s.ends k w = .hand q)
    (owner : ∀ q, s.status q ≠ .running → ∀ k, s'.owner k = some q → s.owner k = some q) : ProcInv s' := by
  refine ⟨?_, ?_, ?_⟩ <;> simp only [status, users, ofile, ops, maker]
  · exact h.slots
  · exact h.empty
  · intro q idle
    obtain ⟨noOps, makes, hands, owns, used⟩ := h.quiet q idle
    exact ⟨noOps, makes, fun k w eq => hands k w (ends q idle k w eq), fun k eq =>
      owns k (owner q idle k eq), used⟩

theorem kalloc_wp {Q : Option PageId → FtView → Prop} (running : v.running = true) (full : Q none v)
    (found : ∀ k, v.owns k = false → Q (some k) { v with owns := update v.owns k true }) :
    wp ftMachine ftOutline t FtAct.kalloc.run Q v := by
  refine ftStep_wp running fun s c inv view now => ⟨trivial, ?_⟩
  subst view
  simp only [ftMachine]
  split
  next fresh =>
    obtain ⟨_, unused⟩ : c.ok = true ∧ s.allocated c.page = false := by simpa using fresh
    have unowned : s.owner c.page = none := by
      by_contra owned
      rw [inv.owned _ owned] at unused
      cases unused
    refine ⟨⟨inv.toFileInv.congr rfl rfl rfl, ⟨inv.ends, fun k => ?_, fun k => ?_, fun k => ?_,
      fun k => ?_, fun k => ?_⟩,
      inv.toProcInv.setOwner rfl rfl rfl rfl rfl (fun _ _ _ _ => id) fun q idle k => ?_⟩,
      fun other different => ?_, ?_⟩
    · by_cases same : k = c.page
      · simp [same]
      · simpa [same] using inv.flags k
    · by_cases same : k = c.page
      · rw [same]
        exact fun _ => inv.shut _ (.inr unused)
      · simpa [same] using inv.shut k
    · by_cases same : k = c.page
      · simp [same]
      · simpa [same] using inv.owned k
    · by_cases same : k = c.page
      · simp [same]
      · simpa [same] using inv.live k
    · by_cases same : k = c.page
      · simp [same, inv.count c.page, unused]
      · simpa [same] using inv.count k
    · by_cases same : k = c.page
      · simp only [same, update_self, Option.some.injEq]
        rintro rfl
        exact absurd now idle
      · simp only [update_of_ne same]
        exact id
    · refine FtState.view_congr Iff.rfl (fun _ => rfl) (fun _ => Iff.rfl) (fun _ _ => Iff.rfl)
        (fun k => ?_) rfl rfl
        (fun _ => Iff.rfl) fun _ _ => rfl
      by_cases same : k = c.page
      · simp [same, unowned, different.symm]
      · simp only [update_of_ne same]
    · show Q _ (FtState.view t _)
      have eq : FtState.view t { s with
          allocated := update s.allocated c.page true
          owner := update s.owner c.page (some t)
          kallocs := update s.kallocs c.page (s.kallocs c.page + 1) } =
          { s.view t with owns := update (s.view t).owns c.page true } := by
        rw [FtState.view_of_running now]
        refine (FtState.view_of_running ?_).trans
          (FtView.ext rfl rfl rfl rfl (funext fun k => ?_) rfl rfl rfl)
        · exact now
        by_cases same : k = c.page
        · simp [same]
        · simp [same]
      rw [eq]
      refine found c.page ?_
      rw [FtState.view_of_running now]
      simp [unowned]
  next => exact ⟨inv, fun _ _ => rfl, full⟩

theorem initPipe_wp {Q : Unit → FtView → Prop} (running : v.running = true) (owns : v.owns k = true)
    (post : Q () { v with owns := update v.owns k false, hand := update v.hand k fun _ => true }) :
    wp ftMachine ftOutline t (FtAct.initPipe k).run Q v := by
  refine ftStep_wp running fun s c inv view now => ⟨trivial, ?_⟩
  subst view
  have self := FtState.view_of_running now
  rw [self] at owns
  simp only [decide_eq_true_eq] at owns
  have alloc := inv.owned k (by rw [owns]; simp)
  have shut := inv.shut k (.inl (by rw [owns]; simp))
  refine ⟨⟨inv.toFileInv.congr rfl rfl rfl, ⟨fun k' w f => ?_, fun k' => ?_, fun k' => ?_,
    fun k' => ?_, fun k' => ?_,
    inv.count⟩, inv.toProcInv.setOwner rfl rfl rfl rfl rfl (fun q idle k' w => ?_) fun q idle k' => ?_⟩,
    fun other different => ?_, ?_⟩
  · show _ ↔ s.IsEnd f k' w
    by_cases same : k' = k
    · rw [same, ← inv.ends, shut]
      simp
    · rw [← inv.ends]
      simp [same]
  · by_cases same : k' = k
    · rw [same]
      intro _ _ w
      cases w <;> simp [Pipe.isOpen]
    · simpa [same] using inv.flags k'
  · by_cases same : k' = k
    · simp [same, alloc]
    · simpa [same] using inv.shut k'
  · by_cases same : k' = k
    · simp [same]
    · simpa [same] using inv.owned k'
  · by_cases same : k' = k
    · simp [same]
    · simpa [same] using inv.live k'
  · by_cases same : k' = k
    · simp only [same, update_self, End.hand.injEq]
      rintro rfl
      exact absurd now idle
    · simp only [update_of_ne same]
      exact id
  · by_cases same : k' = k
    · simp [same]
    · simp only [update_of_ne same]
      exact id
  · refine FtState.view_congr Iff.rfl (fun _ => rfl) (fun _ => Iff.rfl) (fun k' w => ?_)
      (fun k' => ?_) rfl rfl
      (fun _ => Iff.rfl) fun _ _ => rfl
    all_goals by_cases same : k' = k
    · simp [same, shut, different.symm]
    · simp only [update_of_ne same]
    · simp [same, owns, different.symm]
    · simp only [update_of_ne same]
  · show Q _ (FtState.view t _)
    have eq : FtState.view t { s with
        page := update s.page k ⟨true, true⟩
        owner := update s.owner k none
        ends := update s.ends k fun _ => .hand t } =
        { s.view t with
          owns := update (s.view t).owns k false, hand := update (s.view t).hand k fun _ => true } := by
      rw [self]
      refine (FtState.view_of_running ?_).trans (FtView.ext rfl rfl rfl (funext fun k' => funext fun w => ?_)
        (funext fun k' => ?_) rfl rfl rfl)
      · exact now
      all_goals by_cases same : k' = k
      all_goals simp [same]
    rw [eq]
    exact post

theorem Pipe.close_isOpen (pi : Pipe) (w w' : Bool) :
    (pi.close w).isOpen w' = if w' = w then false else pi.isOpen w' := by
  cases w <;> cases w' <;> rfl

theorem closeEnd_wp {Q : Bool → FtView → Prop} {w : Bool} (running : v.running = true)
    (hand : v.hand k w = true)
    (more : Q false { v with hand := update v.hand k (update (v.hand k) w false) })
    (last : v.owns k = false → Q true { v with
      hand := update v.hand k (update (v.hand k) w false), owns := update v.owns k true }) :
    wp ftMachine ftOutline t (FtAct.closeEnd k w).run Q v := by
  refine ftStep_wp running fun s c inv view now => ?_
  subst view
  have self := FtState.view_of_running now
  rw [self] at hand
  simp only [decide_eq_true_eq] at hand
  have open' : s.ends k w ≠ .shut := by rw [hand]; simp
  obtain ⟨unowned, alloc⟩ := inv.toPipeInv.used open'
  refine ⟨alloc, ?_⟩
  simp only [ftMachine, FtState.closeEnd]
  -- The flags of the page say which of its ends are shut after the step.
  have flags : ∀ w', ((s.page k).close w).isOpen w' = true ↔ (s.setEnd k w .shut).ends k w' ≠ .shut := by
    intro w'
    rw [Pipe.close_isOpen]
    by_cases atW : w' = w
    · simp [FtState.setEnd, atW]
    · simpa [FtState.setEnd, atW] using inv.flags k unowned alloc w'
  have lastIff : (!((s.page k).close w).readopen && !((s.page k).close w).writeopen) = true ↔
      ∀ w', (s.setEnd k w .shut).ends k w' = .shut := by
    have read := flags false
    have write := flags true
    simp only [Pipe.isOpen] at read write
    simp only [Bool.forall_bool, Bool.and_eq_true, Bool.not_eq_true', ← Bool.not_eq_true]
    simp only [Bool.false_eq_true, if_false] at read
    simp only [if_true] at write
    rw [read, write]
    simp
  have elsewhere : ∀ k', k' ≠ k → (s.setEnd k w .shut).ends k' = s.ends k' :=
    fun k' apart => update_of_ne apart ..
  generalize (!((s.page k).close w).readopen && !((s.page k).close w).writeopen) = b at lastIff
  refine ⟨⟨inv.toFileInv.congr rfl rfl rfl, ⟨fun k' w' f => ?_, fun k' => ?_, fun k' => ?_,
    fun k' => ?_, fun k' => ?_,
    inv.count⟩, (inv.toProcInv.setEnd (k := k) (w := w) (x := .shut) fun q _ => by simp).setOwner
    rfl rfl rfl rfl rfl
    (fun _ _ _ _ => id) fun q idle k' => ?_⟩, fun other different => ?_, ?_⟩
  · show (s.setEnd k w .shut).ends k' w' = .file f ↔ s.IsEnd f k' w'
    rw [← inv.ends]
    by_cases same : k' = k
    · subst same
      by_cases atW : w' = w
      · subst atW; simp [FtState.setEnd, hand]
      · simp [FtState.setEnd, atW]
    · rw [elsewhere k' same]
  · by_cases same : k' = k
    · subst same
      intro _ _ w'
      simpa using flags w'
    · cases b <;> simpa [same, elsewhere k' same] using inv.flags k'
  · by_cases same : k' = k
    · subst same
      cases b with
      | true => exact fun _ => lastIff.mp rfl
      | false =>
        show s.owner k' ≠ none ∨ s.allocated k' = false → _
        simp [unowned, alloc]
    · cases b <;> simpa [same, elsewhere k' same] using inv.shut k'
  · by_cases same : k' = k
    · exact fun _ => same ▸ alloc
    · cases b <;> simpa [same] using inv.owned k'
  · by_cases same : k' = k
    · subst same
      cases b with
      | true => simp
      | false =>
        intro _ _
        by_contra none
        refine absurd (lastIff.mpr fun w' => ?_) (by simp)
        by_contra open''
        exact none ⟨w', open''⟩
    · cases b <;> simpa [same, elsewhere k' same] using inv.live k'
  · cases b with
    | false => exact id
    | true =>
      by_cases same : k' = k
      · simp only [same, if_true, update_self, Option.some.injEq]
        rintro rfl
        exact absurd now idle
      · simp only [if_true, update_of_ne same]
        exact id
  · refine Eq.trans ?_ (FtState.setEnd_view (s := s) (k := k) (w := w) (x := .shut) ?_)
    refine FtState.view_congr Iff.rfl (fun _ => rfl) (fun _ => Iff.rfl) (fun _ _ => Iff.rfl)
      (fun k' => ?_) rfl rfl
      (fun _ => Iff.rfl) fun _ _ => rfl
    · cases b with
      | false => exact Iff.rfl
      | true =>
        by_cases same : k' = k
        · simp [same, FtState.setEnd, unowned, different.symm]
        · simp [same, FtState.setEnd]
    · simp [hand, different.symm]
  · show Q b (FtState.view t _)
    have eq : FtState.view t { s.setEnd k w .shut with
        page := update s.page k ((s.page k).close w)
        owner := if b = true then update s.owner k (some t) else s.owner } =
        { s.view t with
          hand := update (s.view t).hand k (update ((s.view t).hand k) w false)
          owns := if b = true then update (s.view t).owns k true else (s.view t).owns } := by
      rw [self]
      refine (FtState.view_of_running ?_).trans (FtView.ext rfl rfl rfl (funext fun k' => funext fun w' => ?_)
        (funext fun k' => ?_) rfl rfl rfl)
      · exact now
      · by_cases same : k' = k
        · subst same
          by_cases atW : w' = w
          · simp [FtState.setEnd, atW]
          · simp [FtState.setEnd, atW]
        · simp [FtState.setEnd, same]
      · cases b with
        | false => rfl
        | true =>
          by_cases same : k' = k
          · simp [same]
          · simp [same]
    rw [eq]
    cases b with
    | false => exact more
    | true => exact last (by rw [self]; simp [unowned])

theorem kfree_wp {Q : Unit → FtView → Prop} (running : v.running = true) (owns : v.owns k = true)
    (post : Q () { v with owns := update v.owns k false }) :
    wp ftMachine ftOutline t (FtAct.kfree k).run Q v := by
  refine ftStep_wp running fun s c inv view now => ?_
  subst view
  have self := FtState.view_of_running now
  rw [self] at owns
  simp only [decide_eq_true_eq] at owns
  have owned : s.owner k ≠ none := by rw [owns]; simp
  have alloc := inv.owned k owned
  have shut := inv.shut k (.inl owned)
  refine ⟨⟨alloc, fun f type pipe => ?_⟩, ⟨inv.toFileInv.congr rfl rfl rfl,
    ⟨inv.ends, fun k' => ?_, fun k' => ?_,
    fun k' => ?_, fun k' => ?_, fun k' => ?_⟩, inv.toProcInv.setOwner rfl rfl rfl rfl rfl (fun _ _ _ _ => id)
    fun q idle k' => ?_⟩, fun other different => ?_, ?_⟩
  · have atEnd := (inv.ends k (s.file f).writable f).mpr ⟨type, pipe, rfl⟩
    rw [shut] at atEnd
    cases atEnd
  · by_cases same : k' = k
    · simp [same]
    · simpa [same] using inv.flags k'
  · by_cases same : k' = k
    · rw [same]
      exact fun _ => shut
    · simpa [same] using inv.shut k'
  · by_cases same : k' = k
    · simp [same]
    · simpa [same] using inv.owned k'
  · by_cases same : k' = k
    · simp [same]
    · simpa [same] using inv.live k'
  · by_cases same : k' = k
    · simp [same, inv.count k, alloc]
    · simpa [same] using inv.count k'
  · by_cases same : k' = k
    · simp [same]
    · simp only [update_of_ne same]
      exact id
  · refine FtState.view_congr Iff.rfl (fun _ => rfl) (fun _ => Iff.rfl) (fun _ _ => Iff.rfl)
      (fun k' => ?_) rfl rfl
      (fun _ => Iff.rfl) fun _ _ => rfl
    by_cases same : k' = k
    · simp [same, owns, different.symm]
    · simp only [update_of_ne same]
  · show Q _ (FtState.view t _)
    have eq : FtState.view t { s with
        allocated := update s.allocated k false
        owner := update s.owner k none
        kfrees := update s.kfrees k (s.kfrees k + 1) } =
        { s.view t with owns := update (s.view t).owns k false } := by
      rw [self]
      refine (FtState.view_of_running ?_).trans (FtView.ext rfl rfl rfl rfl (funext fun k' => ?_) rfl rfl rfl)
      · exact now
      by_cases same : k' = k
      · simp [same]
      · simp [same]
    rw [eq]
    exact post

end Xv6.Ftable
