import Xv6.Virtio.Steps

namespace Xv6.Virtio
open Threads Function

section Calls

variable {t : Actor} {v : VView} {b : BufNo} {h : Nat}

/-- A loop keeps what holds before each of its rounds. -/
theorem forever_wp {α : Type} {body : VProg (Option α)} {J : VView → Prop} {Q : α → VView → Prop}
    (round : ∀ v, J v → wp virtioMachine virtioOutline t body (fun r v => match r with
      | some value => Q value v
      | none => J v) v) (start : J v) : wp virtioMachine virtioOutline t (forever body) Q v :=
  wp_bind (choose_wp fun n => wp_retry round (fun _ _ => wp_bind stuck_wp) n start)

theorem sleep_wp {Q : Unit → VView → Prop} (locked : v.locked = true)
    (calm : ∀ h c, v.mine h ≠ some (c, .ringed))
    (post : Q () v) : wp virtioMachine virtioOutline t sleep Q v := by
  refine wp_bind (release_wp locked calm (acquire_wp ?_))
  rw [show ({ ({ v with locked := false } : VView) with locked := true } : VView) = v from
    VView.ext locked.symm rfl rfl]
  exact post

theorem VView.at_calm {x : Shape} {phase : Phase} (other : phase ≠ .ringed) (y : Nat) (c : Shape) :
    (v.at h (x, phase)).mine y ≠ some (c, .ringed) := by
  intro eq
  by_cases atY : y = h
  · subst atY
    simp only [VView.at, update_self, Option.some.injEq, Prod.mk.injEq] at eq
    exact other eq.2
  · simp [VView.at, atY] at eq

theorem virtioDiskRw_wp {Q : Unit → VView → Prop} {blockno : Nat} {write : Bool} (locked : v.locked = false)
    (held : v.bufs b = true) (mine : v.mine = fun _ => none) (post : Q () v) :
    wp virtioMachine virtioOutline t (virtioDiskRw b blockno write) Q v := by
  refine wp_bind (acquire_wp ?_)
  -- the view with the lock and no chain, from which three descriptors are asked for
  set v' : VView := { v with locked := true } with hv'
  refine wp_seq (R := fun r w => w = v'.at r.1 (⟨t, b, r.2.1, r.2.2⟩, .allocated))
    (forever_wp (J := fun w => w = v') (fun w same => ?_) rfl) fun r w now => ?_
  · subst same
    refine wp_bind (alloc3Desc_wp mine held ?_ fun h d1 d2 => rfl)
    refine wp_bind (sleep_wp rfl ?_ rfl)
    intro h c
    rw [show v'.mine h = none from congrFun mine h]
    simp
  · obtain ⟨h, d1, d2⟩ := r
    subst now
    refine wp_bind (format_wp (wp_bind (ring_wp rfl (wp_bind (bump_wp rfl ?_)))))
    refine wp_seq (R := fun _ w => w = v'.at h (⟨t, b, d1, d2⟩, .noticed))
      (forever_wp (J := fun w => w = v'.at h (⟨t, b, d1, d2⟩, .inflight)) (fun w same => ?_)
        rfl) fun _ w now => ?_
    · subst same
      refine wp_bind (disk_wp rfl ?_ rfl)
      exact wp_bind (sleep_wp rfl (VView.at_calm (by simp)) rfl)
    · subst now
      refine wp_bind (clear_wp (wp_bind (freeChain_wp (release_wp rfl (by simp) ?_))))
      rw [show ({ ({ v' with mine := fun _ => none } : VView) with locked := false } : VView) = v from
        VView.ext locked.symm rfl mine.symm]
      exact post

theorem virtioDiskIntr_wp {Q : Unit → VView → Prop} (locked : v.locked = false)
    (mine : v.mine = fun _ => none)
    (post : Q () v) : wp virtioMachine virtioOutline t virtioDiskIntr Q v := by
  refine wp_bind (acquire_wp ?_)
  set v' : VView := { v with locked := true } with hv'
  refine wp_seq (R := fun _ w => w = v') (forever_wp (J := fun w => w = v') (fun w same => ?_)
    rfl) fun _ w now => ?_
  · subst same
    refine wp_bind (service_wp fun r => ?_)
    cases r <;> rfl
  · subst now
    refine release_wp rfl (fun h c => ?_) ?_
    · rw [show v'.mine h = none from congrFun mine h]
      simp
    · rw [show ({ v' with locked := false } : VView) = v from VView.ext locked.symm rfl rfl]
      exact post

/-- Between two calls an actor has no lock and no request. -/
def Idle (_ : Actor) (v : VView) : Prop := v = ⟨false, fun _ => false, fun _ => none⟩

theorem DiskCall.code_wp (call : DiskCall) (idle : Idle t v) :
    wp virtioMachine virtioOutline t call.code (fun _ => Idle t) v := by
  subst idle
  cases call with
  | virtioDiskRw b blockno write =>
    refine wp_bind (acquiresleep_wp (wp_bind (virtioDiskRw_wp rfl (by simp) rfl ?_)))
    refine releasesleep_wp (by simp) (fun _ _ _ eq => by cases eq) ?_
    exact VView.ext rfl (funext fun b' => by by_cases same : b' = b <;> simp [same]) rfl
  | virtioDiskIntr => exact virtioDiskIntr_wp rfl rfl rfl
  | take => exact take_wp rfl
  | complete => exact complete_wp rfl

end Calls

abbrev VConfig := Config Actor DiskState VAct VAct.Resp

/-- Nobody has made a request yet. -/
def virtioStart (idx : UInt16) : VConfig := ⟨DiskState.init idx, fun _ => pure ()⟩

variable {idx : UInt16} {x : VConfig}

theorem DiskState.init_inv : VInv (DiskState.init idx) := by
  refine ⟨⟨?_, ?_, fun d => ?_, ?_, ?_, ?_⟩, ?_, RingQueue.empty, RingQueue.empty, ?_, ?_, ?_⟩
  all_goals simp [DiskState.init, DiskState.shape, Lists]

theorem virtioReach_holds (run : Reach virtioMachine (fun _ _ _ => True) diskCalls (virtioStart idx) x) :
    virtioOutline.Holds virtioMachine Idle x := by
  have start : ∀ t, (DiskState.init idx).view t = ⟨false, fun _ => false, fun _ => none⟩ := fun t => by
    simp [DiskState.view, DiskState.init]
  have holds : virtioOutline.Holds virtioMachine Idle (virtioStart idx) := ⟨DiskState.init_inv, start⟩
  exact holds.reach virtioOutline_isolated (fun _ _ call _ idle _ => call.code_wp idle) run

/-- In every run, wherever the indices start: a descriptor is free or belongs to the chain of exactly one
request, three descriptors each; a slot of the avail ring is written when the device has taken what was in it;
the interrupt handler finds the buffer of the request that the device completed; a request goes on to
free its chain after its own completion; nothing panics. A failed `alloc3_desc` leaves the free
descriptors as they are. -/
theorem descriptors_owned (run : Reach virtioMachine (fun _ _ _ => True) diskCalls (virtioStart idx) x) :
    (∀ d < NUM, if x.shared.table.free d then ∀ h c, x.shared.chain h = some c → d ∉ [h, c.d1, c.d2]
      else ∃! h, ∃ c, x.shared.chain h = some c ∧ d ∈ [h, c.d1, c.d2]) ∧
    (∀ h c, x.shared.chain h = some c → [h, c.d1, c.d2].Nodup ∧ ∀ d ∈ [h, c.d1, c.d2], d < NUM) ∧
    (∀ t h next, x.code t = .act (.ring h) next → (x.shared.availIdx - x.shared.takeIdx).toNat < NUM) ∧
    (∀ t next, x.code t = .act .service next → x.shared.usedIdx ≠ x.shared.deviceUsedIdx →
      ∃ c, x.shared.chain (x.shared.usedRing (DiskState.slot x.shared.usedIdx)) = some c ∧
      c.stage = .finished ∧
        (x.shared.info (x.shared.usedRing (DiskState.slot x.shared.usedIdx))).b = some c.buf) ∧
    (∀ t h next, x.code t = .act (.clear h) next → ∃ c, x.shared.chain h = some c ∧ c.owner = t ∧
      c.completed = true) ∧
    (∀ T, x.shared.table.alloc3Desc = .ok (none, T) → T.free = x.shared.table.free) ∧
    ∀ message, ¬ Panics virtioMachine (fun _ _ _ => True) x message := by
  have holds := virtioReach_holds run
  have inv : VInv x.shared := holds.inv
  refine ⟨fun d small => ?_, fun h c atH => ?_, fun t h next atRing => holds.owes atRing,
    fun t next atService => holds.owes atService, fun t h next atClear => holds.owes atClear,
    fun T failed => ?_,
    fun message stop => ?_⟩
  · split
    · next free => exact fun h c atH => ((inv.layout.free d).mp free).2 h _ (DiskState.shape_some atH)
    · next used =>
      have taken : ∃ h c, x.shared.shape h = some c ∧ c.has h d := by
        by_contra none
        push Not at none
        exact used ((inv.layout.free d).mpr ⟨small, none⟩)
      obtain ⟨h, shape, atH, has⟩ := taken
      obtain ⟨c, chain, rfl⟩ := DiskState.shape_chain atH
      refine ⟨h, ⟨c, chain, has⟩, ?_⟩
      rintro h' ⟨c', chain', has'⟩
      exact inv.layout.disjoint h' _ h _ d (DiskState.shape_some chain') atH has' has
  · exact ⟨inv.layout.nodup h _ (DiskState.shape_some atH),
      fun d has => inv.layout.inside h _ d (DiskState.shape_some atH) has⟩
  · obtain ⟨r, T', eq, result⟩ := x.shared.table.alloc3Desc_ok
    rw [eq] at failed
    cases failed
    exact result.1
  · obtain ⟨_, _, _, _, never⟩ := holds.panics stop
    exact never

/-- One request from the last value of the indices on: the avail and the used index wrap. -/
def wrapScript : List (Move Actor Nat DiskCall) :=
  .call (.proc 0) (.virtioDiskRw 5 40 true) :: List.replicate 10 (.act (.proc 0) 3) ++
    [.call .device .take, .act .device 0, .call .device .complete, .act .device 0,
      .call (.intr 0) .virtioDiskIntr] ++ List.replicate 5 (.act (.intr 0) 2) ++ [.act
      (.proc 0) 0, .act (.proc 0) 0]

theorem descriptors_owned_wrap :
    ∃ x, Reach virtioMachine (fun _ _ _ => True) diskCalls (virtioStart 65535) x ∧
    x.shared.usedIdx = 0 ∧ ∀ message, ¬ Panics virtioMachine (fun _ _ _ => True) x message := by
  have reached : ((drive virtioMachine (fun _ _ _ => True) diskCalls wrapScript (virtioStart 65535)).any
      fun x => x.shared.usedIdx == 0) = true := by decide +kernel
  obtain ⟨x, run, wrapped⟩ := (Option.any_eq_true _ _).mp reached
  exact ⟨x, drive_reach run, by simpa using wrapped, (descriptors_owned (drive_reach run)).2.2.2.2.2.2⟩

end Xv6.Virtio
