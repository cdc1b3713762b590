import Xv6.Log.Steps
import Xv6.Lib.Redo

namespace Xv6
open Threads

theorem HeaderOk.apart {start size : Nat} {lh : List Nat} (ok : HeaderOk start size lh) :
    Redo.Apart start lh := fun n member => by
  have := ok.slots (lh.length - 1)
  have := List.length_pos_of_mem member
  have := ok.home n member
  simp only [Home] at this
  omega

/-- The disk after `write_head`. -/
def setHead (start : Nat) (lh : List Nat) (disk : Nat → Block) : Nat → Block :=
  Function.update disk start (putHead (disk start) lh)

/-- The disk once the log holds a transaction, up to the write of the header. -/
def fillLog (start : Nat) (lh : List Nat) (logged disk : Nat → Block) (k : Nat) : Nat → Block :=
  Redo.fill start (fun i => logged (lh.getD i 0)) k disk

/-- The disk once the header of a transaction is written. -/
def commitPoint (start : Nat) (lh : List Nat) (logged disk : Nat → Block) : Nat → Block :=
  setHead start lh (fillLog start lh logged disk lh.length)

/-- Every disk that `commit` passes through is crashable. -/
structure CommitSafe (crashable : (Nat → Block) → Prop) (start : Nat) (lh : List Nat)
    (logged disk : Nat → Block) : Prop where
  filling : ∀ k ≤ lh.length, crashable (fillLog start lh logged disk k)
  installing : ∀ k ≤ lh.length, crashable (Redo.install start lh k (commitPoint start lh logged disk))
  cleared : crashable (setHead start [] (Redo.replay start lh (commitPoint start lh logged disk)))

section Commit

variable {solo : Bool} {crashable : (Nat → Block) → Prop} {t : Pid} {v : BufView} {c : Seen}

/-- One round of `write_log`. -/
theorem copyToLog_wp {Q : Unit → BufView → Prop} {tail n : Nat} (owner : v.owner = true)
    (sees : v.sees = some c) (entry : c.lh[tail]? = some n) (pinned : n ∈ c.pinned)
    (slot : v.start + tail + 1 ∉ c.lh)
    (crash : crashable (Function.update c.disk (v.start + tail + 1) (c.logged n)))
    (h : Q () (v.see { c with disk := Function.update c.disk (v.start + tail + 1) (c.logged n) })) :
    wp bufMachine (bufOutline solo crashable) t (do
      let dst ← bread (v.start + tail + 1)
      let src ← bread ((← BufAct.lh.run).getD tail 0)
      (BufAct.modify dst (← (BufAct.data src).run)).run
      (BufAct.bwrite dst).run
      brelse src
      brelse dst) Q v := by
  refine wp_bind (bread_wp fun dst old freeDst keyDst _ => ?_)
  refine wp_bind (lh_wp (c := c) (by simp [sees]) ?_)
  rw [List.getD_eq_getElem?_getD, entry, Option.getD_some]
  refine wp_bind (bread_wp fun src d freeSrc keySrc read => ?_)
  have apart := Handles.ne_of_free freeSrc
  have copied : d = c.logged n := (read c (by simp [sees])).trans (if_pos pinned)
  simp only [BufView.get_handles, Handles.get_held_ne apart, Handles.get_key_ne apart,
    Handles.get_mine_ne apart]
    at freeSrc keySrc
  refine wp_bind (data_wp true false Handles.get_held ?_)
  refine wp_bind (modify_wp old false (by simp [apart.symm]) (.inr owner) ?_)
  rw [BufView.get_get_hold apart]
  refine wp_bind (bwrite_wp true (d := d) (c := c) (n := v.start + tail + 1) owner
    (by simp [apart.symm]) (by simp [apart.symm]) (by simp [sees]) (fun _ logged => absurd logged slot)
    (fun _ tail' m same entry' => ?_) (copied ▸ crash) ?_)
  · have same : tail' = tail := by
      simp at same
      omega
    rw [same, entry] at entry'
    rw [copied, Option.some.inj entry']
  rw [BufView.get_get_hold apart]
  refine wp_bind (brelse_wp true (d := d) (by simp) (by simp) ?_)
  rw [BufView.get_see, BufView.get_see, BufView.get_release (by simp [apart, freeSrc])
    (by simp [apart, keySrc])]
  refine brelse_wp true (d := d) (by simp) (by simp) ?_
  rw [BufView.get_release (by simp [freeDst]) (by simp [keyDst]), copied]
  exact h

theorem writeLog_wp {Q : Unit → BufView → Prop} (owner : v.owner = true) (sees : v.sees = some c)
    (ok : HeaderOk v.start v.size c.lh) (pinned : c.pinned = c.lh)
    (crash : ∀ k ≤ c.lh.length, crashable (fillLog v.start c.lh c.logged c.disk k))
    (h : Q () (v.see { c with disk := fillLog v.start c.lh c.logged c.disk c.lh.length })) :
    wp bufMachine (bufOutline solo crashable) t (writeLog v.start) Q v := by
  refine wp_bind (lh_wp sees (wp_mono ?_ (wp_forRange
    (J := fun k v' => v' = v.see { c with disk := fillLog v.start c.lh c.logged c.disk k }) ?_ ?_)))
  · rintro _ _ rfl
    exact h
  · rintro tail v' bound rfl
    have entry : c.lh.getD tail 0 = c.lh[tail] := List.getD_eq_getElem _ _ bound
    refine copyToLog_wp (n := c.lh.getD tail 0) owner BufView.see_sees ?_ ?_ ?_
      (crash (tail + 1) bound) ?_
    · rw [entry, List.getElem?_eq_getElem bound]
    · simp only [pinned, entry]
      exact List.getElem_mem bound
    · exact ok.apart.slot bound
    · rfl
  · exact (BufView.see_self sees).symm

theorem writeHead_wp {Q : Unit → BufView → Prop} (owner : v.owner = true) (sees : v.sees = some c)
    (ok : HeaderOk v.start v.size c.lh) (pinned : c.pinned <:+ c.lh)
    (crash : crashable (setHead v.start c.lh c.disk))
    (h : Q () (v.see { c with disk := setHead v.start c.lh c.disk })) :
    wp bufMachine (bufOutline solo crashable) t (writeHead v.start) Q v := by
  have unlogged : v.start ∉ c.lh := ok.apart.head
  have unpinned : v.start ∉ c.pinned := fun member => unlogged (pinned.subset member)
  refine wp_bind (bread_wp fun buf d free key read => ?_)
  have read : d = c.disk v.start := (read c sees).trans (if_neg unpinned)
  subst read
  refine wp_bind (data_wp true false Handles.get_held ?_)
  refine wp_bind (lh_wp (c := c) (by simp [sees]) ?_)
  refine wp_bind (modify_wp (c.disk v.start) false (by simp) (.inr owner) ?_)
  rw [BufView.get_hold]
  refine wp_bind (bwrite_wp true (c := c) (n := v.start) owner (by simp) (by simp)
    (by simp [sees]) (fun _ logged => absurd logged unlogged) (fun _ tail _ same => ?_) crash ?_)
  · simp at same
    omega
  rw [BufView.get_hold, BufView.get_see]
  refine brelse_wp true (d := putHead (c.disk v.start) c.lh) (by simp) (by simp) ?_
  rw [BufView.get_release (by simp [free]) (by simp [key])]
  exact h

/-- One round of `install_trans`. -/
theorem copyHome_wp {Q : Unit → BufView → Prop} {tail n : Nat} {recovering : Bool}
    (owner : v.owner = true) (sees : v.sees = some c) (entry : c.lh[tail]? = some n)
    (home : ∀ tail' m, c.lh[tail']? = some m → v.start + tail' + 1 ≠ n)
    (slot : v.start + tail + 1 ∉ c.pinned) (mode : v.recovering = recovering)
    (pinned : c.pinned = if recovering then [] else n :: c.pinned.tail)
    (copied : recovering = false → c.disk (v.start + tail + 1) = c.logged n)
    (crash : crashable (Function.update c.disk n (c.disk (v.start + tail + 1))))
    (h : Q () (v.see { c with
      disk := Function.update c.disk n (c.disk (v.start + tail + 1)), pinned := c.pinned.tail })) :
    wp bufMachine (bufOutline solo crashable) t (do
      let lbuf ← bread (v.start + tail + 1)
      let dbuf ← bread ((← BufAct.lh.run).getD tail 0)
      (BufAct.modify dbuf (← (BufAct.data lbuf).run)).run
      (BufAct.bwrite dbuf).run
      if !recovering then (BufAct.bunpin dbuf).run
      brelse lbuf
      brelse dbuf) Q v := by
  refine wp_bind (bread_wp fun lbuf d freeL keyL read => ?_)
  have read : d = c.disk (v.start + tail + 1) := (read c sees).trans (if_neg slot)
  subst read
  refine wp_bind (lh_wp (c := c) (by simp [sees]) ?_)
  rw [List.getD_eq_getElem?_getD, entry, Option.getD_some]
  refine wp_bind (bread_wp fun dbuf old freeD keyD _ => ?_)
  have apart := Handles.ne_of_free freeD
  simp only [BufView.get_handles, Handles.get_held_ne apart, Handles.get_key_ne apart,
    Handles.get_mine_ne apart]
    at freeD keyD
  refine wp_bind (data_wp true false (d := c.disk (v.start + tail + 1))
    (by simp [apart.symm]) ?_)
  refine wp_bind (modify_wp old false (by simp) (.inr owner) ?_)
  rw [BufView.get_hold]
  refine wp_bind (bwrite_wp true (c := c) (n := n) owner (by simp) (by simp) (by simp [sees])
    (fun live _ => copied ?_) (fun _ tail' m same entry' => absurd same.symm (home tail' m entry')) crash ?_)
  · rcases live with booted | member
    · exact mode.symm.trans booted
    · cases recovering with
      | true => simp [pinned] at member
      | false => rfl
  rw [BufView.get_hold, BufView.get_see, BufView.get_see]
  have finish : wp bufMachine (bufOutline solo crashable) t (do brelse lbuf; brelse dbuf) Q
      (((v.see { c with
        disk := Function.update c.disk n (c.disk (v.start + tail + 1)), pinned := c.pinned.tail }).get lbuf
          (v.start + tail + 1) (c.disk (v.start + tail + 1)) false).get dbuf n
          (c.disk (v.start + tail + 1)) false) := by
    refine wp_bind (brelse_wp true (d := c.disk (v.start + tail + 1))
      (by simp [apart.symm]) (by simp [apart.symm]) ?_)
    rw [BufView.get_get_release apart (by simp [freeL]) (by simp [keyL])]
    refine brelse_wp true (d := c.disk (v.start + tail + 1)) (by simp) (by simp) ?_
    rw [BufView.get_release (by simp [freeD]) (by simp [keyD])]
    exact h
  cases recovering with
  | true =>
    have empty : c.pinned = [] := pinned
    simpa [empty] using finish
  | false =>
    refine wp_bind (bunpin_wp (n := n)
      (c := { c with disk := Function.update c.disk n (c.disk (v.start + tail + 1)) }) owner (by simp)
      (by simp) pinned ?_ finish)
    simpa using copied rfl

/-- The disk and the pins after `k` rounds of `install_trans`. -/
def Seen.install (c : Seen) (start k : Nat) : Seen :=
  { c with disk := Redo.install start c.lh k c.disk, pinned := c.pinned.drop k }

theorem installTrans_wp {Q : Unit → BufView → Prop} {recovering : Bool} (owner : v.owner = true)
    (sees : v.sees = some c) (ok : HeaderOk v.start v.size c.lh) (mode : v.recovering = recovering)
    (pinned : c.pinned = if recovering then [] else c.lh)
    (copied : recovering = false → ∀ i (bound : i < c.lh.length),
      c.disk (v.start + i + 1) = c.logged c.lh[i])
    (crash : ∀ k ≤ c.lh.length, crashable (Redo.install v.start c.lh k c.disk))
    (h : Q () (v.see (c.install v.start c.lh.length))) :
    wp bufMachine (bufOutline solo crashable) t (installTrans v.start recovering) Q v := by
  refine wp_bind (lh_wp sees (wp_mono ?_ (wp_forRange
    (J := fun k v' => v' = v.see (c.install v.start k)) ?_ ?_)))
  · rintro _ _ rfl
    exact h
  · rintro tail v' bound rfl
    have slot : Redo.install v.start c.lh tail c.disk (v.start + tail + 1) = c.disk (v.start + tail + 1) :=
      Redo.install_slot ok.apart (by omega) bound
    refine copyHome_wp (c := c.install v.start tail) (n := c.lh[tail]) owner
      BufView.see_sees (List.getElem?_eq_getElem bound) ?_ ?_ mode ?_ ?_ ?_ ?_
    · intro tail' m entry' same
      obtain ⟨bound', _⟩ := List.getElem?_eq_some_iff.mp entry'
      exact ok.apart.slot bound' (same ▸ List.getElem_mem bound)
    · intro member
      have member : v.start + tail + 1 ∈ c.pinned := List.mem_of_mem_drop member
      rw [pinned] at member
      split at member
      · simp at member
      · exact ok.apart.slot bound member
    · cases recovering with
      | true => simp [Seen.install, pinned]
      | false =>
        have all : c.pinned = c.lh := pinned
        simp only [Seen.install, all, List.tail_drop]
        exact List.drop_eq_getElem_cons bound
    · exact fun live => slot.trans (copied live tail bound)
    · have next := crash (tail + 1) bound
      rwa [Redo.install, List.getD_eq_getElem _ _ bound] at next
    · simp [Seen.install, Redo.install, List.getElem?_eq_getElem bound]
  · exact (BufView.see_self sees).symm

theorem readHead_wp {Q : Unit → BufView → Prop} (owner : v.owner = true) (sees : v.sees = some c)
    (mode : v.recovering = true) (pinned : c.pinned = [])
    (ok : HeaderOk v.start v.size (getHead (c.disk v.start)))
    (h : Q () (v.see { c with lh := getHead (c.disk v.start) })) :
    wp bufMachine (bufOutline solo crashable) t (readHead v.start) Q v := by
  refine wp_bind (bread_wp fun buf d free key read => ?_)
  have read : d = c.disk v.start := (read c sees).trans (if_neg (by simp [pinned]))
  subst read
  refine wp_bind (data_wp true false Handles.get_held ?_)
  refine wp_bind (setLh_wp (c := c) owner (by simp [sees]) ok (by simp [pinned])
    (fun booted => absurd (mode.symm.trans booted) (by simp)) ?_)
  rw [BufView.get_see]
  refine brelse_wp true (d := c.disk v.start) (by simp) (by simp) ?_
  rw [BufView.get_release (by simp [free]) (by simp [key])]
  exact h

theorem headerOk_nil {start size : Nat} : HeaderOk start size [] :=
  ⟨List.nodup_nil, Nat.zero_le _, by simp, by simp⟩

/-- `install_trans` followed by the reset of the header. -/
theorem installAndClear_wp {Q : Unit → BufView → Prop} (recovering : Bool) (owner : v.owner = true)
    (sees : v.sees = some c) (ok : HeaderOk v.start v.size c.lh) (mode : v.recovering = recovering)
    (pinned : c.pinned = if recovering then [] else c.lh)
    (copied : recovering = false → ∀ i (bound : i < c.lh.length),
      c.disk (v.start + i + 1) = c.logged c.lh[i])
    (crash : ∀ k ≤ c.lh.length, crashable (Redo.install v.start c.lh k c.disk))
    (crashEnd : crashable (setHead v.start [] (Redo.replay v.start c.lh c.disk)))
    (h : Q () (v.see { c with
      disk := setHead v.start [] (Redo.replay v.start c.lh c.disk), lh := [], pinned := [] })) :
    wp bufMachine (bufOutline solo crashable) t (do
      installTrans v.start recovering
      (BufAct.setLh []).run
      writeHead v.start) Q v := by
  refine wp_bind (installTrans_wp owner sees ok mode pinned copied crash ?_)
  have unpinned : (c.install v.start c.lh.length).pinned = [] := by
    cases recovering <;> simp [Seen.install, pinned]
  refine wp_bind (setLh_wp (c := c.install v.start c.lh.length) owner BufView.see_sees headerOk_nil
    (by simp [unpinned]) (by simp) ?_)
  rw [BufView.see_see, unpinned]
  exact writeHead_wp (v := v.see _) owner BufView.see_sees headerOk_nil List.nil_suffix crashEnd h

theorem recoverFromLog_wp {Q : Unit → BufView → Prop} (owner : v.owner = true)
    (sees : v.sees = some c) (mode : v.recovering = true) (pinned : c.pinned = [])
    (ok : HeaderOk v.start v.size (getHead (c.disk v.start)))
    (crash : ∀ k ≤ (getHead (c.disk v.start)).length,
      crashable (Redo.install v.start (getHead (c.disk v.start)) k c.disk))
    (crashEnd : crashable (setHead v.start [] (Redo.replay v.start (getHead (c.disk v.start)) c.disk)))
    (h : Q () (v.see { c with
      disk := setHead v.start [] (Redo.replay v.start (getHead (c.disk v.start)) c.disk)
      lh := [], pinned := [] })) :
    wp bufMachine (bufOutline solo crashable) t (recoverFromLog v.start) Q v := by
  refine wp_bind (readHead_wp owner sees mode pinned ok ?_)
  generalize getHead (c.disk v.start) = lh at *
  exact installAndClear_wp (v := v.see { c with lh }) true owner
    BufView.see_sees ok mode pinned nofun crash crashEnd h

theorem initlog_wp {Q : Unit → BufView → Prop} (owner : v.owner = true)
    (sees : v.sees = some c) (mode : v.recovering = true) (unlocked : ∀ b, v.held b = none)
    (pinned : c.pinned = []) (ok : HeaderOk v.start v.size (getHead (c.disk v.start)))
    (crash : ∀ k ≤ (getHead (c.disk v.start)).length,
      crashable (Redo.install v.start (getHead (c.disk v.start)) k c.disk))
    (crashEnd : crashable (setHead v.start [] (Redo.replay v.start (getHead (c.disk v.start)) c.disk)))
    (h : Q () { v with
      owner := false, recovering := false
      sees := if solo then some { c with
        disk := setHead v.start [] (Redo.replay v.start (getHead (c.disk v.start)) c.disk)
        lh := [], pinned := [] } else none }) :
    wp bufMachine (bufOutline solo crashable) t (initlog v.start) Q v :=
  wp_bind (recoverFromLog_wp owner sees mode pinned ok crash crashEnd
    (ready_wp (v := v.see _) mode (by simp [unlocked]) BufView.see_sees rfl rfl h))

/-- What `commit` makes of the disk and the log. -/
def Seen.commit (c : Seen) (start : Nat) : Seen :=
  if c.lh = [] then c
  else { c with
    disk := setHead start [] (Redo.replay start c.lh (commitPoint start c.lh c.logged c.disk))
    lh := []
    pinned := [] }

theorem commitPoint_slot {start i : Nat} {lh : List Nat} {logged disk : Nat → Block}
    (bound : i < lh.length) : commitPoint start lh logged disk (start + i + 1) = logged lh[i] := by
  rw [commitPoint, setHead, Function.update_of_ne (by omega), fillLog, Redo.fill_slot bound,
    List.getD_eq_getElem _ _ bound]

theorem commit_wp {Q : Unit → BufView → Prop} (owner : v.owner = true) (sees : v.sees = some c)
    (mode : v.recovering = false) (ok : HeaderOk v.start v.size c.lh) (pinned : c.pinned = c.lh)
    (safe : CommitSafe crashable v.start c.lh c.logged c.disk)
    (h : Q () (v.see (c.commit v.start))) :
    wp bufMachine (bufOutline solo crashable) t (commit v.start) Q v := by
  refine wp_bind (lh_wp sees ?_)
  rw [Seen.commit] at h
  split
  · next some =>
    have nonempty : c.lh ≠ [] := List.ne_nil_of_length_pos some
    rw [if_neg nonempty] at h
    refine wp_bind (writeLog_wp owner sees ok pinned safe.filling ?_)
    refine wp_bind (writeHead_wp (v := v.see _) (c := { c with disk := _ }) owner
      BufView.see_sees ok (pinned ▸ List.suffix_refl _) (safe.installing 0 (Nat.zero_le _)) ?_)
    exact installAndClear_wp (v := v.see _) (c := { c with disk := _ }) false owner
      BufView.see_sees ok mode pinned (fun _ i bound => commitPoint_slot bound)
        safe.installing safe.cleared h
  · next none =>
    have empty : c.lh = [] := List.eq_nil_of_length_eq_zero (by omega)
    rw [if_pos empty, BufView.see_self sees] at h
    exact h

theorem Seen.commit_empty (c : Seen) (start : Nat) (pinned : c.pinned = c.lh) :
    (c.commit start).pinned = [] ∧ (c.commit start).lh = [] := by
  rw [Seen.commit]
  split
  · next empty => exact ⟨pinned.trans empty, empty⟩
  · exact ⟨rfl, rfl⟩

theorem endOp_wp {Q : Unit → BufView → Prop} (mode : v.recovering = false) (op : 0 < v.op)
    (idle : v.owner = false) (clean : ∀ b valid d, v.held b ≠ some (valid, d, true))
    (safe : ∀ c, HeaderOk v.start v.size c.lh → c.pinned = c.lh → (∀ c', v.sees = some c' → c' = c) →
      CommitSafe crashable v.start c.lh c.logged c.disk)
    (h : ∀ last c, HeaderOk v.start v.size c.lh → c.pinned = c.lh → (last = true ↔ c.ops.length = 1) →
      (∀ c', v.sees = some c' → c' = c) → Q () { v with
        op := v.op - 1
        sees := if solo then
          some (if last = true then { c with ops := c.ops.erase t }.commit v.start
            else { c with ops := c.ops.erase t })
          else none }) :
    wp bufMachine (bufOutline solo crashable) t (endOp v.start) Q v := by
  refine wp_bind (endOpStep_wp op clean fun last c ok pinned lastIff sees => ?_)
  have post := h last c ok pinned lastIff sees
  cases last with
  | true =>
    refine wp_bind (commit_wp (v := { v with op := _, owner := true, sees := _ })
      (c := { c with ops := c.ops.erase t }) rfl (by simp) mode ok pinned (safe c ok pinned sees) ?_)
    obtain ⟨unpinned, empty⟩ := Seen.commit_empty { c with ops := c.ops.erase t } v.start pinned
    refine endCommit_wp (c := Seen.commit { c with ops := c.ops.erase t } v.start) mode rfl clean
      BufView.see_sees unpinned empty ?_
    convert post using 1
    simp [BufView.see, idle]
  | false =>
    convert post using 1
    simp [idle]

end Commit

end Xv6
