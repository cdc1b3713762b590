import Xv6.Log.Pins
import Xv6.Lib.Shares
import Mathlib.Data.Finset.Card
import Mathlib.Data.Finset.Option
import Mathlib.Data.Fintype.Card

/-! How many buffers processes hold: a reader holds one, a commit two, and everybody else holds them in an
operation. -/

namespace Xv6
open Threads Function

/-- `fileread` of a file, whose data blocks and indirect block `readi` reads in this order. -/
def fileread (blocks : List Nat) : BufProg Unit :=
  .forEach (fun blockno => do
    let bp ← bread blockno
    let _ ← (BufAct.data bp).run
    brelse bp) blocks

/-- A process reads a file, or takes a step of an operation on the file system. -/
inductive FileCall where
  | fileread (blocks : List Nat)
  | op (k : CacheCall)

/-- An operation runs from `begin_op` to `end_op`, and has given its buffers back by then. -/
def CacheCall.Inside (t : Pid) (s : LogState) : CacheCall → Prop
  | .beginOp => True
  | .endOp => t ∈ s.ops ∧ ∀ b, t ∉ s.users b
  | _ => t ∈ s.ops

instance (t : Pid) (s : LogState) : (k : CacheCall) → Decidable (k.Inside t s)
  | .beginOp => inferInstanceAs (Decidable True)
  | .endOp => inferInstanceAs (Decidable (_ ∧ _))
  | .bread _ | .brelse _ | .modify .. | .logWrite _ => inferInstanceAs (Decidable (t ∈ s.ops))

def FileCall.Legal (t : Pid) (s : LogState) : FileCall → Prop
  | .fileread _ => t < NPROC
  | .op k => t < NPROC ∧ k.Legal t s ∧ k.Inside t s

instance (t : Pid) (s : LogState) : (k : FileCall) → Decidable (k.Legal t s)
  | .fileread _ => inferInstanceAs (Decidable (t < NPROC))
  | .op _ => inferInstanceAs (Decidable (_ ∧ _))

def fileCalls (start : Nat) : Calls Pid LogState FileCall BufAct BufAct.Resp where
  code
    | .fileread blocks => Xv6.fileread blocks
    | .op k => (cacheCalls start).code k
  legal := FileCall.Legal

instance (start : Nat) (t : Pid) (s : LogState) (k : FileCall) :
    Decidable ((fileCalls start).legal t s k) := inferInstanceAs (Decidable (k.Legal t s))

/-- The runs of the system, in which processes also read files. -/
abbrev FileReach (start size : Nat) (t : Pid) (disk : Nat → Block) :
    Config Pid LogState BufAct BufAct.Resp → Prop :=
  Reach bufMachine Scheduled (fileCalls start) (cacheStart start size t disk)

/-- What a process holds: references to buffers, the operations that it has begun, and the commit. -/
structure Grip where
  mine : BufId → Nat
  op : Nat
  owner : Bool

def LogState.grip (t : Pid) (s : LogState) : Grip where
  mine b := (s.users b).count t
  op := s.ops.count t
  owner := s.owner = some t

/-- How many buffers a process may hold outside of operations. -/
def Grip.limit (g : Grip) : Nat := if g.owner then 2 else 1

def Grip.Bounded (g : Grip) : Prop := g.op = 0 → ∑ b, g.mine b ≤ g.limit

def Grip.take (g : Grip) (b : BufId) : Grip := { g with mine := update g.mine b (g.mine b + 1) }

def Grip.drop (g : Grip) (b : BufId) : Grip := { g with mine := update g.mine b (g.mine b - 1) }

/-- Between calls a process holds buffers in an operation only. -/
structure Loose (g : Grip) : Prop where
  owner : g.owner = false
  empty : g.op = 0 → ∀ b, g.mine b = 0

def gripOutline : Outline Pid LogState Grip BufAct where
  inv s := ∀ t, (s.grip t).Bounded
  view := LogState.grip
  guar t before after := ∀ other, other ≠ t → after.grip other = before.grip other
  allowed _ _ s := BufInv s
  owes _ _ _ := True
  mayPanic _ _ _ _ := True

theorem gripOutline_isolated : gripOutline.Isolated := fun _ _ _ same => same

/-- The steps that change no references, and neither begin nor end anything. -/
def BufAct.steady : BufAct → Bool
  | .bget .. | .unref _ | .beginOp | .endOp | .endCommit | .ready => false
  | _ => true

section Grips

variable {s s' : LogState} {t : Pid} {g : Grip} {a b : BufId} {start size : Nat} {disk : Nat → Block}

theorem Grip.take_drop (g : Grip) (b : BufId) : (g.take b).drop b = g := by
  unfold Grip.take Grip.drop
  dsimp only
  rw [update_self, update_idem, Nat.add_sub_cancel, update_eq_self]

/-- A reference is given back that was not the last one taken. -/
theorem Grip.take_take_drop (g : Grip) (a b : BufId) : ((g.take a).take b).drop a = g.take b := by
  by_cases same : a = b
  · rw [same, Grip.take_drop]
  · unfold Grip.take Grip.drop
    dsimp only
    rw [update_of_ne same, update_self, update_of_ne (Ne.symm same), Nat.add_sub_cancel,
      update_comm (Ne.symm same),
      update_idem, update_eq_self]

theorem Grip.sum_take (g : Grip) (b : BufId) : ∑ c, (g.take b).mine c = ∑ c, g.mine c + 1 := by
  have change := Shares.change (c := id) (g := g.mine) (h := (g.take b).mine) (i := b) fun c other =>
    update_of_ne other ..
  simp only [Grip.take, id_eq, update_self] at change ⊢
  omega

theorem Grip.sum_drop_le (g : Grip) (b : BufId) : ∑ c, (g.drop b).mine c ≤ ∑ c, g.mine c := by
  refine Finset.sum_le_sum fun c _ => ?_
  show update g.mine b (g.mine b - 1) c ≤ _
  by_cases here : c = b
  · rw [here, update_self]
    exact Nat.sub_le ..
  · rw [update_of_ne here]

theorem Grip.sum_zero (none : ∀ b, g.mine b = 0) : ∑ b, g.mine b = 0 := Finset.sum_eq_zero fun b _ => none b

/-- After a step that leaves the other processes alone. -/
theorem after_grip {a : BufAct} {Q : a.Resp → Grip → Prop} {r : a.Resp} (inv : ∀ u, (s.grip u).Bounded)
    (others : ∀ u, u ≠ t → s'.grip u = s.grip u) (bounded : (s'.grip t).Bounded) (post : Q r (s'.grip t)) :
    gripOutline.After t a s Q (.ok r s') := by
  refine ⟨fun u => ?_, others, post⟩
  by_cases self : u = t
  · rw [self]
    exact bounded
  · rw [others u self]
    exact inv u

/-- What a process holds depends on these fields only. -/
theorem grip_eq (u : Pid) (users : ∀ b, (s'.users b).count u = (s.users b).count u)
    (ops : s'.ops.count u = s.ops.count u)
    (owner : s'.owner = some u ↔ s.owner = some u) : s'.grip u = s.grip u := by
  unfold LogState.grip
  simp only [users, ops, owner]

theorem steady_step {a : BufAct} {r : a.Resp} (steady : a.steady = true)
    (run : bufMachine t () a s = .ok r s') :
    s'.users = s.users ∧ s'.ops = s.ops ∧ s'.owner = s.owner := by
  have put (b : BufId) : update s.users b (s.users b) = s.users := update_eq_self b _
  cases a <;> simp only [bufMachine] at run <;> cases steady
  case fill b =>
    cases run
    unfold LogState.fill
    split
    · exact ⟨rfl, rfl, rfl⟩
    · exact ⟨put _, rfl, rfl⟩
  case acquiresleep b | bwrite b | releasesleep b =>
    split at run <;> cases run
    exact ⟨put b, rfl, rfl⟩
  case logWrite b =>
    split at run <;> cases run
    exact ⟨put _, rfl, rfl⟩
  case data | lh | setLh =>
    cases run
    exact ⟨rfl, rfl, rfl⟩
  all_goals
    cases run
    exact ⟨put _, rfl, rfl⟩

theorem steady_grip {a : BufAct} {Q : a.Resp → Grip → Prop} (steady : a.steady = true) (post : ∀ r, Q r g) :
    wp bufMachine gripOutline t a.run Q g := by
  refine wp_step fun s _ inv view => ⟨trivial, fun _ => ?_⟩
  obtain rfl : s.grip t = g := view
  cases run : bufMachine t () a s with
  | ok r s' =>
    obtain ⟨users, ops, owner⟩ := steady_step steady run
    have same (u : Pid) : s'.grip u = s.grip u :=
      grip_eq u (fun b => by rw [users]) (by rw [ops]) (by rw [owner])
    refine after_grip inv (fun u _ => same u) ?_ ?_
    · rw [same]
      exact inv t
    · rw [same]
      exact post r
  | blocked => trivial
  | panic message => trivial

/-- A step that stores a buffer and who refers to it, as its process sees it. -/
theorem grip_put (new : Buf) (users : List Pid) (dirty : Bool) :
    (s.put b new users dirty).grip t = { s.grip t with mine := update (s.grip t).mine b (users.count t) } := by
  have mine (c : BufId) : (update s.users b users c).count t = update (fun c => (s.users c).count t) b
    (users.count t) c := by
    by_cases here : c = b
    · rw [here, update_self, update_self]
    · rw [update_of_ne here, update_of_ne here]
  exact congrArg (fun mine => { s.grip t with mine }) (funext mine)

theorem bget_grip {Q : BufId → Grip → Prop} {dev n : Nat} (few : g.op = 0 → ∑ b, g.mine b < g.limit)
    (post : ∀ b, Q b (g.take b)) :
    wp bufMachine gripOutline t (BufAct.bget dev n).run Q g := by
  refine wp_step fun s _ inv view => ⟨trivial, fun _ => ?_⟩
  obtain rfl : s.grip t = g := view
  have taken (b : BufId) (new : Buf) :
    gripOutline.After t (.bget dev n) s Q (.ok b (s.put b new (t :: s.users b) (s.dirty b))) := by
    have same : (s.put b new (t :: s.users b) (s.dirty b)).grip t = (s.grip t).take b := by
      rw [grip_put, List.count_cons_self]
      rfl
    refine after_grip inv (fun u other => ?_) ?_ ?_
    · rw [grip_put, List.count_cons_of_ne other.symm]
      exact congrArg (fun mine => { s.grip u with mine }) (update_eq_self b _)
    · rw [same]
      intro none
      rw [Grip.sum_take]
      exact few none
    · rw [same]
      exact post b
  show gripOutline.After t _ s _ (s.bget t dev n)
  unfold LogState.bget
  cases s.lookup dev n with
  | some b => exact taken b _
  | none =>
    cases s.lru with
    | some b => exact taken b _
    | none => trivial

theorem unref_grip {Q : Unit → Grip → Prop} (post : Q () (g.drop b)) :
    wp bufMachine gripOutline t (BufAct.unref b).run Q g := by
  refine wp_step fun s _ inv view => ⟨trivial, fun _ => ?_⟩
  obtain rfl : s.grip t = g := view
  have dropped (u : Pid) : (s.unref t b).grip u =
      (s.put b { s.buf b with refcnt := (s.buf b).refcnt - 1 } ((s.users b).erase t) (s.dirty b)).grip u :=
        rfl
  have same : (s.unref t b).grip t = (s.grip t).drop b := by
    rw [dropped, grip_put, List.count_erase_self]
    rfl
  refine after_grip inv (fun u other => ?_) ?_ ?_
  · rw [dropped, grip_put, List.count_erase_of_ne other]
    exact congrArg (fun mine => { s.grip u with mine }) (update_eq_self b _)
  · rw [same]
    exact fun none => (Grip.sum_drop_le _ b).trans (inv t none)
  · rw [same]
    exact post

theorem bread_grip {Q : BufId → Grip → Prop} {n : Nat} (few : g.op = 0 → ∑ b, g.mine b < g.limit)
    (post : ∀ b, Q b (g.take b)) :
    wp bufMachine gripOutline t (bread n) Q g :=
  wp_bind (bget_grip few fun b => wp_bind (steady_grip rfl fun _ =>
    wp_bind (steady_grip rfl fun _ => post b)))

theorem brelse_grip {Q : Unit → Grip → Prop} (post : Q () (g.drop b)) :
    wp bufMachine gripOutline t (brelse b) Q g :=
  wp_bind (steady_grip rfl fun _ => unref_grip post)

theorem beginOp_grip (rest : Loose g) : wp bufMachine gripOutline t BufAct.beginOp.run (fun _ => Loose) g := by
  refine wp_step fun s _ inv view => ⟨trivial, fun _ => ?_⟩
  obtain rfl : s.grip t = g := view
  simp only [bufMachine]
  split
  · refine after_grip inv (fun u other => grip_eq u (fun _ => rfl)
      (List.count_cons_of_ne other.symm) Iff.rfl) ?_ ?_
    · exact fun none => absurd (List.count_cons_self.symm.trans none) (Nat.succ_ne_zero _)
    · exact ⟨rest.owner, fun none => absurd (List.count_cons_self.symm.trans none) (Nat.succ_ne_zero _)⟩
  · trivial

/-- A process between two transactions of the log, that is about to commit or done with it. -/
structure Committing (g : Grip) : Prop where
  owner : g.owner = true
  empty : ∀ b, g.mine b = 0

theorem endOpStep_grip {Q : Bool → Grip → Prop} (inside : 0 < g.op)
    (empty : ∀ b, g.mine b = 0) (rest : Loose g)
    (last : ∀ v, Committing v → Q true v) (more : ∀ v, Loose v → Q false v) :
    wp bufMachine gripOutline t BufAct.endOp.run Q g := by
  refine wp_step fun s _ inv view => ⟨trivial, fun outline => ?_⟩
  obtain rfl : s.grip t = g := view
  have member : t ∈ s.ops := List.count_pos_iff.mp inside
  have idle : s.owner = none := (outline.1.noOwner member).1
  simp only [bufMachine]
  split
  · next log ended _ =>
    have none (b : BufId) : (s.users b).count t = 0 := empty b
    refine after_grip inv (fun u other => grip_eq u (fun _ => rfl) (List.count_erase_of_ne other) ?_) ?_ ?_
    · cases ended
      · exact Iff.rfl
      · rw [idle]
        exact ⟨fun same => absurd (Option.some.inj same).symm other, fun same => absurd same.symm
          (Option.some_ne_none u)⟩
    · exact fun _ => (Grip.sum_zero none).trans_le (Nat.zero_le _)
    · cases ended
      · exact more _ ⟨rest.owner, fun _ => none⟩
      · exact last _ ⟨decide_eq_true rfl, none⟩
  · trivial

/-- The end of a commit, and that of `initlog`. -/
theorem release_grip {a : BufAct} {Q : a.Resp → Grip → Prop} (committing : Committing g)
    (ends : ∀ s c, ∃ r s', bufMachine t c a s = .ok r s' ∧ s'.users = s.users ∧
      s'.ops = s.ops ∧ s'.owner = none)
    (post : ∀ r v, Loose v → Q r v) : wp bufMachine gripOutline t a.run Q g := by
  refine wp_step fun s c inv view => ⟨trivial, fun _ => ?_⟩
  obtain rfl : s.grip t = g := view
  obtain ⟨r, s', run, users, ops, owner⟩ := ends s c
  have mine : s.owner = some t := of_decide_eq_true committing.owner
  have none (b : BufId) : (s'.users b).count t = 0 := by
    rw [users]
    exact committing.empty b
  rw [run]
  refine after_grip inv (fun u other => grip_eq u (fun b => by rw [users]) (by rw [ops]) ?_) ?_ ?_
  · rw [owner, mine]
    exact ⟨fun same => absurd same.symm (Option.some_ne_none u), fun same =>
      absurd (Option.some.inj same).symm other⟩
  · exact fun _ => (Grip.sum_zero none).trans_le (Nat.zero_le _)
  · refine post r _ ⟨?_, fun _ => none⟩
    show decide (s'.owner = some t) = false
    rw [owner]
    rfl

theorem Committing.first (committing : Committing g) : g.op = 0 → ∑ b, g.mine b < g.limit := fun _ => by
  rw [Grip.sum_zero committing.empty, Grip.limit, if_pos committing.owner]
  decide

theorem Committing.second (committing : Committing g) (a : BufId) : (g.take a).op = 0 →
    ∑ b, (g.take a).mine b < (g.take a).limit :=
  fun _ => by
  rw [Grip.sum_take, Grip.sum_zero committing.empty, Grip.limit,
    if_pos (show (g.take a).owner = true from committing.owner)]
  decide

theorem writeLog_grip (committing : Committing g) :
    wp bufMachine gripOutline t (writeLog start) (fun _ => Committing) g := by
  refine wp_bind (steady_grip rfl fun lh => ?_)
  refine wp_forEach (J := fun _ => Committing) (fun tail _ v now => ?_) committing
  refine wp_bind (bread_grip now.first fun dst => wp_bind (steady_grip rfl fun lh => ?_))
  refine wp_bind (bread_grip (now.second dst) fun src => wp_bind (steady_grip rfl fun data => ?_))
  refine wp_bind (steady_grip rfl fun _ => wp_bind (steady_grip rfl fun _ => wp_bind (brelse_grip ?_)))
  refine brelse_grip ?_
  rw [Grip.take_drop, Grip.take_drop]
  exact now

theorem installTrans_grip (recovering : Bool) (committing : Committing g) :
    wp bufMachine gripOutline t (installTrans start recovering) (fun _ => Committing) g := by
  refine wp_bind (steady_grip rfl fun lh => ?_)
  refine wp_forEach (J := fun _ => Committing) (fun tail _ v now => ?_) committing
  refine wp_bind (bread_grip now.first fun lbuf => wp_bind (steady_grip rfl fun lh => ?_))
  refine wp_bind (bread_grip (now.second lbuf) fun dbuf => wp_bind (steady_grip rfl fun data => ?_))
  have released : wp bufMachine gripOutline t (do brelse lbuf; brelse dbuf) (fun _ => Committing)
    ((v.take lbuf).take dbuf) := by
    refine wp_bind (brelse_grip (brelse_grip ?_))
    rw [Grip.take_take_drop, Grip.take_drop]
    exact now
  refine wp_bind (steady_grip rfl fun _ => wp_bind (steady_grip rfl fun _ => ?_))
  cases recovering
  · exact wp_bind (steady_grip rfl fun _ => released)
  · exact released

/-- One buffer is read, used and given back. -/
theorem head_grip {body : BufId → BufProg Unit} {n : Nat} (committing : Committing g)
    (use : ∀ buf, wp bufMachine gripOutline t (body buf) (fun _ v => v = g) (g.take buf)) :
    wp bufMachine gripOutline t (bread n >>= body) (fun _ => Committing) g :=
  wp_bind (bread_grip committing.first fun buf => wp_mono (Q := fun _ v => v = g)
    (fun _ _ same => same ▸ committing) (use buf))

theorem writeHead_grip (committing : Committing g) :
    wp bufMachine gripOutline t (writeHead start) (fun _ => Committing) g :=
  head_grip committing fun buf =>
    wp_bind (steady_grip rfl fun _ => wp_bind (steady_grip rfl fun _ => wp_bind (steady_grip rfl fun _ =>
      wp_bind (steady_grip rfl fun _ => brelse_grip (Grip.take_drop g buf)))))

theorem readHead_grip (committing : Committing g) :
    wp bufMachine gripOutline t (readHead start) (fun _ => Committing) g :=
  head_grip committing fun buf =>
    wp_bind (steady_grip rfl fun _ => wp_bind (steady_grip rfl fun _ => brelse_grip (Grip.take_drop g buf)))

theorem initlog_grip (committing : Committing g) :
    wp bufMachine gripOutline t (initlog start) (fun _ => Loose) g := by
  refine wp_seq (R := fun _ => Committing) ?_ fun _ v now =>
    release_grip now (fun s _ => ⟨(), _, rfl, rfl, rfl, rfl⟩) fun _ _ rest => rest
  refine wp_seq (readHead_grip committing) fun _ v now => ?_
  refine wp_seq (installTrans_grip true now) fun _ v now => ?_
  exact wp_bind (steady_grip rfl fun _ => writeHead_grip now)

theorem commit_grip (committing : Committing g) :
    wp bufMachine gripOutline t (commit start) (fun _ => Committing) g := by
  refine wp_bind (steady_grip rfl fun lh => ?_)
  split
  · refine wp_seq (writeLog_grip committing) fun _ v now => ?_
    refine wp_seq (writeHead_grip now) fun _ v now => ?_
    refine wp_seq (installTrans_grip false now) fun _ v now => ?_
    exact wp_bind (steady_grip rfl fun _ => writeHead_grip now)
  · exact committing

theorem endOp_grip (inside : 0 < g.op) (empty : ∀ b, g.mine b = 0) (rest : Loose g) :
    wp bufMachine gripOutline t (endOp start) (fun _ => Loose) g := by
  refine wp_bind (endOpStep_grip inside empty rest (fun v now => ?_) fun v rest => rest)
  refine wp_seq (commit_grip now) fun _ v now => ?_
  exact release_grip now (fun s _ => ⟨(), _, rfl, rfl, rfl, rfl⟩) fun _ _ rest => rest

theorem fileread_grip (blocks : List Nat) (rest : Loose g) :
    wp bufMachine gripOutline t (fileread blocks) (fun _ => Loose) g := by
  refine wp_mono (Q := fun _ v => v = g) (fun _ _ same => same ▸ rest) ?_
  refine wp_forEach (J := fun _ v => v = g) (fun blockno _ v same => ?_) rfl
  rw [same]
  have few : g.op = 0 → ∑ b, g.mine b < g.limit := fun none => by
    rw [Grip.sum_zero (rest.empty none), Grip.limit, if_neg (rest.owner ▸ Bool.false_ne_true)]
    exact Nat.one_pos
  exact wp_bind (bread_grip few fun bp => wp_bind (steady_grip rfl fun _ => brelse_grip
    (Grip.take_drop g bp)))

theorem fileCall_grip {k : FileCall} (rest : Loose (s.grip t)) (legal : k.Legal t s) :
    wp bufMachine gripOutline t ((fileCalls start).code k) (fun _ => Loose) (s.grip t) := by
  have inside (member : t ∈ s.ops) {v : Grip} (op : v.op = (s.grip t).op)
    (owner : v.owner = (s.grip t).owner) : Loose v :=
    ⟨owner.trans rest.owner, fun none => absurd (op.symm.trans none) (List.count_pos_iff.mpr member).ne'⟩
  have busy (member : t ∈ s.ops) : (s.grip t).op ≠ 0 := (List.count_pos_iff.mpr member).ne'
  cases k with
  | fileread blocks => exact fileread_grip blocks rest
  | op k =>
    cases k with
    | bread n => exact wp_bind (bread_grip (fun none => absurd none (busy legal.2.2)) fun b =>
        inside legal.2.2 rfl rfl)
    | brelse b => exact brelse_grip (inside legal.2.2 rfl rfl)
    | modify b data => exact steady_grip rfl fun _ => rest
    | logWrite b => exact steady_grip rfl fun _ => rest
    | beginOp => exact beginOp_grip rest
    | endOp =>
      obtain ⟨member, empty⟩ := legal.2.2
      exact endOp_grip (List.count_pos_iff.mpr member) (fun b => List.count_eq_zero.mpr (empty b)) rest

end Grips

end Xv6
