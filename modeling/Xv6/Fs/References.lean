import Xv6.Fs.Calls
import Xv6.Lib.Shares

/-! The references that processes have to entries of the inode table: to their directory and their open files,
and in the variables of their calls. -/

namespace Xv6.Fs
open Threads Function

/-- How often a process refers to an entry as its directory and by its descriptors. -/
def keeps (cwd : Option Slot) (ofile : Nat → Option Slot) (b : Slot) : Nat :=
  (if cwd = some b then 1 else 0) + ∑ fd : Fin NOFILE, if ofile fd = some b then 1 else 0

/-- The references that a process has taken and not dropped, its directory and its descriptors. -/
structure Hands where
  mine : Slot → Nat
  cwd : Option Slot
  ofile : Nat → Option Slot

def FsState.hands (t : Pid) (s : FsState) : Hands where
  mine b := (s.users b).count t
  cwd := s.cwd t
  ofile := s.ofile t

/-- The references that are only in variables. -/
def Hands.walk (v : Hands) : Nat := ∑ b, (v.mine b - keeps v.cwd v.ofile b)

/-- The reference counts are right, and no call has more than three references in its variables. -/
structure Counted (s : FsState) : Prop where
  refs (b) : (s.inode b).ref = (s.users b).length
  few (t) : (s.hands t).walk ≤ 3

/-- A process with this directory and these files has the references in `hs` besides, and has dropped those in
`lent`. -/
structure Has (C : Option Slot) (F : Nat → Option Slot) (hs lent : List Slot) (v : Hands) : Prop where
  cwd : v.cwd = C
  ofile : v.ofile = F
  mine (b) : v.mine b + lent.count b = keeps C F b + hs.count b
  few : hs.length ≤ 3

def handsOutline : Outline Pid FsState Hands FsAct where
  inv := Counted
  view := FsState.hands
  guar t before after := ∀ other, other ≠ t → after.hands other = before.hands other
  allowed _ _ _ := True
  owes _ _ _ := True
  mayPanic _ _ _ _ := True

theorem handsOutline_isolated : handsOutline.Isolated := fun _ _ _ same => same

/-- The steps that leave all references alone. -/
def FsAct.calm : FsAct → Bool
  | .iget _ | .idup _ | .iput _ | .unref _ | .dirlookup .. | .cwd | .setCwd _ | .ofile _ | .setOfile ..
  | .fdalloc _ => false
  | _ => true

/-- As far as references go, nothing has changed. -/
structure Calm (s s' : FsState) : Prop where
  ref (b) : (s'.inode b).ref = (s.inode b).ref
  users : s'.users = s.users
  cwd : s'.cwd = s.cwd
  ofile : s'.ofile = s.ofile

section References

variable {s s' : FsState} {t : Pid} {v : Hands} {ip b c : Slot} {C : Option Slot} {F : Nat → Option Slot}
  {hs lent : List Slot}
  {α : Type}

theorem keeps_closed (closed : ∀ fd, F fd = none) : keeps C F b = if C = some b then 1 else 0 := by
  have none : (∑ fd : Fin NOFILE, if F fd = some b then 1 else 0) = 0 :=
    Finset.sum_eq_zero fun fd _ => if_neg (by rw [closed]; nofun)
  rw [keeps, none, Nat.add_zero]

theorem Has.swap (has : Has C F (b :: c :: hs) lent v) : Has C F (c :: b :: hs) lent v := by
  have perm : (b :: c :: hs).Perm (c :: b :: hs) := List.Perm.swap c b hs
  exact { has with mine := fun d => by rw [has.mine, perm.count_eq], few := perm.length_eq ▸ has.few }

theorem Has.walk_le (has : Has C F hs lent v) : v.walk ≤ 3 := by
  have each (b : Slot) : v.mine b - keeps v.cwd v.ofile b ≤ hs.count b := by
    have mine := has.mine b
    rw [has.cwd, has.ofile]
    omega
  have all := Shares.sum_count hs
  have few := has.few
  have sum : v.walk ≤ ∑ b, hs.count b := Finset.sum_le_sum fun b _ => each b
  omega

/-- After a step that leaves the other processes alone, with the reference counts right. -/
theorem after_step {a : FsAct} {Q : a.Resp → Hands → Prop} {r : a.Resp} (inv : Counted s)
    (refs : ∀ b, (s'.inode b).ref = (s'.users b).length) (others : ∀ u, u ≠ t → s'.hands u = s.hands u)
    (few : (s'.hands t).walk ≤ 3) (post : Q r (s'.hands t)) : handsOutline.After t a s Q (.ok r s') := by
  refine ⟨⟨refs, fun u => ?_⟩, others, post⟩
  by_cases self : u = t
  · rw [self]
    exact few
  · rw [others u self]
    exact inv.few u

theorem Calm.hands (calm : Calm s s') (u : Pid) : s'.hands u = s.hands u := by
  unfold FsState.hands
  rw [calm.users, calm.cwd, calm.ofile]

theorem calm_put (new : MemInode) (same : new.ref = (s.inode ip).ref) :
    Calm s (s.put ip new (s.users ip)) := by
  refine ⟨fun b => ?_, update_eq_self ip _, rfl, rfl⟩
  show (update s.inode ip new b).ref = _
  by_cases here : b = ip
  · rw [here, update_self, same]
  · rw [update_of_ne here]

theorem calm_setDisk (inum : Nat) (new : Dinode) : Calm s (s.setDisk inum new) :=
  ⟨fun _ => rfl, rfl, rfl, rfl⟩

theorem Calm.refl (s : FsState) : Calm s s := ⟨fun _ => rfl, rfl, rfl, rfl⟩

theorem calm_step {a : FsAct} {room : Bool} {r : a.Resp} (calm : a.calm = true)
    (run : fsMachine t room a s = .ok r s') : Calm s s' := by
  cases a <;> simp only [fsMachine] at run <;> cases calm
  case claim inum type =>
    split at run <;> cases run
    · exact calm_setDisk ..
    · exact .refl s
  case acquiresleep ip =>
    split at run
    · cases run
    · split at run <;> cases run
      exact calm_put _ rfl
  case load ip =>
    split at run
    · cases run
      exact .refl s
    · split at run <;> cases run
      exact calm_put _ rfl
  case releasesleep ip =>
    split at run <;> cases run
    exact calm_put _ rfl
  case free ip =>
    cases run
    have same : Calm s (s.put ip { s.inode ip with
        attr := { (s.inode ip).attr with type := .free }, valid := false, locked := none }
      (s.users ip)) := calm_put _ rfl
    exact ⟨same.ref, same.users, same.cwd, same.ofile⟩
  case checkLinked ip =>
    split at run <;> cases run
    exact .refl s
  case writeDirent dp name inum =>
    split at run
    · cases run
      exact .refl s
    · split at run <;> cases run <;> exact calm_setDisk ..
  case initInode | incNlink | decNlink | clearNlink =>
    cases run
    exact calm_put _ rfl
  case clearDirent | itrunc | iupdate =>
    cases run
    exact calm_setDisk ..
  all_goals
    cases run
    exact .refl s

theorem calm_wp {a : FsAct} {Q : a.Resp → Hands → Prop} (calm : a.calm = true) (post : ∀ r, Q r v) :
    wp fsMachine handsOutline t a.run Q v := by
  refine wp_step fun s room inv view => ⟨trivial, fun _ => ?_⟩
  obtain rfl : s.hands t = v := view
  cases run : fsMachine t room a s with
  | ok r s' =>
    have same := calm_step calm run
    refine after_step inv (fun b => ?_) (fun u _ => same.hands u) ?_ ?_
    · rw [same.ref, same.users, inv.refs]
    · rw [same.hands]
      exact inv.few t
    · rw [same.hands]
      exact post r
  | blocked => trivial
  | panic message => trivial

/-- The references that a process has after a step that stores one entry and its users. -/
theorem put_hands (new : MemInode) (users : List Pid) (u : Pid)
    (same : users.count u = (s.users ip).count u) :
    (s.put ip new users).hands u = s.hands u := by
  have mine : (fun b => (update s.users ip users b).count u) = fun b => (s.users b).count u := by
    funext b
    by_cases here : b = ip
    · rw [here, update_self, same]
    · rw [update_of_ne here]
  show (⟨fun b => (update s.users ip users b).count u, s.cwd u, s.ofile u⟩ : Hands) = _
  rw [mine]
  rfl

theorem put_refs (inv : Counted s) (new : MemInode) (users : List Pid)
    (same : new.ref = users.length) (b : Slot) :
    ((s.put ip new users).inode b).ref = ((s.put ip new users).users b).length := by
  show (update s.inode ip new b).ref = (update s.users ip users b).length
  by_cases here : b = ip
  · rw [here, update_self, update_self, same]
  · rw [update_of_ne here, update_of_ne here, inv.refs]

/-- A reference is taken. -/
theorem after_take {a : FsAct} {Q : a.Resp → Hands → Prop} {r : a.Resp} (inv : Counted s)
    (has : Has C F hs lent (s.hands t))
    (few : hs.length < 3) (new : MemInode) (ref : new.ref = (s.users ip).length + 1)
    (post : ∀ v', Has C F (ip :: hs) lent v' → Q r v') :
    handsOutline.After t a s Q (.ok r (s.put ip new (t :: s.users ip))) := by
  have taken : Has C F (ip :: hs) lent ((s.put ip new (t :: s.users ip)).hands t) := by
    refine ⟨has.cwd, has.ofile, fun b => ?_, few⟩
    have mine := has.mine b
    show (update s.users ip (t :: s.users ip) b).count t + _ = _
    by_cases here : b = ip
    · rw [here] at mine ⊢
      rw [update_self, List.count_cons_self, List.count_cons_self]
      change (s.users ip).count t + _ = _ at mine
      omega
    · rw [update_of_ne here, List.count_cons_of_ne (Ne.symm here)]
      exact mine
  refine after_step inv (put_refs inv _ _ ref) (fun u other => put_hands _ _ u ?_)
    taken.walk_le (post _ taken)
  rw [List.count_cons_of_ne other.symm]

/-- A reference is dropped. -/
theorem after_drop {a : FsAct} {Q : a.Resp → Hands → Prop} {r : a.Resp} (inv : Counted s)
    (has : Has C F (ip :: hs) lent (s.hands t))
    (some : 0 < (s.hands t).mine ip) (post : ∀ v', Has C F hs lent v' → Q r v') :
    handsOutline.After t a s Q (.ok r (s.drop t ip)) := by
  have member : t ∈ s.users ip := List.count_pos_iff.mp some
  have dropped : Has C F hs lent ((s.drop t ip).hands t) := by
    refine ⟨has.cwd, has.ofile, fun b => ?_, Nat.le_of_succ_le has.few⟩
    have mine := has.mine b
    show (update s.users ip ((s.users ip).erase t) b).count t + _ = _
    by_cases here : b = ip
    · rw [here] at mine ⊢
      rw [List.count_cons_self] at mine
      rw [update_self, List.count_erase_self]
      change 0 < (s.users ip).count t at some
      change (s.users ip).count t + _ = _ at mine
      omega
    · rw [List.count_cons_of_ne (Ne.symm here)] at mine
      rw [update_of_ne here]
      exact mine
  refine after_step inv (put_refs inv _ _ ?_) (fun u other => put_hands _ _ u ?_)
    dropped.walk_le (post _ dropped)
  · dsimp only
    rw [inv.refs, List.length_erase_of_mem member]
  · rw [List.count_erase_of_ne other]

theorem empty_users (inv : Counted s) (empty : s.empty = some ip) : s.users ip = [] := by
  unfold FsState.empty at empty
  have free := List.find?_some empty
  rw [beq_iff_eq, inv.refs] at free
  exact List.eq_nil_of_length_eq_zero free

theorem after_iget {a : FsAct} {Q : a.Resp → Hands → Prop} {i : Nat} (f : Slot → a.Resp) (inv : Counted s)
    (has : Has C F hs lent (s.hands t)) (few : hs.length < 3)
    (post : ∀ b v', Has C F (b :: hs) lent v' → Q (f b) v') :
    handsOutline.After t a s Q (match s.iget t i with
      | .ok ip s' => .ok (f ip) s'
      | .blocked => .blocked
      | .panic message => .panic message) := by
  unfold FsState.iget
  cases s.lookup i with
  | some ip => exact after_take inv has few _ (by rw [← inv.refs]) (post ip)
  | none =>
    cases empty : s.empty with
    | some ip => exact after_take inv has few _ (by rw [empty_users inv empty]; rfl) (post ip)
    | none => trivial

theorem iget_wp {Q : Slot → Hands → Prop} {i : Nat} (has : Has C F hs lent v) (few : hs.length < 3)
    (post : ∀ b v', Has C F (b :: hs) lent v' → Q b v') :
    wp fsMachine handsOutline t (FsAct.iget i).run Q v := by
  refine wp_step fun s room inv view => ⟨trivial, fun _ => ?_⟩
  obtain rfl : s.hands t = v := view
  have after := after_iget (a := .iget i) (i := i) id inv has few post
  show handsOutline.After t _ s _ (s.iget t i)
  cases run : s.iget t i <;> rw [run] at after <;> exact after

theorem dirlookup_wp {Q : Option (Nat × Slot) → Hands → Prop} {dp : Slot} {name : Name}
    (has : Has C F hs lent v) (few : hs.length < 3)
    (missing : Q none v) (post : ∀ off b v', Has C F (b :: hs) lent v' → Q (some (off, b)) v') :
    wp fsMachine handsOutline t (FsAct.dirlookup dp name).run Q v := by
  refine wp_step fun s room inv view => ⟨trivial, fun _ => ?_⟩
  obtain rfl : s.hands t = v := view
  simp only [fsMachine]
  split
  · trivial
  · split
    · exact after_step inv inv.refs (fun _ _ => rfl) (inv.few t) missing
    · next off inum _ => exact after_iget (a := .dirlookup dp name) (fun b => some (off, b)) inv has few (post off)

theorem idup_wp {Q : Unit → Hands → Prop} (has : Has C F hs lent v) (few : hs.length < 3)
    (post : ∀ v', Has C F (ip :: hs) lent v' → Q () v') :
    wp fsMachine handsOutline t (FsAct.idup ip).run Q v := by
  refine wp_step fun s room inv view => ⟨trivial, fun _ => ?_⟩
  obtain rfl : s.hands t = v := view
  exact after_take inv has few _ (by rw [← inv.refs]) post

theorem iput_wp {Q : Unit → Hands → Prop} (has : Has C F (ip :: hs) lent v) (some : 0 < v.mine ip)
    (post : ∀ v', Has C F hs lent v' → Q () v') : wp fsMachine handsOutline t (iput ip) Q v := by
  refine wp_bind (wp_step fun s room inv view => ⟨trivial, fun _ => ?_⟩)
  obtain rfl : s.hands t = v := view
  show handsOutline.After t _ s _ (s.iput t ip)
  unfold FsState.iput
  split
  · split
    · trivial
    · -- the last reference is dropped after the inode has been freed
      have same : Calm s (s.lock ip (Option.some t)) := calm_put _ rfl
      refine after_step inv (fun b => ?_) (fun u _ => same.hands u) ?_ ?_
      · rw [same.ref, same.users, inv.refs]
      · rw [same.hands]
        exact inv.few t
      · rw [same.hands]
        refine wp_bind (calm_wp rfl fun _ => wp_step fun s' room' inv' view' => ⟨trivial, fun _ => ?_⟩)
        have view' : s'.hands t = s.hands t := view'
        rw [← view'] at has some
        exact after_drop inv' has some post
  · exact after_drop inv has some post

/-- A reference in a variable is dropped. -/
theorem putVariable_wp {Q : Unit → Hands → Prop} (has : Has C F (ip :: hs) [] v)
    (post : ∀ v', Has C F hs [] v' → Q () v') :
    wp fsMachine handsOutline t (iput ip) Q v := by
  refine iput_wp has ?_ post
  have mine := has.mine ip
  rw [List.count_cons_self, List.count_nil] at mine
  omega

/-- The reference of a directory or an open file is dropped. -/
theorem putKept_wp {Q : Unit → Hands → Prop} (has : Has C F hs [] v) (few : hs.length < 3)
    (kept : 0 < keeps C F ip)
    (post : ∀ v', Has C F hs [ip] v' → Q () v') : wp fsMachine handsOutline t (iput ip) Q v := by
  have mine := has.mine
  have carried : Has C F (ip :: hs) [ip] v := by
    refine ⟨has.cwd, has.ofile, fun b => ?_, few⟩
    have here := mine b
    rw [List.count_nil] at here
    by_cases same : b = ip
    · rw [same] at here ⊢
      rw [List.count_singleton_self, List.count_cons_self]
      omega
    · rw [List.count_cons_of_ne (Ne.symm same), List.count_cons_of_ne (Ne.symm same), List.count_nil]
      exact here
  refine iput_wp carried ?_ post
  have here := mine ip
  rw [List.count_nil] at here
  omega

end References

end Xv6.Fs
