import Xv6.Fs.References

/-! Every call gives back the references that it takes, but for its directory and its files. -/

namespace Xv6.Fs
open Threads Function

/-- A process that is in no call has its directory and its descriptors. -/
structure Idle (t : Pid) (v : Hands) : Prop where
  has : Has v.cwd v.ofile [] [] v
  limit (fd) : NOFILE ≤ fd → v.ofile fd = none
  outside : NPROC ≤ t → v.cwd = none ∧ ∀ fd, v.ofile fd = none

section Balance

variable {t : Pid} {v : Hands} {ip dp b : Slot} {C : Option Slot} {F : Nat → Option Slot} {hs : List Slot}

theorem ilock_wp {Q : Unit → Hands → Prop} (post : Q () v) : wp fsMachine handsOutline t (ilock ip) Q v :=
  wp_bind (calm_wp rfl fun _ => calm_wp rfl fun _ => post)

theorem iunlock_wp {Q : Unit → Hands → Prop} (post : Q () v) : wp fsMachine handsOutline t (iunlock ip) Q v :=
  calm_wp rfl fun _ => post

theorem iunlockput_wp {Q : Unit → Hands → Prop} (has : Has C F (ip :: hs) [] v)
    (post : ∀ v', Has C F hs [] v' → Q () v') :
    wp fsMachine handsOutline t (iunlockput ip) Q v := wp_bind (iunlock_wp (putVariable_wp has post))

theorem dirlink_wp {Q : Bool → Hands → Prop} {name : Name} {inum : Nat} (has : Has C F hs [] v)
    (few : hs.length < 3)
    (post : ∀ r v', Has C F hs [] v' → Q r v') : wp fsMachine handsOutline t (dirlink dp name inum) Q v := by
  refine wp_bind (dirlookup_wp has few (calm_wp rfl fun r => post r v has) fun off b v₁ has₁ => ?_)
  exact wp_bind (putVariable_wp has₁ fun v₂ has₂ => post false v₂ has₂)

theorem namexFrom_wp {Q : Option (Slot × Name) → Hands → Prop} (nameiparent : Bool) (names : List Name)
    (has : Has C F (ip :: hs) [] v) (few : hs.length < 2) (missing : ∀ v', Has C F hs [] v' → Q none v')
    (found : ∀ b name v', Has C F (b :: hs) [] v' → Q (some (b, name)) v') :
    wp fsMachine handsOutline t (namexFrom nameiparent ip names) Q v := by
  induction names generalizing ip v with
  | nil =>
    unfold namexFrom
    split
    · exact wp_bind (putVariable_wp has missing)
    · exact found ip [] v has
  | cons name rest ih =>
    unfold namexFrom
    refine wp_bind (ilock_wp (wp_bind (calm_wp rfl fun attr => ?_)))
    split
    · exact wp_bind (iunlockput_wp has missing)
    · split
      · exact wp_bind (iunlock_wp (found ip name v has))
      · refine wp_bind (dirlookup_wp has (Nat.succ_lt_succ few) (wp_bind (iunlockput_wp has missing))
          fun off next v₁ has₁ => ?_)
        exact wp_bind (iunlockput_wp has₁.swap fun v₂ has₂ => ih has₂)

theorem cwd_wp {Q : Slot → Hands → Prop} (post : ∀ b, v.cwd = some b → Q b v) :
    wp fsMachine handsOutline t FsAct.cwd.run Q v := by
  refine wp_step fun s room inv view => ⟨trivial, fun _ => ?_⟩
  obtain rfl : s.hands t = v := view
  simp only [fsMachine]
  split
  · next b here => exact after_step inv inv.refs (fun _ _ => rfl) (inv.few t) (post b here)
  · trivial

theorem namex_wp {Q : Option (Slot × Name) → Hands → Prop} {path : List Char} {nameiparent : Bool}
    (has : Has C F hs [] v)
    (few : hs.length < 2) (missing : ∀ v', Has C F hs [] v' → Q none v')
    (found : ∀ b name v', Has C F (b :: hs) [] v' → Q (some (b, name)) v') :
    wp fsMachine handsOutline t (namex path nameiparent) Q v := by
  have few' : hs.length < 3 := Nat.lt_succ_of_lt few
  have loop (ip : Slot) (v' : Hands) (has' : Has C F (ip :: hs) [] v') :
      wp fsMachine handsOutline t (namexFrom nameiparent ip (elements path.length path)) Q v' :=
    namexFrom_wp nameiparent _ has' few missing found
  unfold namex
  split
  · exact wp_bind (iget_wp has few' loop)
  · refine wp_bind (wp_bind (cwd_wp fun ip _ => wp_bind (idup_wp has few' fun v' has' => loop ip v' has')))

theorem iallocFrom_wp {Q : Option Slot → Hands → Prop} {type : FileType} (n inum : Nat)
    (has : Has C F hs [] v) (few : hs.length < 3)
    (full : Q none v) (found : ∀ b v', Has C F (b :: hs) [] v' → Q (some b) v') :
    wp fsMachine handsOutline t (iallocFrom type n inum) Q v := by
  induction n generalizing inum with
  | zero => exact full
  | succ n ih =>
    refine wp_bind (calm_wp rfl fun free => ?_)
    split
    · exact wp_bind (iget_wp has few found)
    · exact ih (inum + 1)

theorem ialloc_wp {Q : Option Slot → Hands → Prop} {type : FileType} (has : Has C F hs [] v)
    (few : hs.length < 3) (full : Q none v)
    (found : ∀ b v', Has C F (b :: hs) [] v' → Q (some b) v') :
    wp fsMachine handsOutline t (ialloc type) Q v :=
  wp_bind (calm_wp rfl fun _ => iallocFrom_wp _ _ has few full found)

/-- The names "." and ".." of a directory that is made, before the rest of `create`. -/
theorem dots_wp {α : Type} {Q : α → Hands → Prop} {type : FileType} {inum : Nat} {rest : Bool → FsProg α}
    (has : Has C F hs [] v)
    (few : hs.length < 3) (each : ∀ dots v', Has C F hs [] v' →
      wp fsMachine handsOutline t (rest dots) Q v') :
    wp fsMachine handsOutline t (if type = .dir then do
      if ← dirlink ip dot inum then rest (← dirlink ip dotdot (← (FsAct.inum dp).run)) else rest (← pure false)
      else do rest (← pure true)) Q v := by
  split
  · refine wp_bind (dirlink_wp has few fun r v₁ has₁ => ?_)
    split
    · exact wp_bind (calm_wp rfl fun up => wp_bind (dirlink_wp has₁ few each))
    · exact each false v₁ has₁
  · exact each true v has

theorem create_wp {Q : Option Slot → Hands → Prop} {path : List Char} {type : FileType} {major minor : Int}
    (has : Has C F [] [] v)
    (failed : ∀ v', Has C F [] [] v' → Q none v') (made : ∀ ip v', Has C F [ip] [] v' → Q (some ip) v') :
    wp fsMachine handsOutline t (create path type major minor) Q v := by
  refine wp_bind (namex_wp has (by decide) failed fun dp name v₁ has₁ => wp_bind (ilock_wp ?_))
  refine wp_bind (dirlookup_wp has₁ (by simp) ?_ fun off ip v₂ has₂ => ?_)
  · refine wp_bind (ialloc_wp has₁ (by simp) (wp_bind (iunlockput_wp has₁ failed)) fun ip v₂ has₂ => ?_)
    refine wp_bind (ilock_wp (wp_bind (calm_wp rfl fun _ => wp_bind (calm_wp rfl fun _ => ?_))))
    have fail (v' : Hands) (has' : Has C F [ip, dp] [] v') : wp fsMachine handsOutline t (do
        (FsAct.clearNlink ip).run
        (FsAct.iupdate ip).run
        iunlockput ip
        iunlockput dp
        return none) Q v' :=
      wp_bind (calm_wp rfl fun _ => wp_bind (calm_wp rfl fun _ => wp_bind (iunlockput_wp has' fun v₃ has₃ =>
        wp_bind (iunlockput_wp has₃ failed))))
    refine wp_bind (calm_wp rfl fun inum => dots_wp has₂ (by simp) fun dots v₃ has₃ => ?_)
    split
    · exact fail v₃ has₃
    · refine wp_bind (dirlink_wp has₃ (by simp) fun linked v₄ has₄ => ?_)
      split
      · exact fail v₄ has₄
      · have done : wp fsMachine handsOutline t (do
            iunlockput dp
            return some ip) Q v₄ := wp_bind (iunlockput_wp has₄.swap fun v₅ has₅ => made ip v₅ has₅)
        split
        · exact wp_bind (calm_wp rfl fun _ => wp_bind (calm_wp rfl fun _ => done))
        · exact done
  · refine wp_bind (iunlockput_wp has₂.swap fun v₃ has₃ =>
      wp_bind (ilock_wp (wp_bind (calm_wp rfl fun attr => ?_))))
    split
    · exact made ip v₃ has₃
    · exact wp_bind (iunlockput_wp has₃ failed)

theorem sysLink_wp {old new : Option (List Char)} {Q : Unit → Hands → Prop} (has : Has C F [] [] v)
    (post : ∀ v', Has C F [] [] v' → Q () v') : wp fsMachine handsOutline t (sysLink old new) Q v := by
  cases old with
  | none => exact post v has
  | some old =>
    cases new with
    | none => exact post v has
    | some new =>
      have stop (v' : Hands) (has' : Has C F [] [] v') : wp fsMachine handsOutline t FsAct.endOp.run Q v' :=
        calm_wp rfl fun _ => post v' has'
      refine wp_bind (calm_wp rfl fun _ => wp_bind (namex_wp has (by simp) stop fun ip _ v₁ has₁ => ?_))
      refine wp_bind (ilock_wp (wp_bind (calm_wp rfl fun attr => ?_)))
      split
      · exact wp_bind (iunlockput_wp has₁ stop)
      · refine wp_bind (calm_wp rfl fun inum => wp_bind (calm_wp rfl fun _ =>
          wp_bind (calm_wp rfl fun _ => wp_bind (iunlock_wp ?_))))
        have bad (v' : Hands) (has' : Has C F [ip] [] v') : wp fsMachine handsOutline t (do
            ilock ip
            (FsAct.decNlink ip).run
            (FsAct.iupdate ip).run
            iunlockput ip
            FsAct.endOp.run) Q v' :=
          wp_bind (ilock_wp (wp_bind (calm_wp rfl fun _ => wp_bind (calm_wp rfl fun _ =>
            wp_bind (iunlockput_wp has' stop)))))
        refine wp_bind (namex_wp has₁ (by simp) bad fun dp name v₂ has₂ => ?_)
        refine wp_bind (ilock_wp (wp_bind (dirlink_wp has₂ (by simp) fun linked v₃ has₃ => ?_)))
        split
        · exact wp_bind (iunlockput_wp has₃ fun v₄ has₄ => wp_bind (putVariable_wp has₄ stop))
        · exact wp_bind (iunlockput_wp has₃ bad)

theorem sysUnlink_wp {path : Option (List Char)} {Q : Unit → Hands → Prop} (has : Has C F [] [] v)
    (post : ∀ v', Has C F [] [] v' → Q () v') : wp fsMachine handsOutline t (sysUnlink path) Q v := by
  cases path with
  | none => exact post v has
  | some path =>
    have stop (v' : Hands) (has' : Has C F [] [] v') : wp fsMachine handsOutline t FsAct.endOp.run Q v' :=
      calm_wp rfl fun _ => post v' has'
    refine wp_bind (calm_wp rfl fun _ => wp_bind (namex_wp has (by simp) stop fun dp name v₁ has₁ => ?_))
    have bad (v' : Hands) (has' : Has C F [dp] [] v') : wp fsMachine handsOutline t (do
        iunlockput dp
        FsAct.endOp.run) Q v' := wp_bind (iunlockput_wp has' stop)
    refine wp_bind (ilock_wp ?_)
    split
    · exact bad v₁ has₁
    · refine wp_bind (dirlookup_wp has₁ (by simp) (bad v₁ has₁) fun off ip v₂ has₂ => ?_)
      refine wp_bind (ilock_wp (wp_bind (calm_wp rfl fun _ => wp_bind (calm_wp rfl fun attr => ?_))))
      have rest (v' : Hands) (has' : Has C F [ip, dp] [] v') : wp fsMachine handsOutline t (do
          iunlockput dp
          (FsAct.decNlink ip).run
          (FsAct.iupdate ip).run
          iunlockput ip
          FsAct.endOp.run) Q v' :=
        wp_bind (iunlockput_wp has'.swap fun v₃ has₃ => wp_bind (calm_wp rfl fun _ =>
          wp_bind (calm_wp rfl fun _ =>
          wp_bind (iunlockput_wp has₃ stop))))
      split
      · refine wp_bind (wp_bind (calm_wp rfl fun empty => ?_))
        show wp _ _ _ (if (!empty) = true then _ else _) _ _
        split
        · exact wp_bind (iunlockput_wp has₂ bad)
        · exact wp_bind (calm_wp rfl fun _ => wp_bind (calm_wp rfl fun _ =>
            wp_bind (calm_wp rfl fun _ => rest v₂ has₂)))
      · refine wp_bind (wp_pure.mpr ?_)
        beta_reduce
        rw [if_neg Bool.false_ne_true]
        exact wp_bind (calm_wp rfl fun _ => rest v₂ has₂)

/-- A descriptor refers to another entry. -/
theorem keeps_update {fd : Nat} (limit : fd < NOFILE) (new : Option Slot) (b : Slot) :
    keeps C (update F fd new) b + (if F fd = some b then 1 else 0) = keeps C F b +
    if new = some b then 1 else 0 := by
  have change := Shares.change (c := fun file : Option Slot => if file = some b then 1 else 0)
    (g := fun fd : Fin NOFILE => F fd)
    (h := fun fd' : Fin NOFILE => update F fd new fd') (i := ⟨fd, limit⟩) fun fd' other =>
      by rw [update_of_ne fun same => other (Fin.ext same)]
  dsimp only at change
  rw [update_self] at change
  unfold keeps
  omega

/-- What a process keeps has changed, and no reference count. -/
theorem after_kept {s : FsState} {a : FsAct} {Q : a.Resp → Hands → Prop} {r : a.Resp}
    {lent : List Slot} (inv : Counted s)
    (cwd : Pid → Option Slot) (ofile : Pid → Nat → Option Slot) (others : ∀ u, u ≠ t → cwd u = s.cwd u ∧
      ofile u = s.ofile u)
    (has : Has C F hs lent (FsState.hands t { s with cwd, ofile }))
    (post : ∀ v', Has C F hs lent v' → Q r v') :
    handsOutline.After t a s Q (.ok r { s with cwd, ofile }) := by
  refine after_step inv inv.refs (fun u other => ?_) has.walk_le (post _ has)
  show (⟨fun b => (s.users b).count u, cwd u, ofile u⟩ : Hands) = _
  rw [(others u other).1, (others u other).2]
  rfl

theorem setCwd_wp {Q : Unit → Hands → Prop} {new : Option Slot} (has : Has (some b) F new.toList [b] v)
    (post : ∀ v', Has new F [] [] v' → Q () v') : wp fsMachine handsOutline t (FsAct.setCwd new).run Q v := by
  refine wp_step fun s room inv view => ⟨trivial, fun _ => ?_⟩
  obtain rfl : s.hands t = v := view
  refine after_kept inv _ s.ofile (fun u other => ⟨update_of_ne other _ _, rfl⟩) ⟨update_self ..,
    has.ofile, fun c => ?_, Nat.zero_le _⟩ post
  have mine := has.mine c
  change (s.users c).count t + _ = _ at mine
  show (s.users c).count t + _ = _
  unfold keeps at mine ⊢
  rw [List.count_singleton] at mine
  cases new with
  | none =>
    rw [Option.toList_none, List.count_nil] at mine
    rw [if_neg (Option.some_ne_none c).symm]
    by_cases same : b = c <;> simp [same] at mine ⊢ <;> omega
  | some ip =>
    rw [Option.toList_some, List.count_singleton] at mine
    by_cases same : b = c <;> by_cases same' : ip = c <;> simp [same, same'] at mine ⊢ <;> omega

theorem ofile_wp {Q : Option Slot → Hands → Prop} {fd : Nat} (post : Q (v.ofile fd) v) :
    wp fsMachine handsOutline t (FsAct.ofile fd).run Q v := by
  refine wp_step fun s room inv view => ⟨trivial, fun _ => ?_⟩
  obtain rfl : s.hands t = v := view
  exact after_step inv inv.refs (fun _ _ => rfl) (inv.few t) post

/-- A descriptor is given up, before or after the reference is dropped. -/
theorem setOfile_wp {Q : Unit → Hands → Prop} {fd : Nat} {lent : List Slot} (hs' lent' : List Slot)
    (limit : fd < NOFILE)
    (file : F fd = some ip) (has : Has C F hs lent v) (few : hs'.length ≤ 3)
    (moved : ∀ c, hs'.count c + lent.count c = hs.count c + lent'.count c + if ip = c then 1 else 0)
    (post : ∀ v', Has C (update F fd none) hs' lent' v' → Q () v') :
    wp fsMachine handsOutline t (FsAct.setOfile fd none).run Q v := by
  refine wp_step fun s room inv view => ⟨trivial, fun _ => ?_⟩
  obtain rfl : s.hands t = v := view
  have files : s.ofile t = F := has.ofile
  refine after_kept inv s.cwd _ (fun u other => ⟨rfl, update_of_ne other _ _⟩) ⟨has.cwd, ?_,
    fun c => ?_, few⟩ post
  · show update s.ofile t (update (s.ofile t) fd none) t = _
    rw [update_self, files]
  · have mine := has.mine c
    change (s.users c).count t + _ = _ at mine
    show (s.users c).count t + _ = _
    have less := keeps_update (C := C) (F := F) limit none c
    have all := moved c
    simp only [file, Option.some.injEq, reduceCtorEq, if_false] at less
    omega

theorem fdalloc_wp {Q : Option Nat → Hands → Prop} (has : Has C F [ip] [] v) (full : Q none v)
    (post : ∀ fd v', fd < NOFILE → Has C (update F fd (some ip)) [] [] v' → Q (some fd) v') :
    wp fsMachine handsOutline t (FsAct.fdalloc ip).run Q v := by
  refine wp_step fun s room inv view => ⟨trivial, fun _ => ?_⟩
  obtain rfl : s.hands t = v := view
  have files : s.ofile t = F := has.ofile
  simp only [fsMachine]
  split
  · exact after_step inv inv.refs (fun _ _ => rfl) (inv.few t) full
  · split
    · next fd found =>
      have limit : fd < NOFILE := List.mem_range.mp (List.mem_of_find?_eq_some found)
      have free := List.find?_some found
      rw [files, Option.isNone_iff_eq_none] at free
      refine after_kept inv s.cwd _ (fun u other => ⟨rfl, update_of_ne other _ _⟩) ⟨has.cwd, ?_,
        fun c => ?_, Nat.zero_le _⟩
        fun v' => post fd v' limit
      · show update s.ofile t (update (s.ofile t) fd (some ip)) t = _
        rw [update_self, files]
      · have mine := has.mine c
        change (s.users c).count t + _ = _ at mine
        show (s.users c).count t + _ = _
        have more := keeps_update (C := C) (F := F) limit (some ip) c
        rw [List.count_nil, List.count_singleton] at mine
        simp only [free, Option.some.injEq, reduceCtorEq, if_false, beq_iff_eq] at more mine
        omega
    · exact after_step inv inv.refs (fun _ _ => rfl) (inv.few t) full

theorem openInode_wp {omode : Nat} {Q : Unit → Hands → Prop} (has : Has C F [ip] [] v)
    (closed : ∀ v', Has C F [] [] v' → Q () v')
    (opened : ∀ fd v', fd < NOFILE → Has C (update F fd (some ip)) [] [] v' → Q () v') :
    wp fsMachine handsOutline t (openInode ip omode) Q v := by
  have stop (v' : Hands) (has' : Has C F [] [] v') : wp fsMachine handsOutline t FsAct.endOp.run Q v' :=
    calm_wp rfl fun _ => closed v' has'
  refine wp_bind (calm_wp rfl fun attr => ?_)
  split
  · exact wp_bind (iunlockput_wp has stop)
  · refine wp_bind (fdalloc_wp has (wp_bind (iunlockput_wp has stop)) fun fd v₁ limit has₁ => ?_)
    have rest : wp fsMachine handsOutline t (do
        iunlock ip
        FsAct.endOp.run) Q v₁ := wp_bind (iunlock_wp (calm_wp rfl fun _ => opened fd v₁ limit has₁))
    dsimp only
    split
    · exact wp_bind (calm_wp rfl fun _ => rest)
    · exact rest

theorem sysOpen_wp {path : Option (List Char)} {omode : Nat} {Q : Unit → Hands → Prop} (has : Has C F [] [] v)
    (closed : ∀ v', Has C F [] [] v' → Q () v')
    (opened : ∀ ip fd v', fd < NOFILE → Has C (update F fd (some ip)) [] [] v' → Q () v') :
    wp fsMachine handsOutline t (sysOpen path omode) Q v := by
  cases path with
  | none => exact closed v has
  | some path =>
    have stop (v' : Hands) (has' : Has C F [] [] v') : wp fsMachine handsOutline t FsAct.endOp.run Q v' :=
      calm_wp rfl fun _ => closed v' has'
    refine wp_bind (calm_wp rfl fun _ => ?_)
    split
    · exact wp_bind (create_wp has stop fun ip v₁ has₁ => openInode_wp has₁ closed (opened ip))
    · refine wp_bind (namex_wp has (by simp) stop fun ip _ v₁ has₁ =>
        wp_bind (ilock_wp (wp_bind (calm_wp rfl fun attr => ?_))))
      split
      · exact wp_bind (iunlockput_wp has₁ stop)
      · exact openInode_wp has₁ closed (opened ip)

theorem makeNode_wp {path : Option (List Char)} {type : FileType} {major minor : Int}
    {Q : Unit → Hands → Prop}
    (has : Has C F [] [] v) (post : ∀ v', Has C F [] [] v' → Q () v') :
    wp fsMachine handsOutline t (makeNode path type major minor) Q v := by
  have stop (v' : Hands) (has' : Has C F [] [] v') : wp fsMachine handsOutline t FsAct.endOp.run Q v' :=
    calm_wp rfl fun _ => post v' has'
  refine wp_bind (calm_wp rfl fun _ => ?_)
  cases path with
  | none => exact stop v has
  | some path => exact wp_bind (create_wp has stop fun ip v₁ has₁ => wp_bind (iunlockput_wp has₁ stop))

theorem sysChdir_wp {path : Option (List Char)} {Q : Unit → Hands → Prop} (has : Has C F [] [] v)
    (stays : ∀ v', Has C F [] [] v' → Q () v') (goes : ∀ ip v', Has (some ip) F [] [] v' → Q () v') :
    wp fsMachine handsOutline t (sysChdir path) Q v := by
  have stop (v' : Hands) (has' : Has C F [] [] v') : wp fsMachine handsOutline t FsAct.endOp.run Q v' :=
    calm_wp rfl fun _ => stays v' has'
  refine wp_bind (calm_wp rfl fun _ => ?_)
  cases path with
  | none => exact stop v has
  | some path =>
    refine wp_bind (namex_wp has (by simp) stop fun ip _ v₁ has₁ =>
      wp_bind (ilock_wp (wp_bind (calm_wp rfl fun attr => ?_))))
    split
    · exact wp_bind (iunlockput_wp has₁ stop)
    · refine wp_bind (iunlock_wp (wp_bind (cwd_wp fun old here => wp_bind ?_)))
      obtain rfl : C = some old := has₁.cwd.symm.trans here
      refine putKept_wp has₁ (by simp) ?_ fun v₂ has₂ => wp_bind (calm_wp rfl fun _ =>
        setCwd_wp has₂ (goes ip))
      unfold keeps
      rw [if_pos rfl]
      omega

theorem keeps_pos {fd : Nat} (limit : fd < NOFILE) (file : F fd = some b) : 0 < keeps C F b := by
  have less := keeps_update (C := C) (F := F) limit none b
  rw [if_pos file, if_neg (Option.some_ne_none b).symm] at less
  omega

theorem sysClose_wp {fd : Nat} {Q : Unit → Hands → Prop} (has : Has C F [] [] v)
    (beyond : ∀ fd, NOFILE ≤ fd → F fd = none)
    (stays : Q () v) (closed : ∀ v', Has C (update F fd none) [] [] v' → Q () v') :
    wp fsMachine handsOutline t (sysClose fd) Q v := by
  refine wp_bind (ofile_wp ?_)
  cases file : v.ofile fd with
  | none => exact stays
  | some ip =>
    rw [has.ofile] at file
    have limit : fd < NOFILE := by
      by_contra out
      rw [beyond fd (Nat.le_of_not_lt out)] at file
      cases file
    refine wp_bind (setOfile_wp [ip] [] limit file has (by simp) (fun c => ?_) fun v₁ has₁ => ?_)
    · simp [List.count_singleton]
    · exact wp_bind (calm_wp rfl fun _ => wp_bind (putVariable_wp has₁ fun v₂ has₂ =>
        calm_wp rfl fun _ => closed v₂ has₂))

theorem exit_wp {Q : Unit → Hands → Prop} (has : Has C F [] [] v) (beyond : ∀ fd, NOFILE ≤ fd → F fd = none)
    (post : ∀ F' v', (∀ fd, F' fd = none) → Has none F' [] [] v' → Q () v') :
    wp fsMachine handsOutline t exit Q v := by
  -- the descriptors below `n` are closed
  refine wp_seq (R := fun _ v' => ∃ F', (∀ fd, F' fd = none) ∧ Has C F' [] [] v') ?_ fun _ v₁ ⟨F',
    closed, has₁⟩ => ?_
  · refine wp_mono (Q := fun _ v' => ∃ F', (∀ fd, fd < NOFILE ∨ NOFILE ≤ fd → F' fd = none) ∧
      Has C F' [] [] v')
      (fun _ v' ⟨F', closed, has'⟩ => ⟨F', fun fd => closed fd (Nat.lt_or_ge fd NOFILE), has'⟩) ?_
    refine wp_forRange (J := fun n v' => ∃ F', (∀ fd, fd < n ∨ NOFILE ≤ fd → F' fd = none) ∧
      Has C F' [] [] v') ?_
      ⟨F, fun fd out => beyond fd (out.resolve_left (Nat.not_lt_zero fd)), has⟩
    · intro fd v' limit ⟨F', closed, has'⟩
      refine wp_bind (ofile_wp ?_)
      cases file : v'.ofile fd with
      | none =>
        refine ⟨F', fun fd' out => ?_, has'⟩
        by_cases same : fd' = fd
        · rw [same, ← has'.ofile, file]
        · exact closed fd' (by omega)
      | some ip =>
        rw [has'.ofile] at file
        refine wp_bind (wp_bind (calm_wp rfl fun _ =>
          wp_bind (putKept_wp has' (by simp) (keeps_pos limit file) fun v₁ has₁ => ?_)))
        refine calm_wp rfl fun _ => setOfile_wp [] [] limit file has₁ (Nat.zero_le 3)
          (fun c => ?_) fun v₂ has₂ =>
          ⟨_, fun fd' out => ?_, has₂⟩
        · simp [List.count_singleton]
        · by_cases same : fd' = fd
          · rw [same, update_self]
          · rw [update_of_ne same]
            exact closed fd' (by omega)
  · refine wp_bind (calm_wp rfl fun _ => wp_bind (cwd_wp fun old here => wp_bind ?_))
    obtain rfl : C = some old := has₁.cwd.symm.trans here
    refine putKept_wp has₁ (by simp) ?_ fun v₂ has₂ => wp_bind (calm_wp rfl fun _ => setCwd_wp has₂
      (post F' · closed))
    unfold keeps
    rw [if_pos rfl]
    omega

theorem sysExec_wp {path : Option (List Char)} {Q : Unit → Hands → Prop} (has : Has C F [] [] v)
    (post : ∀ v', Has C F [] [] v' → Q () v') : wp fsMachine handsOutline t (sysExec path) Q v := by
  have stop (v' : Hands) (has' : Has C F [] [] v') : wp fsMachine handsOutline t FsAct.endOp.run Q v' :=
    calm_wp rfl fun _ => post v' has'
  cases path with
  | none => exact post v has
  | some path =>
    exact wp_bind (calm_wp rfl fun _ => wp_bind (namex_wp has (by simp) stop fun ip _ v₁ has₁ =>
      wp_bind (ilock_wp (wp_bind (iunlockput_wp has₁ stop)))))

theorem Idle.of (small : t < NPROC) (has : Has C F [] [] v) (limit : ∀ fd, NOFILE ≤ fd → F fd = none) :
    Idle t v := by
  refine ⟨?_, fun fd out => ?_, fun late => absurd small (Nat.not_lt_of_le late)⟩
  · rw [has.cwd, has.ofile]
    exact has
  · rw [has.ofile]
    exact limit fd out

/-- Every call leaves its process with a directory and descriptors, and no other reference. -/
theorem FsCall.keeps_idle (c : FsCall) (small : t < NPROC) (idle : Idle t v) :
    wp fsMachine handsOutline t (fsCalls.code c) (fun _ => Idle t) v := by
  obtain ⟨has, limit, -⟩ := idle
  have same (v' : Hands) (has' : Has v.cwd v.ofile [] [] v') : Idle t v' := .of small has' limit
  have opened (ip : Slot) (fd : Nat) (v' : Hands) (inside : fd < NOFILE)
    (has' : Has v.cwd (update v.ofile fd (some ip)) [] [] v') :
      Idle t v' := by
    refine .of small has' fun fd' out => ?_
    rw [update_of_ne (Nat.ne_of_gt (Nat.lt_of_lt_of_le inside out))]
    exact limit fd' out
  have closed (fd : Nat) (v' : Hands) (has' : Has v.cwd (update v.ofile fd none) [] [] v') : Idle t v' := by
    refine .of small has' fun fd' out => ?_
    by_cases here : fd' = fd
    · rw [here, update_self]
    · rw [update_of_ne here]
      exact limit fd' out
  cases c with
  | exec path => exact sysExec_wp has same
  | syscall c =>
    cases c with
    | «open» path omode => exact sysOpen_wp has same opened
    | mkdir path => exact makeNode_wp has same
    | mknod path major minor => exact makeNode_wp has same
    | link old new => exact sysLink_wp has same
    | unlink path => exact sysUnlink_wp has same
    | chdir path => exact sysChdir_wp has same fun ip v' has' => .of small has' limit
    | close fd => exact sysClose_wp has limit (same v has) (closed fd)
    | exit => exact exit_wp has limit fun F' v' none has' => .of small has' fun fd _ => none fd

end Balance

end Xv6.Fs
