import Xv6.Content.DirOps

namespace Xv6.Content
open Function

/-- The map of a new directory. -/
def dots (ip dp : Nat) : Name → Nat := update (update (fun _ => 0) (nameKey dot) ip) (nameKey dotdot) dp

namespace Volume

section DirRuns

variable {s s' : Volume} {d e i ip dp k inum : Nat} {m : Name → Nat} {name : Bytes}

/-- `create` of a directory makes one with two entries, or gives the inode back. -/
theorem createDir_spec (ip dp : Nat) (cons : s.Consistent) (live : 1 ≤ ip ∧ ip < 65536)
    (parent : 1 ≤ dp ∧ dp < 65536) :
    ∃ r s', s.createDir ip dp = .ok (r, s') ∧ s'.Consistent ∧ OthersKept ip s s' ∧
      (r = 0 ∧ DirOk s' ip (dots ip dp) ∨ r = -1 ∧ (s'.inode ip).type = 0) := by
  obtain ⟨s₀, hs₀⟩ : ∃ s₀, s₀ = s.ialloc ip T_DIR := ⟨_, rfl⟩
  have fresh : s₀.Consistent ∧ OthersKept ip s s₀ :=
    hs₀ ▸ replace_spec (i := ip) cons ⟨T_DIR, 1, 0, fun _ => 0⟩ (.inl fun _ => rfl) (by simp)
  have inode : s₀.inode ip = ⟨T_DIR, 1, 0, fun _ => 0⟩ := hs₀ ▸ update_self ..
  have full : s₀.NoHoles ip := fun bn below => by
    rw [inode] at below
    exact absurd below (by simp)
  have none : s₀.count ip = 0 := by simp [count, inode]
  have aligned : (s₀.inode ip).size % direntSize = 0 := by simp [inode]
  -- the way out when an entry cannot be written
  have giveUp : ∀ s₁ : Volume, s₁.Consistent → OthersKept ip s s₁ →
      ∃ s', (s₁.setNlink ip 0).iputFree ip = .ok s' ∧ s'.Consistent ∧ OthersKept ip s s' ∧
      (s'.inode ip).type = 0 :=
    fun s₁ cons₁ others₁ => by
      have unlinked := setNlink_spec cons₁ ip 0
      obtain ⟨s', run, cons', others', type⟩ := iputFree_spec (i := ip) unlinked.1
      exact ⟨s', run, cons', (others₁.trans fun e _ => unlinked.2 e).trans others', type⟩
  obtain ⟨r₁, s₁, run₁, ⟨⟨k, below, _⟩, _⟩ | ⟨_, k, at_most, _, r, _, w₁, eq₁⟩⟩ :=
    dirlink_raw dot ip fresh.1 (by rw [inode]) full aligned
  · omega
  have others₁ : OthersKept ip s s₁ := fresh.2.trans w₁.others
  unfold createDir
  simp only [← hs₀, run₁, Bind.bind, Except.bind]
  by_cases done₁ : r = direntSize
  swap
  · rw [if_neg done₁] at eq₁
    subst eq₁
    obtain ⟨s', run, rest⟩ := giveUp s₁ w₁.safe.cons others₁
    refine ⟨-1, s', ?_, rest.1, rest.2.1, .inr ⟨rfl, rest.2.2⟩⟩
    simp only [show ((-1 : Int) < 0) = True by simp, if_true, run]
    rfl
  rw [if_pos done₁] at eq₁
  subst eq₁
  have first : k = 0 := by omega
  subst first
  obtain ⟨aligned₁, count₁, ⟨inum₁, name₁⟩, _⟩ := w₁.entries done₁ aligned at_most
  rw [dirent_inum live.2] at inum₁
  rw [dirent_name] at name₁
  rw [none] at count₁
  have full₁ := w₁.safe.noHoles ip full
  have type₁ : (s₁.inode ip).type = T_DIR := w₁.fields.trans (by rw [inode])
  have apart : nameKey dot ≠ nameKey dotdot := by decide
  obtain ⟨r₂, s₂, run₂, ⟨⟨k, below, hit⟩, _⟩ | ⟨_, k, at_most₂, empty, r', _, w₂, eq₂⟩⟩ :=
    dirlink_raw dotdot dp w₁.safe.cons type₁ full₁ aligned₁
  · have here : k = 0 := by omega
    subst here
    exact absurd (name₁.symm.trans hit.2) apart
  simp only [run₂]
  have others₂ := others₁.trans w₂.others
  by_cases done₂ : r' = direntSize
  swap
  · rw [if_neg done₂] at eq₂
    subst eq₂
    obtain ⟨s', run, rest⟩ := giveUp s₂ w₂.safe.cons others₂
    refine ⟨-1, s', ?_, rest.1, rest.2.1, .inr ⟨rfl, rest.2.2⟩⟩
    simp only [show ((0 : Int) < 0) = False by simp, if_false, show ((-1 : Int) <
      0) = True by simp, if_true, run]
    rfl
  rw [if_pos done₂] at eq₂
  subst eq₂
  have second : k = 1 := by
    by_contra other
    have : k = 0 := by omega
    subst this
    rw [inum₁] at empty
    have := empty (by omega)
    omega
  subst second
  obtain ⟨aligned₂, count₂, ⟨inum₂, name₂⟩, rest⟩ := w₂.entries done₂ aligned₁ at_most₂
  rw [dirent_inum parent.2] at inum₂
  rw [dirent_name] at name₂
  obtain ⟨inum₀, name₀⟩ := rest 0 (by omega) (by omega)
  rw [inum₁] at inum₀
  rw [name₁] at name₀
  have two : s₂.count ip = 2 := by omega
  have cases : ∀ j, j < s₂.count ip → j = 0 ∨ j = 1 := fun j below => by omega
  refine ⟨0, s₂, ?_, w₂.safe.cons, others₂, .inl ⟨rfl, w₂.fields.trans type₁,
    w₂.safe.noHoles ip full₁, aligned₂,
    ?_, ?_, ?_, ?_⟩⟩
  · simp [Pure.pure, Except.pure]
  · exact ⟨by omega, by omega, name₀, by omega, name₂⟩
  · intro j l first second _ _ same
    rcases cases j first with rfl | rfl <;> rcases cases l second with rfl | rfl
    · rfl
    · rw [name₀, name₂] at same
      exact absurd same apart
    · rw [name₀, name₂] at same
      exact absurd same.symm apart
    · rfl
  · intro j below _
    rcases cases j below with rfl | rfl
    · rw [name₀, inum₀, dots, update_of_ne apart, update_self]
    · rw [name₂, inum₂, dots, update_self]
  · intro key some
    by_cases last : key = nameKey dotdot
    · exact ⟨1, by omega, by omega, by rw [name₂, last]⟩
    · rw [dots, update_of_ne last] at some
      by_cases first : key = nameKey dot
      · exact ⟨0, by omega, by omega, by rw [name₀, first]⟩
      · rw [update_of_ne first] at some
        exact absurd rfl some

/-- Every directory is one. -/
def AllDirs (s : Volume) : Prop := ∀ e, (s.inode e).type = T_DIR → ∃ m, DirOk s e m

/-- `sys_unlink` removes the entry, or leaves the directory as it is; it panics for want of links only. -/
theorem sysUnlink_spec (name : Bytes) (cons : s.Consistent) (all : AllDirs s) (ok : DirOk s d m) :
    s.sysUnlink d name = .error "unlink: nlink < 1" ∨
    ∃ r s', s.sysUnlink d name = .ok (r, s') ∧ s'.Consistent ∧ OthersKept d s s' ∧
      (r = 0 ∧ m (nameKey name) ≠ 0 ∧ DirOk s' d (update m (nameKey name) 0) ∨ r = -1 ∧ s' = s) := by
  unfold sysUnlink
  by_cases special : namecmp name dot = 0 ∨ namecmp name dotdot = 0
  · exact .inr ⟨-1, s, if_pos special, cons, fun e _ => ⟨rfl, Kept.refl⟩, .inr ⟨rfl, rfl⟩⟩
  rw [if_neg special]
  rw [namecmp_eq_zero, namecmp_eq_zero, not_or] at special
  rcases ok.lookup cons name with ⟨k, below, hit, value, some, run⟩ | ⟨_, _, run⟩
  swap
  · refine .inr ⟨-1, s, ?_, cons, fun e _ => ⟨rfl, Kept.refl⟩, .inr ⟨rfl, rfl⟩⟩
    simp only [run, Bind.bind, Except.bind, Pure.pure, Except.pure]
  simp only [run, Bind.bind, Except.bind]
  obtain ⟨ip, entry⟩ : ∃ ip, ip = m (nameKey name) := ⟨_, rfl⟩
  rw [← entry]
  by_cases links : (s.inode ip).nlink < 1
  · exact .inl (if_pos links)
  rw [if_neg links]
  -- a directory is looked through, which changes nothing
  have looked : ∃ empty, (if (s.inode ip).type = T_DIR then s.isdirempty ip else .ok (true, s)) =
    .ok (empty, s) := by
    by_cases dir : (s.inode ip).type = T_DIR
    · obtain ⟨m', ok'⟩ := all ip dir
      obtain ⟨empty, look, _⟩ := isdirempty_spec cons ok'.full ok'.aligned
      exact ⟨empty, (if_pos dir).trans look⟩
    · exact ⟨true, if_neg dir⟩
  obtain ⟨empty, looked⟩ := looked
  simp only [looked]
  cases empty with
  | false => exact .inr ⟨-1, s, rfl, cons, fun e _ => ⟨rfl, Kept.refl⟩, .inr ⟨rfl, rfl⟩⟩
  | true =>
    obtain ⟨r, s₁, write, w⟩ := writeDirent_spec (fun _ => 0) cons ok.full ok.aligned (Nat.le_of_lt below)
    have done := w.present below
    have cleared := ok.unlink w done below hit.1 (Bytes.le_zero 0 2) (by rw [hit.2]; exact special)
    rw [hit.2] at cleared
    right
    simp only [write, done, Bool.not_true, Bool.false_eq_true, if_false, ne_eq, not_true_eq_false]
    have after : ∀ s₂ : Volume, s₂.Consistent → (∀ e, (s₂.inode e).type = (s₁.inode e).type ∧
        (s₁.NoHoles e → Kept e s₁ s₂)) → (s₂.setNlink ip ((s₂.inode ip).nlink - 1)).Consistent ∧
          OthersKept d s (s₂.setNlink ip ((s₂.inode ip).nlink - 1)) ∧
          DirOk (s₂.setNlink ip ((s₂.inode ip).nlink - 1)) d (update m (nameKey name) 0) :=
            fun s₂ cons₂ kept₂ => by
      have last := setNlink_spec cons₂ ip ((s₂.inode ip).nlink - 1)
      refine ⟨last.1, (w.others.trans fun e _ => kept₂ e).trans fun e _ => last.2 e, ?_⟩
      have mid := cleared.keep ((kept₂ d).2 cleared.full)
      exact mid.keep ((last.2 d).2 mid.full)
    split
    · have parent := setNlink_spec w.safe.cons d ((s₁.inode d).nlink - 1)
      obtain ⟨cons', others, ok'⟩ := after _ parent.1 parent.2
      exact ⟨0, _, rfl, cons', others, .inl ⟨rfl, by rwa [entry], ok'⟩⟩
    · obtain ⟨cons', others, ok'⟩ := after s₁ w.safe.cons fun e => ⟨rfl, Kept.refl⟩
      exact ⟨0, _, rfl, cons', others, .inl ⟨rfl, by rwa [entry], ok'⟩⟩

end DirRuns

end Volume

/-- What system calls do with directories, and what they do with other inodes meanwhile. -/
inductive DirOp where
  | dirlink (dp : Nat) (name : Bytes) (inum : Nat)
  | sysUnlink (dp : Nat) (name : Bytes)
  | createDir (ip dp : Nat)
  | ialloc (ip type : Nat)
  | writei (i : Nat) (src : Bytes) (limit : Option Nat) (off n : UInt32)
  | itrunc (i : Nat)
  | iput (i : Nat)
  | setNlink (i : Nat) (nlink : Int)

/-- An entry is made in what `namex` has found to be a directory, an inode is taken that is free,
contents are written only of what `sys_open` has found not to be a directory, and an inode is freed when
it has no links. -/
def DirOp.run (s : Volume) : DirOp → Except String (Int × Volume)
  | .dirlink dp name inum => if (s.inode dp).type ≠ T_DIR then .ok (-1, s) else s.dirlink dp name inum
  | .sysUnlink dp name => if (s.inode dp).type ≠ T_DIR then .ok (-1, s) else s.sysUnlink dp name
  | .createDir ip dp => if (s.inode ip).type ≠ 0 then .ok (-1, s) else s.createDir ip dp
  | .ialloc ip type => if (s.inode ip).type ≠ 0 ∨ type = T_DIR then .ok (-1, s) else .ok (0, s.ialloc ip type)
  | .writei i src limit off n =>
    if (s.inode i).type = T_DIR then .ok (-1, s) else s.writei i src limit off.toNat n.toNat
  | .itrunc i => if (s.inode i).type = T_DIR then .ok (-1, s) else (s.itrunc i).map fun s' => (0, s')
  | .iput i => if (s.inode i).nlink ≠ 0 then .ok (0, s) else (s.iputFree i).map fun s' => (0, s')
  | .setNlink i nlink => .ok (0, s.setNlink i nlink)

/-- Inode numbers fit in an entry, and directory `d` is not freed. -/
def DirOp.Legal (d : Nat) : DirOp → Prop
  | .dirlink _ _ inum => 1 ≤ inum ∧ inum < 65536
  | .createDir ip dp => (1 ≤ ip ∧ ip < 65536) ∧ 1 ≤ dp ∧ dp < 65536
  | .iput i => i ≠ d
  | _ => True

/-- The map of directory `d` after an operation with a result. -/
def DirOp.after (d : Nat) (m : Name → Nat) (r : Int) : DirOp → Name → Nat
  | .dirlink dp name inum => if dp = d ∧ r = 0 then update m (nameKey name) inum else m
  | .sysUnlink dp name => if dp = d ∧ r = 0 then update m (nameKey name) 0 else m
  | _ => m

/-- Carry out operations, keeping the map of directory `d` as their results say. -/
def DirOp.runs (d : Nat) : List DirOp → (Name → Nat) → Volume → Except String ((Name → Nat) × Volume)
  | [], m, s => .ok (m, s)
  | op :: rest, m, s => do
    let (r, s) ← op.run s
    DirOp.runs d rest (op.after d m r) s

section Maps

open Volume

variable {s s' : Volume} {d e : Nat} {m : Name → Nat}

theorem Volume.AllDirs.step (all : AllDirs s) (others : OthersKept e s s')
    (mine : (s'.inode e).type = T_DIR → ∃ m, DirOk s' e m) : AllDirs s' := fun f dir => by
  by_cases same : f = e
  · subst same
    exact mine dir
  · obtain ⟨type, kept⟩ := others f same
    rw [type] at dir
    obtain ⟨m, ok⟩ := all f dir
    exact ⟨m, ok.keep (kept ok.full)⟩

/-- What holds of the contents while the entries of directory `d` are the map. -/
structure MapInv (d : Nat) (m : Name → Nat) (s : Volume) : Prop where
  cons : s.Consistent
  all : AllDirs s
  ok : DirOk s d m

/-- A step that does not touch directory `d`, or leaves it as it was. -/
theorem MapInv.other (inv : MapInv d m s) (cons : s'.Consistent) (others : OthersKept e s s')
    (mine : (s'.inode e).type = T_DIR → ∃ m, DirOk s' e m) (apart : d ≠ e) : MapInv d m s' :=
  ⟨cons, inv.all.step others mine, inv.ok.keep ((others d apart).2 inv.ok.full)⟩

/-- The outcome of one operation. -/
def After (d : Nat) (m : Name → Nat) (op : DirOp) : Except String (Int × Volume) → Prop
  | .ok (r, s') => MapInv d (op.after d m r) s'
  | .error message => message = "unlink: nlink < 1"

theorem DirOp.run_after (inv : MapInv d m s) (op : DirOp) (legal : op.Legal d) : After d m op (op.run s) := by
  have notDir : ∀ {e}, (s.inode e).type ≠ T_DIR → d ≠ e := fun other same => other (same ▸ inv.ok.dir)
  cases op with
  | dirlink dp name inum =>
    by_cases dir : (s.inode dp).type ≠ T_DIR
    · simp only [run, if_pos dir, After, after, if_neg (show ¬ (dp = d ∧ (-1 : Int) = 0) by simp)]
      exact inv
    simp only [run, if_neg dir]
    rw [not_not] at dir
    obtain ⟨m', ok'⟩ := inv.all dp dir
    by_cases mine : dp = d
    · subst mine
      obtain ⟨r, s', eq, safe, others, ⟨rfl, _, linked⟩ | ⟨rfl, same, _⟩⟩ :=
        dirlink_spec name inv.cons inv.ok legal.1 legal.2
      · simp only [eq, After, after]
        exact ⟨safe.cons, inv.all.step others fun _ => ⟨_, linked⟩, linked⟩
      · simp only [eq, After, after]
        exact ⟨safe.cons, inv.all.step others fun _ => ⟨_, same⟩, same⟩
    · obtain ⟨r, s', eq, safe, others, result⟩ := dirlink_spec name inv.cons ok' legal.1 legal.2
      simp only [eq, After, after, if_neg (show ¬ (dp = d ∧ r = 0) from fun both => mine both.1)]
      exact inv.other safe.cons others (fun _ => result.elim (fun h => ⟨_, h.2.2⟩) fun h =>
        ⟨_, h.2.1⟩) (Ne.symm mine)
  | sysUnlink dp name =>
    by_cases dir : (s.inode dp).type ≠ T_DIR
    · simp only [run, if_pos dir, After, after, if_neg (show ¬ (dp = d ∧ (-1 : Int) = 0) by simp)]
      exact inv
    simp only [run, if_neg dir]
    rw [not_not] at dir
    obtain ⟨m', ok'⟩ := inv.all dp dir
    by_cases mine : dp = d
    · subst mine
      rcases sysUnlink_spec name inv.cons inv.all inv.ok with
        eq | ⟨r, s', eq, cons, others, ⟨rfl, _, cleared⟩ | ⟨rfl, rfl⟩⟩
      · simp only [eq, After]
      · simp only [eq, After, after]
        exact ⟨cons, inv.all.step others fun _ => ⟨_, cleared⟩, cleared⟩
      · simp only [eq, After, after]
        exact inv
    · rcases sysUnlink_spec name inv.cons inv.all ok' with
        eq | ⟨r, s', eq, cons, others, result⟩
      · simp only [eq, After]
      · simp only [eq, After, after, if_neg (show ¬ (dp = d ∧ r = 0) from fun both => mine both.1)]
        refine inv.other cons others (fun _ => result.elim (fun h => ⟨_, h.2.2⟩) fun h => ?_) (Ne.symm mine)
        rw [h.2]
        exact ⟨_, ok'⟩
  | createDir ip dp =>
    by_cases taken : (s.inode ip).type ≠ 0
    · simp only [run, if_pos taken]
      exact inv
    simp only [run, if_neg taken]
    rw [not_not] at taken
    obtain ⟨r, s', eq, cons, others, result⟩ := createDir_spec _ _ inv.cons legal.1 legal.2
    simp only [eq, After, after]
    refine inv.other cons others (fun dir => result.elim (fun h => ⟨_, h.2⟩) fun h => ?_)
      (notDir (by rw [taken]; decide))
    rw [h.2] at dir
    exact absurd dir (by decide)
  | ialloc ip type =>
    by_cases taken : (s.inode ip).type ≠ 0 ∨ type = T_DIR
    · simp only [run, if_pos taken]
      exact inv
    simp only [run, if_neg taken]
    rw [not_or, not_not] at taken
    have fresh := replace_spec (i := ip) inv.cons ⟨type, 1, 0, fun _ => 0⟩ (.inl fun _ => rfl) (by simp)
    refine inv.other fresh.1 fresh.2 (fun dir => absurd dir ?_) (notDir (by rw [taken.1]; decide))
    simpa [Volume.ialloc, setInode, logWrite] using taken.2
  | writei i src limit off n =>
    by_cases dir : (s.inode i).type = T_DIR
    · simp only [run, if_pos dir]
      exact inv
    simp only [run, if_neg dir]
    obtain ⟨r, s', eq, cons, others, type⟩ := writei_others i src limit off.toNat
      inv.cons n.toNat_lt
    simp only [eq, After, after]
    exact inv.other cons others (fun now => absurd (type.symm.trans now) dir) (notDir dir)
  | itrunc i =>
    by_cases dir : (s.inode i).type = T_DIR
    · simp only [run, if_pos dir]
      exact inv
    simp only [run, if_neg dir]
    obtain ⟨s', eq, truncated⟩ := itrunc_spec (i := i) inv.cons
    simp only [eq, Except.map, After, after]
    exact inv.other truncated.cons truncated.othersKept
      (fun now => absurd (truncated.fields.1.symm.trans now) dir) (notDir dir)
  | iput i =>
    by_cases links : (s.inode i).nlink ≠ 0
    · simp only [run, if_pos links]
      exact inv
    simp only [run, if_neg links]
    obtain ⟨s', eq, cons, others, type⟩ := iputFree_spec (i := i) inv.cons
    simp only [eq, Except.map, After, after]
    exact inv.other cons others (fun now => absurd (type.symm.trans now) (by decide)) (Ne.symm legal)
  | setNlink i nlink =>
    obtain ⟨cons, kept⟩ := setNlink_spec inv.cons i nlink
    refine ⟨cons, fun e dir => ?_, inv.ok.keep ((kept d).2 inv.ok.full)⟩
    rw [(kept e).1] at dir
    obtain ⟨m', ok'⟩ := inv.all e dir
    exact ⟨m', ok'.keep ((kept e).2 ok'.full)⟩

theorem DirOp.runs_after (inv : MapInv d m s) (ops : List DirOp) (legal : ∀ op ∈ ops, op.Legal d) :
    match DirOp.runs d ops m s with
    | .ok (m', s') => MapInv d m' s'
    | .error message => message = "unlink: nlink < 1" := by
  induction ops generalizing m s with
  | nil => exact inv
  | cons op rest ih =>
    have first := op.run_after inv (legal op (List.mem_cons_self ..))
    simp only [DirOp.runs, Bind.bind, Except.bind]
    revert first
    cases op.run s with
    | error message => exact id
    | ok r => exact fun first => ih first fun op member => legal op (List.mem_cons_of_mem _ member)

end Maps

open Volume in
/-- In every run of directory operations: a directory's size is a multiple of the size of an entry, its first
entries are "." and "..", and no two live entries have one name; `dirlookup` finds for a name the inode number
with which it was linked last and not removed since, and 0 if there is none; `dirlink` of a present name or of
one for which there is no space fails and leaves the map; a new directory has its two entries. Nothing panics
but `sys_unlink` of an inode that is said to have no links. -/
theorem directory_map {s : Volume} {d : Nat} {m : Name → Nat} (inv : MapInv d m s) (ops : List DirOp)
    (legal : ∀ op ∈ ops, op.Legal d) :
    match DirOp.runs d ops m s with
    | .error message => message = "unlink: nlink < 1"
    | .ok (m', s') =>
      (s'.inode d).size % direntSize = 0 ∧
      (2 ≤ s'.count d ∧ s'.inum d 0 ≠ 0 ∧ s'.name d 0 = nameKey dot ∧ s'.inum d 1 ≠ 0 ∧
        s'.name d 1 = nameKey dotdot) ∧
      (∀ j k, j < s'.count d → k < s'.count d → s'.inum d j ≠ 0 → s'.inum d k ≠ 0 →
        s'.name d j = s'.name d k → j = k) ∧
      (∀ name, ∃ found, s'.dirlookup d name = .ok (found, s') ∧ (found.map Prod.fst).getD 0 =
        m' (nameKey name)) ∧
      (∀ name inum, 1 ≤ inum → inum < 65536 → ∃ r s'', s'.dirlink d name inum = .ok (r, s'') ∧
        (r = 0 ∧ MapInv d (update m' (nameKey name) inum) s'' ∨ r = -1 ∧ MapInv d m' s'') ∧
        (m' (nameKey name) ≠ 0 → r = -1) ∧
        (s'.Full → (∀ k < s'.count d, s'.inum d k ≠ 0) → (s'.inode d).size < MAXFILE * BSIZE →
          s'.slot d (dataSlot ((s'.inode d).size / BSIZE)) = 0 → r = -1)) ∧
      ∀ ip dp, (s'.inode ip).type = 0 → 1 ≤ ip ∧ ip < 65536 → 1 ≤ dp ∧ dp < 65536 →
        ∃ r s'', s'.createDir ip dp = .ok (r, s'') ∧ (r = 0 ∧ MapInv ip (dots ip dp) s'' ∨ r = -1) := by
  have after := DirOp.runs_after inv ops legal
  revert after
  cases DirOp.runs d ops m s with
  | error message => exact id
  | ok x =>
    obtain ⟨m', s'⟩ := x
    intro inv'
    have inv' : MapInv d m' s' := inv'
    have ok := inv'.ok
    refine ⟨ok.aligned, ok.dots, ok.unique, fun name => ?_, fun name inum live small => ?_,
      fun ip dp free live parent => ?_⟩
    · rcases ok.lookup inv'.cons name with ⟨k, _, _, _, _, run⟩ | ⟨none, _, run⟩
      · exact ⟨_, run, rfl⟩
      · exact ⟨_, run, none.symm⟩
    · obtain ⟨r, s'', run, safe, others, result⟩ := dirlink_spec name inv'.cons ok live small
      refine ⟨r, s'', run, ?_, fun some => ?_, fun full busy fits absent => ?_⟩
      · rcases result with ⟨rfl, _, linked⟩ | ⟨rfl, same, _⟩
        · exact .inl ⟨rfl, safe.cons, inv'.all.step others fun _ => ⟨_, linked⟩, linked⟩
        · exact .inr ⟨rfl, safe.cons, inv'.all.step others fun _ => ⟨_, same⟩, same⟩
      · rcases result with ⟨_, none, _⟩ | ⟨same, _⟩
        · exact absurd none some
        · exact same
      · obtain ⟨r', s₁, again, ⟨_, same, _⟩ | ⟨_, k, at_most, empty, r₁, write, _, eq⟩⟩ :=
          dirlink_raw name inum inv'.cons ok.dir ok.full ok.aligned
        all_goals
          rw [run] at again
          cases again
        · exact same
        · have last : direntSize * k = (s'.inode d).size := by
            have here : k = s'.count d := by
              by_contra other
              exact busy k (by omega) (empty (by omega))
            rw [here]
            have aligned := ok.aligned
            unfold count
            unfold direntSize at *
            omega
          rw [last] at write
          rw [eq, if_neg (writei_full full absent fits write)]
    · obtain ⟨r, s'', run, cons, others, ⟨rfl, made⟩ | ⟨rfl, _⟩⟩ := createDir_spec _ _ inv'.cons live parent
      · exact ⟨0, s'', run, .inl ⟨rfl, cons, inv'.all.step others fun _ => ⟨_, made⟩, made⟩⟩
      · exact ⟨-1, s'', run, .inr rfl⟩

/-- A disk with no file but a directory that is made first. -/
def freshVolume : Volume := ⟨2000, fun b => b < 46, fun _ _ => 0, fun _ => ⟨0, 0, 0, fun _ => 0⟩, 0, 0⟩

/-- A name without a NUL is entered, found again and removed. -/
def fourteenOps : List DirOp :=
  let name : Bytes := fun x => if x < 14 then 97 else 98
  [.dirlink 1 name 7, .setNlink 7 1, .dirlink 1 name 8, .sysUnlink 1 name]

theorem directory_map_fourteen : ∃ r s₀ m s₁, freshVolume.createDir 1 1 = .ok (r, s₀) ∧
    DirOp.runs 1 fourteenOps (dots 1 1) s₀ = .ok (m, s₁) ∧
    ∀ name, ∃ found, s₁.dirlookup 1 name = .ok (found, s₁) ∧ (found.map Prod.fst).getD 0 =
    m (nameKey name) := by
  have cons : freshVolume.Consistent := by
    refine ⟨fun i l j m _ _ _ present => ?_, fun i l _ present => ?_,
      by decide, fun i => by simp [freshVolume]⟩
    all_goals exact absurd (by simp [Volume.slot, freshVolume]) present
  have none : Volume.AllDirs freshVolume := fun e dir => absurd dir (by decide : (0 : Nat) ≠ T_DIR)
  have ran : ((freshVolume.createDir 1 1).bind fun x =>
      (DirOp.runs 1 fourteenOps (dots 1 1) x.2).map fun _ => x.1) = .ok 0 := by decide +kernel
  obtain ⟨r, s₀, run, cons', others, result⟩ :=
    Volume.createDir_spec 1 1 cons ⟨le_refl _, by decide⟩ ⟨le_refl _, by decide⟩
  rw [run] at ran
  have legal : ∀ op ∈ fourteenOps, op.Legal 1 := by simp [fourteenOps, DirOp.Legal]
  rcases result with ⟨rfl, made⟩ | ⟨rfl, _⟩
  · have kept := directory_map ⟨cons', none.step others fun _ => ⟨_, made⟩, made⟩ fourteenOps legal
    simp only [Except.bind] at ran
    revert ran kept
    cases eq : DirOp.runs 1 fourteenOps (dots 1 1) s₀ with
    | error message => exact fun ran _ => by cases ran
    | ok x => exact fun _ kept => ⟨0, s₀, x.1, x.2, run, eq, kept.2.2.2.1⟩
  · simp only [Except.bind] at ran
    revert ran
    cases DirOp.runs 1 fourteenOps (dots 1 1) s₀ with
    | error message => exact fun ran => by cases ran
    | ok x => exact fun ran => absurd (Except.ok.inj ran) (by simp)

end Xv6.Content
