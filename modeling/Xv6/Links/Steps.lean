import Xv6.Links.Names

/-! What a call does step by step to an inode table in which every inode in use can be freed when it is given
up: no step stops with an error, but for want of an entry. -/

namespace Xv6.Sysfile.Links
open Function Content Content.Volume Namei

/-- The panic of `iget`. -/
def Full (e : String) : Prop := e = "iget: no inodes"

/-- An inode in use has been read from the disk, or it has links. -/
def Sure (v : Volume) (s : Fs) (b : Namei.Slot) : Prop :=
  0 < (s.inode b).ref → (s.inode b).valid = true ∨ (v.inode (s.inode b).inum).nlink ≠ 0

/-- As `Table`; and every inode in use can be freed. -/
structure During (held : List (Namei.Slot × Nat)) (locks : List Namei.Slot) (v : Volume) (s₀ s : Fs) : Prop
    extends Table held locks v s₀ s where
  sure (b) : Sure v s b

/-- Inodes that names lead to. -/
def Named (v : Volume) (i : Nat) : Prop := (v.inode i).type ≠ 0 ∧ (v.inode i).nlink ≠ 0

/-- Directories in which names can be looked up. -/
structure Walkable (v : Volume) : Prop where
  cons : v.Consistent
  dirs {d} : IsDir v d → Directory v d
  child {d x i} : IsDir v d → Namei.child v d x = some i → Named v i

section Steps

variable {s₀ s : Fs} {v v' : Volume} {held held' : List (Namei.Slot × Nat)} {locks locks' : List Namei.Slot}
  {ip dp b : Namei.Slot}
  {d i n : Nat} {E : String → Prop}

theorem Linked.walkable (linked : Linked n v) : Walkable v := ⟨linked.cons, linked.directory, linked.linked⟩

/-- An entry is stored. -/
theorem Sure.set {e : Namei.Entry} (sure : ∀ b, b ≠ ip → Sure v s b)
    (mine : 0 < e.ref → e.valid = true ∨ (v.inode e.inum).nlink ≠ 0) (b : Namei.Slot) :
    Sure v { s with inode := update s.inode ip e } b := by
  unfold Sure
  dsimp only
  by_cases here : b = ip
  · rw [here, update_self]
    exact mine
  · rw [update_of_ne here]
    exact sure b here

theorem During.congr (t : During held locks v s₀ s) (perm : held.Perm held')
    (same : ∀ b, b ∈ locks' ↔ b ∈ locks) :
    During held' locks' v s₀ s := ⟨t.toTable.congr perm same, t.sure⟩

/-- The disk changes, but no inode in use loses its last link unless it has been read. -/
theorem During.setVolume (t : During held locks v s₀ s) (v' : Volume)
    (links : ∀ i, (v.inode i).nlink ≠ 0 → (v'.inode i).nlink ≠ 0 ∨ ∀ b, 0 < (s.inode b).ref →
      (s.inode b).inum = i → (s.inode b).valid = true) :
    During held locks v' s₀ { s with volume := v' } := by
  refine ⟨t.toTable.setVolume v', fun b used => ?_⟩
  rcases t.sure b used with valid | linked
  · exact .inl valid
  · rcases links _ linked with linked | all
    · exact .inr linked
    · exact .inl (all b used rfl)

/-- The disk changes, but no inode loses its last link. -/
theorem During.setLinked (t : During held locks v s₀ s) (v' : Volume)
    (links : ∀ i, (v.inode i).nlink ≠ 0 → (v'.inode i).nlink ≠ 0) :
    During held locks v' s₀ { s with volume := v' } := t.setVolume v' fun i linked => .inl (links i linked)

theorem iget_during (t : During held locks v s₀ s) (linked : (v.inode i).nlink ≠ 0) :
    Ends (iget i) s Full fun ip s' => During ((ip, i) :: held) locks v s₀ s' := by
  have sure : Ends (iget i) s Full fun _ s' => ∀ b, Sure v s' b := by
    unfold iget
    refine Ends.bind_run (rfl : (get : FsM Fs) s = .ok (s, s)) ?_
    cases found : s.lookup i with
    | some ip =>
      obtain ⟨used, -⟩ := lookup_some found
      exact Ends.seq (Ends.modify (Ends.pure (Sure.set (fun b _ => t.sure b) fun _ => t.sure ip used)))
    | none =>
      cases s.empty with
      | none => exact Ends.throw rfl
      | some ip => exact Ends.seq (Ends.modify
          (Ends.pure (Sure.set (fun b _ => t.sure b) fun _ => .inr linked)))
  exact (sure.and (iget_gives t.toTable)).mono fun _ _ both => ⟨both.2, both.1⟩

/-- An inode that has just been allocated has no links. -/
theorem iget_new (t : During held locks v s₀ s) :
    Ends (iget i) s Full fun ip s' => Table ((ip, i) :: held) locks v s₀ s' ∧ ∀ b, b ≠ ip → Sure v s' b := by
  have sure : Ends (iget i) s Full fun ip s' => ∀ b, b ≠ ip → Sure v s' b := by
    have others (ip : Namei.Slot) (e : Namei.Entry) (b : Namei.Slot) (other : b ≠ ip) :
        Sure v { s with inode := update s.inode ip e } b := by
      unfold Sure
      dsimp only
      rw [update_of_ne other]
      exact t.sure b
    unfold iget
    refine Ends.bind_run (rfl : (get : FsM Fs) s = .ok (s, s)) ?_
    cases s.lookup i with
    | some ip => exact Ends.seq (Ends.modify (Ends.pure (others ip _)))
    | none =>
      cases s.empty with
      | none => exact Ends.throw rfl
      | some ip => exact Ends.seq (Ends.modify (Ends.pure (others ip _)))
  exact (sure.and (iget_gives t.toTable)).mono fun _ _ both => ⟨both.2, both.1⟩

theorem idup_during (t : During held [] v s₀ s) (used : 0 < (s.inode ip).ref) :
    Ends (idup ip) s E fun r s' => r = ip ∧ During ((ip, (s.inode ip).inum) :: held) [] v s₀ s' := by
  unfold idup
  refine Ends.seq (Ends.modify (Ends.pure ⟨rfl, ?_, Sure.set (fun b _ => t.sure b) fun _ => t.sure ip used⟩))
  refine t.keep (fun b other => ⟨count_fst_cons other, Iff.rfl, fun _ => mem_of_ne other⟩) ?_ rfl
    (fun j member => ?_) (t.locked ip)
    (fun wrong => absurd wrong List.not_mem_nil) used
  · rw [List.map_cons, List.count_cons_self, ← Nat.add_assoc, ← t.ref]
  · rcases List.mem_cons.mp member with same | member
    · exact (Prod.ext_iff.mp same).2.symm
    · exact t.inum member

/-- An inode is locked, which has been read from then on. -/
theorem ilock_new (t : Table held locks v s₀ s) (sure : ∀ b, b ≠ ip → Sure v s b) (member : (ip, i) ∈ held)
    (free : ip ∉ locks)
    (live : (v.inode i).type ≠ 0) : Ends (ilock ip) s E fun _ s' => During held (ip :: locks) v s₀ s' := by
  have done : Ends (ilock ip) s E fun _ s' => ∀ b, Sure v s' b := by
    unfold ilock
    refine Ends.bind_run (rfl : (get : FsM Fs) s = .ok (s, s)) ?_
    have used := t.used (Table.mem member)
    refine Ends.ite (fun none => absurd none (by omega)) fun _ => Ends.ite (fun held => ?_) fun _ =>
      Ends.ite (fun wrong => ?_) fun _ => Ends.modify (Sure.set sure fun _ => .inl rfl)
    · rw [t.locked, decide_eq_true_eq] at held
      exact absurd held free
    · rw [t.volume, t.inum member] at wrong
      exact absurd wrong.2 live
  exact (done.and (ilock_gives t member)).mono fun _ _ both => ⟨both.2.2, both.1⟩

theorem ilock_during (t : During held locks v s₀ s) (member : (ip, i) ∈ held) (free : ip ∉ locks)
    (live : (v.inode i).type ≠ 0) :
    Ends (ilock ip) s E fun _ s' => During held (ip :: locks) v s₀ s' :=
  ilock_new t.toTable (fun b _ => t.sure b) member free live

theorem iunlock_during (t : During held (ip :: locks) v s₀ s) (once : ip ∉ locks) :
    Ends (iunlock ip) s E fun _ s' => During held locks v s₀ s' := by
  have done : Ends (iunlock ip) s E fun _ s' => ∀ b, Sure v s' b := by
    unfold iunlock
    have used := t.used (t.owned (List.mem_cons_self ..))
    have locked := (t.locked ip).trans (decide_eq_true (List.mem_cons_self ..))
    refine Ends.bind_run (rfl : (get : FsM Fs) s = .ok (s, s)) (Ends.ite (fun wrong => ?_) fun _ =>
      Ends.modify (Sure.set (fun b _ => t.sure b) fun _ => t.sure ip used))
    rw [locked] at wrong
    rcases wrong with wrong | none
    · cases wrong
    · omega
  exact (done.and (iunlock_gives t.toTable once)).mono fun _ _ both => ⟨both.2, both.1⟩

theorem iput_during (t : During ((ip, i) :: held) locks v s₀ s)
    (owned : ip ∈ locks → ip ∈ held.map Prod.fst) (live : Live held v s₀ i) :
    Ends (iput ip) s E fun _ s' => During held locks v s₀ s' := by
  have used := t.used (Table.mem (List.mem_cons_self ..))
  have done : Ends (iput ip) s E fun _ s' => ∀ b, Sure v s' b := by
    unfold iput
    refine Ends.bind_run (rfl : (get : FsM Fs) s = .ok (s, s)) ?_
    dsimp only
    rw [if_neg (live.linked t.toTable)]
    exact Ends.modify (Sure.set (fun b _ => t.sure b) fun _ => t.sure ip used)
  exact (done.and (iput_gives t.toTable owned live)).mono fun _ _ both => ⟨both.2, both.1⟩

theorem iunlockput_during (t : During ((ip, i) :: held) (ip :: locks) v s₀ s) (once : ip ∉ locks)
    (live : Live held v s₀ i) :
    Ends (iunlockput ip) s E fun _ s' => During held locks v s₀ s' :=
  (iunlock_during t once).bind fun _ _ unlocked => iput_during unlocked
    (fun member => absurd member once) live

/-- The last reference to an inode without links. -/
theorem iput_run (last : (s.inode ip).ref = 1) (valid : (s.inode ip).valid = true)
    (unlinked : (s.volume.inode (s.inode ip).inum).nlink = 0)
    (unlocked : (s.inode ip).locked = false) (run : s.volume.iputFree (s.inode ip).inum = .ok v') :
    iput ip s = .ok ((), { s with
      volume := v', inode := update s.inode ip { s.inode ip with ref := 0, valid := false } }) := by
  have freed : free ip s = .ok ((),
    { s with volume := v', inode := update s.inode ip { s.inode ip with valid := false } }) := by
    unfold free
    unfold Volume.iputFree at run
    cases step : s.volume.itrunc (s.inode ip).inum with
    | error message =>
      rw [step] at run
      cases run
    | ok w =>
      rw [step] at run
      cases run
      simp [bind, StateT.bind, get, getThe, MonadStateOf.get, StateT.get, pure, Except.bind, Except.pure,
        unlocked, onVolume, zoom, step,
        setEntry, modify, modifyGet, MonadStateOf.modifyGet, StateT.modifyGet]
  unfold iput
  simp [bind, StateT.bind, get, getThe, MonadStateOf.get, StateT.get, pure, Except.bind, Except.pure,
    last, valid, unlinked, freed,
    setEntry, modify, modifyGet, MonadStateOf.modifyGet, StateT.modifyGet]

/-- A reference is given up, and the inode with it if it was the last one and there are no links. -/
theorem iput_drops (t : During ((ip, i) :: held) locks v s₀ s) (once : ip ∉ locks) (cons : v.Consistent) :
    Ends (iput ip) s E fun _ s' => Live held v s₀ i ∧ During held locks v s₀ s' ∨
      ¬Live held v s₀ i ∧ ∃ v', v.iputFree i = .ok v' ∧ During held locks v' s₀ s' := by
  by_cases live : Live held v s₀ i
  · exact (iput_during t (fun member => absurd member once) live).mono fun _ _ t => .inl ⟨live, t⟩
  obtain ⟨linked, base, more⟩ : (v.inode i).nlink = 0 ∧
    (¬∃ b, 0 < (s₀.inode b).ref ∧ (s₀.inode b).inum = i) ∧ i ∉ held.map Prod.snd := by
    unfold Live at live
    rw [not_or, not_or, not_not] at live
    exact live
  have inum := t.inum (List.mem_cons_self ..)
  have count := t.ref ip
  rw [List.map_cons, List.count_cons_self] at count
  have absent : ip ∉ held.map Prod.fst := fun member => by
    obtain ⟨⟨c, j⟩, listed, rfl⟩ := List.mem_map.mp member
    exact more (List.mem_map.mpr ⟨_, listed, (t.inum (List.mem_cons_of_mem _ listed)).symm.trans inum⟩)
  have unused : (s₀.inode ip).ref = 0 := by
    by_contra used
    exact base ⟨ip, Nat.pos_of_ne_zero used, (t.old (Nat.pos_of_ne_zero used)).symm.trans inum⟩
  rw [unused, List.count_eq_zero.mpr absent] at count
  have valid : (s.inode ip).valid = true := by
    rcases t.sure ip (by omega) with valid | some
    · exact valid
    · rw [inum] at some
      exact absurd linked some
  obtain ⟨v', run, -, only, -⟩ := free_only (d := i) cons
  have freed : s.volume.iputFree (s.inode ip).inum = .ok v' := by rw [t.volume, inum, run]
  have whole := iput_run count valid (by rw [t.volume, inum, linked])
    ((t.locked ip).trans (decide_eq_false once)) freed
  refine Ends.of_run whole (.inr ⟨live, v', run, ?_, fun b => ?_⟩)
  · have less : (0 : Nat) = (s.inode ip).ref - 1 := by omega
    exact (t.toTable.setVolume v').drop (e := { s.inode ip with ref := 0, valid := false }) less
      rfl rfl fun member => absurd member once
  · unfold Sure
    dsimp only
    by_cases here : b = ip
    · rw [here, update_self]
      exact fun wrong => absurd wrong (Nat.lt_irrefl 0)
    · rw [update_of_ne here]
      intro used
      have apart : (s.inode b).inum ≠ i :=
        fun same => here (t.unique b ip used (by omega) (same.trans inum.symm))
      rw [(only _ apart).1]
      exact t.sure b used

theorem iunlockput_drops (t : During ((ip, i) :: held) (ip :: locks) v s₀ s) (once : ip ∉ locks)
    (cons : v.Consistent) :
    Ends (iunlockput ip) s E fun _ s' => Live held v s₀ i ∧ During held locks v s₀ s' ∨
      ¬Live held v s₀ i ∧ ∃ v', v.iputFree i = .ok v' ∧ During held locks v' s₀ s' :=
  (iunlock_during t once).bind fun _ _ unlocked => iput_drops unlocked once cons

/-! ### Names -/

theorem onVolume_during {α : Type} {m : Volume → Except String (α × Volume)} {a : α}
    (t : During held locks v s₀ s)
    (run : m v = .ok (a, v')) (links : ∀ i, (v.inode i).nlink ≠ 0 → (v'.inode i).nlink ≠ 0) :
    Ends (onVolume m) s E fun r s' => r = a ∧ During held locks v' s₀ s' := by
  refine Ends.of_run (?_ : _ = Except.ok (a, { s with volume := v' })) ⟨rfl, t.setLinked v' links⟩
  unfold onVolume zoom
  rw [t.volume, run]

theorem dirlookup_during (t : During held locks v s₀ s) (member : (dp, d) ∈ held) (cons : v.Consistent)
    (dir : Directory v d) (name : Bytes)
    (linked : ∀ i, child v d (nameKey name) = some i → (v.inode i).nlink ≠ 0) :
    Ends (Namei.dirlookup dp name) s Full fun r s' => child v d (nameKey name) = none ∧ r = none ∧
    During held locks v s₀ s' ∨
      ∃ i ip, child v d (nameKey name) = some i ∧ r = some ip ∧ During ((ip, i) :: held) locks v s₀ s' := by
  unfold Namei.dirlookup
  refine Ends.bind_run (rfl : (get : FsM Fs) s = .ok (s, s)) ?_
  rw [t.inum member]
  have found := dirlookup_child name cons dir.dir dir.full dir.aligned
  rcases found with ⟨none, run⟩ | ⟨k, -, -, some, run⟩
  · refine (onVolume_during t run fun _ => id).bind fun r s₁ looked => ?_
    obtain ⟨rfl, t₁⟩ := looked
    exact Ends.pure (.inl ⟨none, rfl, t₁⟩)
  · refine (onVolume_during t run fun _ => id).bind fun r s₁ looked => ?_
    obtain ⟨rfl, t₁⟩ := looked
    refine (iget_during t₁ (linked _ some)).bind fun ip s₂ took => Ends.pure (.inr ⟨_, ip, some, rfl, took⟩)

/-- The entry that is found is given with its position. -/
theorem dirlookupOff_during {m : Name → Nat} (t : During held locks v s₀ s) (member : (dp, d) ∈ held)
    (walk : Walkable v) (dir : IsDir v d)
    (ok : DirOk v d m) (name : Bytes) :
    Ends (dirlookupOff dp name) s Full fun r s' => child v d (nameKey name) = none ∧ r = none ∧
    During held locks v s₀ s' ∨
      ∃ k ip, k < v.count d ∧ v.inum d k ≠ 0 ∧ v.name d k = nameKey name ∧
      child v d (nameKey name) = some (v.inum d k) ∧
        r = some (ip, direntSize * k) ∧ During ((ip, v.inum d k) :: held) locks v s₀ s' := by
  unfold dirlookupOff
  refine Ends.bind_run (rfl : (get : FsM Fs) s = .ok (s, s)) ?_
  rw [t.inum member]
  rcases ok.lookup walk.cons name with ⟨k, below, hit, value, some, run⟩ | ⟨none, -, run⟩
  · have here : child v d (nameKey name) = .some (v.inum d k) := by rw [child_eq ok, if_neg some, value]
    refine (onVolume_during t run fun _ => id).bind fun r s₁ looked => ?_
    obtain ⟨rfl, t₁⟩ := looked
    rw [value]
    refine (iget_during t₁ (walk.child dir here).2).bind fun ip s₂ took => Ends.pure ?_
    exact .inr ⟨k, ip, below, hit.1, hit.2, here, rfl, took⟩
  · refine (onVolume_during t run fun _ => id).bind fun r s₁ looked => ?_
    obtain ⟨rfl, t₁⟩ := looked
    exact Ends.pure (.inl ⟨by rw [child_eq ok, if_pos none], rfl, t₁⟩)

/-- `dirlink` fails if the name is there, and otherwise adds an entry or fails. -/
theorem dirlink_during {start inum : Nat} (t : During held locks v s₀ s) (member : (dp, d) ∈ held)
    (cons : v.Consistent) (tight : Tight start v)
    (full : ∀ e, (v.inode e).type ≠ 0 → v.NoHoles e) (dir : Directory v d) (name : Bytes)
    (linked : ∀ i, child v d (nameKey name) = some i → (v.inode i).nlink ≠ 0)
    (small : 0 < inum ∧ inum < 65536) :
    Ends (Sysfile.dirlink dp name inum) s Full fun r s' => child v d (nameKey name) ≠ none ∧ r = -1 ∧
    During held locks v s₀ s' ∨
      child v d (nameKey name) = none ∧ ∃ v', addEntry v d name inum = .ok (r, v') ∧
      Entered start d (nameKey name) inum v r v' ∧ During held locks v' s₀ s' := by
  unfold Sysfile.dirlink
  refine (dirlookup_during t member cons dir name linked).bind fun r s₁ looked => ?_
  rcases looked with ⟨none, rfl, t₁⟩ | ⟨i, ip, some, rfl, t₁⟩
  · refine Ends.bind_run (rfl : (get : FsM Fs) s₁ = .ok (s₁, s₁)) ?_
    rw [t₁.inum member]
    obtain ⟨r, v', run, entered⟩ := addEntry_entered tight cons full dir none small
    refine (onVolume_during t₁ run fun e linked => by rwa [entered.nlinks]).mono fun r' s₂ both => ?_
    obtain ⟨rfl, t₂⟩ := both
    exact .inr ⟨none, v', run, entered, t₂⟩
  · refine (iput_during t₁ t.owned (.inl (linked i some))).bind fun _ s₂ t₂ => Ends.pure (.inl ⟨?_, rfl, t₂⟩)
    rw [some]
    exact Option.some_ne_none i

/-- What a path leads to from an inode on, or the directory for its last name. -/
def target (nameiparent : Bool) (v : Volume) (i : Nat) (path : List UInt8) : Option Nat :=
  if nameiparent then parent v i (components path) else follow v i (components path)

theorem target_cons {nameiparent : Bool} {path rest c : List UInt8}
    (parts : components path = c :: components rest)
    (more : nameiparent = true → components rest ≠ []) :
    target nameiparent v d path = (child v d (c.take DIRSIZ)).bind fun i => target nameiparent v i rest := by
  unfold target
  rw [parts]
  cases nameiparent with
  | true =>
    obtain ⟨c', cs, rest⟩ := List.exists_cons_of_ne_nil (more rfl)
    rw [if_pos rfl, rest, parent_cons]
    rfl
  | false => rfl

/-- What `namex` gives: nothing, or an inode with a reference to it. -/
def Walked (nameiparent : Bool) (held : List (Namei.Slot × Nat)) (v : Volume) (s₀ : Fs) (i : Nat)
    (path : List UInt8)
    (r : Option Namei.Slot × Bytes) (s : Fs) : Prop :=
  r.1 = none ∧ target nameiparent v i path = none ∧ During held [] v s₀ s ∨
  ∃ ip j, r.1 = some ip ∧ target nameiparent v i path = some j ∧ Named v j ∧
  During ((ip, j) :: held) [] v s₀ s ∧
    (nameiparent = true → IsDir v j ∧ nameKey r.2 = lastName path)

theorem Walked.step {nameiparent : Bool} {path rest c : List UInt8} {r : Option Namei.Slot × Bytes}
    (walked : Walked nameiparent held v s₀ i rest r s)
    (here : child v d (c.take DIRSIZ) = some i) (parts : components path = c :: components rest)
    (more : nameiparent = true → components rest ≠ []) : Walked nameiparent held v s₀ d path r s := by
  have leads : target nameiparent v d path = target nameiparent v i rest := by
    rw [target_cons parts more, here, Option.bind_some]
  rcases walked with ⟨none, missing, t⟩ | ⟨ip, j, some, found, named, t, last⟩
  · exact .inl ⟨none, leads.trans missing, t⟩
  · refine .inr ⟨ip, j, some, leads.trans found, named, t, fun stop => ⟨(last stop).1, ?_⟩⟩
    obtain ⟨c', cs, same⟩ := List.exists_cons_of_ne_nil (more stop)
    rw [(last stop).2]
    unfold lastName
    rw [parts, same, List.getLastD_cons, List.getLastD_cons, List.getLastD_cons]

theorem namexLoop_during (walk : Walkable v) (nameiparent : Bool) (fuel : Nat)
    (path : List UInt8) (name : Bytes)
    (t : During ((ip, i) :: held) [] v s₀ s) (named : Named v i) (nonzero : ∀ b ∈ path, b ≠ 0)
    (enough : path.length < fuel) :
    Ends (namexLoop nameiparent fuel path name ip) s Full fun r s' => Walked nameiparent held v
    s₀ i path r s' := by
  induction fuel generalizing path name ip i s with
  | zero => omega
  | succ fuel ih =>
    unfold namexLoop
    have drop {s₁ : Fs} (t : During ((ip, i) :: held) [ip] v s₀ s₁) :
      Ends (iunlockput ip) s₁ Full fun _ s' => During held [] v s₀ s' :=
      iunlockput_during t List.not_mem_nil (.inl named.2)
    obtain ⟨elem, none⟩ | ⟨c, rest, name', elem, parts, last, shorter, suffix, key⟩ := skipelem_spec path name
    · rw [elem]
      dsimp only
      cases nameiparent with
      | true =>
        refine Ends.ite (fun _ => ?_) fun wrong => absurd rfl wrong
        refine (iput_during t (fun member => absurd member List.not_mem_nil) (.inl named.2)).bind
          fun _ s₁ t => Ends.pure (.inl ⟨rfl, ?_, t⟩)
        unfold target
        rw [none]
        rfl
      | false =>
        refine Ends.ite (fun wrong => (by cases wrong)) fun _ => Ends.pure
          (.inr ⟨ip, i, rfl, ?_, named, t, fun wrong => (by cases wrong)⟩)
        unfold target
        rw [none]
        rfl
    · rw [elem]
      dsimp only
      refine (ilock_during t (List.mem_cons_self ..) List.not_mem_nil named.1).bind fun _ s₁ t₁ => ?_
      refine Ends.bind_run (rfl : (get : FsM Fs) s₁ = .ok (s₁, s₁)) ?_
      rw [t₁.volume, t₁.inum (List.mem_cons_self ..)]
      have key := key nonzero
      refine Ends.ite (fun file => ?_) fun isDir => Ends.ite (fun stop => ?_) fun onward => ?_
      · refine (drop t₁).bind fun _ s₂ t₂ => Ends.pure (.inl ⟨rfl, ?_, t₂⟩)
        unfold target
        rw [parts, parent_file file, follow_none (child_file file _), ite_self]
      · obtain ⟨rfl, rfl⟩ := stop
        refine (iunlock_during t₁ List.not_mem_nil).bind fun _ s₂ t₂ => Ends.pure ?_
        refine .inr ⟨ip, i, rfl, ?_, named, t₂, fun _ => ⟨⟨not_not.mp isDir, named.2⟩, ?_⟩⟩
        · unfold target
          rw [parts, components_nil, if_pos rfl, parent, if_pos (not_not.mp isDir)]
        · unfold lastName
          rw [parts, components_nil, key]
          rfl
      · have more : nameiparent = true → components rest ≠ [] := fun stop none => onward ⟨stop, last.mpr none⟩
        have dir : IsDir v i := ⟨not_not.mp isDir, named.2⟩
        refine (dirlookup_during t₁ (List.mem_cons_self ..) walk.cons (walk.dirs dir) name' fun _ here =>
          (walk.child dir here).2).bind fun r s₂ looked => ?_
        rw [key] at looked
        rcases looked with ⟨missing, rfl, t₂⟩ | ⟨j, next, some, rfl, t₂⟩
        · refine (drop t₂).bind fun _ s₃ t₃ => Ends.pure (.inl ⟨rfl, ?_, t₃⟩)
          rw [target_cons parts more, missing, Option.bind_none]
        · have swapped := t₂.congr (List.Perm.swap ..) fun _ => Iff.rfl
          refine (iunlockput_during swapped List.not_mem_nil (.inl named.2)).bind fun _ s₃ t₃ => ?_
          refine (ih rest name' t₃ (walk.child dir some) (fun b member => nonzero b (suffix.subset member))
            (by omega)).mono fun r s₄ walked => ?_
          exact walked.step some parts more

/-- A path that does not start in a directory that has been removed. -/
def Startable (s : Fs) (path : List UInt8) : Prop := path.head? = some slash ∨
    (s.volume.inode (s.inode s.cwd).inum).nlink ≠ 0

theorem namex_during (walk : Walkable v) (path : List UInt8) (nameiparent : Bool) (name : Bytes)
    (t : During held [] v s₀ s)
    (nonzero : ∀ b ∈ path, b ≠ 0) (root : Named v ROOTINO) (cwd : 0 < (s.inode s.cwd).ref ∧
      (v.inode (s.inode s.cwd).inum).type ≠ 0)
    (start : Startable s path) : Ends (namex path nameiparent name) s Full fun r s' =>
    Walked nameiparent held v s₀ (s.start path) path r s' := by
  unfold namex Fs.start
  by_cases absolute : path.head? = some slash
  · rw [if_pos absolute, if_pos absolute]
    refine (iget_during t root.2).bind fun ip s₁ t₁ => ?_
    exact namexLoop_during walk nameiparent _ path name t₁ root nonzero (Nat.lt_succ_self _)
  · rw [if_neg absolute, if_neg absolute]
    have linked : (v.inode (s.inode s.cwd).inum).nlink ≠ 0 := t.volume ▸ start.resolve_left absolute
    refine Ends.bind_run (rfl : (get : FsM Fs) s = .ok (s, s))
      ((idup_during t cwd.1).bind fun ip s₁ took => ?_)
    obtain ⟨rfl, t₁⟩ := took
    exact namexLoop_during walk nameiparent _ path name t₁ ⟨cwd.2, linked⟩ nonzero (Nat.lt_succ_self _)

end Steps

end Xv6.Sysfile.Links
