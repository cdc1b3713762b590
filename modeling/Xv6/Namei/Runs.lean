import Xv6.Namei.Table

/-! `namei` and `nameiparent` find what the path leads to. -/

namespace Xv6.Namei
open Function Content

/-- A directory tree: directories have no holes and their entries are of inodes that are allocated, as are the
root and the directory of the process, to which it has a reference. -/
structure Tree (s : Fs) : Prop where
  cons : s.volume.Consistent
  full {d} : (s.volume.inode d).type = T_DIR → s.volume.NoHoles d
  aligned {d} : (s.volume.inode d).type = T_DIR → (s.volume.inode d).size % direntSize = 0
  entries {d k} : (s.volume.inode d).type = T_DIR → k < s.volume.count d → s.volume.inum d k ≠ 0 →
    s.Present (s.volume.inum d k)
  root : s.Present ROOTINO
  cwd : 0 < (s.inode s.cwd).ref ∧ s.Present (s.inode s.cwd).inum
  unlocked (b) : (s.inode b).locked = false
  unique : s.Unique

section Runs

variable {s₀ s s' : Fs} {v : Volume} {refs : List Slot} {lock : Option Slot} {ip : Slot} {d i : Nat}
  {E : String → Prop}

/-- `dirlookup` finds the first entry with the name. -/
theorem dirlookup_child (wanted : Bytes) (cons : v.Consistent) (dir : (v.inode d).type = T_DIR)
    (full : v.NoHoles d)
    (aligned : (v.inode d).size % direntSize = 0) :
    child v d (nameKey wanted) = none ∧ v.dirlookup d wanted = .ok (none, v) ∨
      ∃ k < v.count d, v.inum d k ≠ 0 ∧ child v d (nameKey wanted) = some (v.inum d k) ∧
        v.dirlookup d wanted = .ok (some (v.inum d k, direntSize * k), v) := by
  have size := Volume.count_le_size (s := v) (d := d)
  unfold child Volume.dirlookup
  rw [if_pos dir, if_neg (not_not.mpr dir)]
  cases found : (List.range (v.count d)).find? fun k => decide (v.inum d k ≠ 0 ∧
    v.name d k = nameKey wanted) with
  | none =>
    simp only [List.find?_range_eq_none, Bool.not_eq_true', decide_eq_false_iff_not] at found
    exact .inl ⟨rfl, Volume.lookupLoop_none (j := 0) cons aligned
      (fun l _ below => full.readable aligned below)
      fun l _ below => found l below⟩
  | some k =>
    simp only [List.find?_range_eq_some, decide_eq_true_eq, List.mem_range, Bool.not_eq_true',
      decide_eq_false_iff_not] at found
    obtain ⟨hit, below, first⟩ := found
    refine .inr ⟨k, below, hit.1, rfl, ?_⟩
    exact Volume.lookupLoop_found (j := 0) cons (Nat.zero_le k)
      (fun l _ upper => full.readable aligned (by omega)) hit
      (fun l _ before => first l before) (by omega)

theorem onVolume_run {α : Type} {m : Volume → Except String (α × Volume)} {a : α}
    (run : m s.volume = .ok (a, s.volume)) :
    onVolume m s = .ok (a, s) := by
  unfold onVolume zoom
  rw [run]

/-- `dirlookup` with the reference that it takes. -/
theorem dirlookup_ends (tree : Tree s₀) (holds : Holds refs lock s₀ s) (name : Bytes)
    (dir : (s₀.volume.inode (s.inode ip).inum).type = T_DIR)
    (full : ∀ i, child s₀.volume (s.inode ip).inum (nameKey name) = some i → ¬Admits s.entered i →
      E "iget: no inodes") :
    Ends (dirlookup ip name) s E fun r s' => child s₀.volume (s.inode ip).inum (nameKey name) = none ∧
    r = none ∧ s' = s ∨
      ∃ i next, child s₀.volume (s.inode ip).inum (nameKey name) = some i ∧ r = some next ∧ s₀.Present i ∧
      Admits s.entered i ∧
        Holds (next :: refs) lock s₀ s' ∧ (s'.inode next).inum = i ∧
        ∀ b, 0 < (s.inode b).ref → (s'.inode b).inum = (s.inode b).inum := by
  unfold dirlookup
  refine Ends.bind_run (rfl : (get : FsM Fs) s = .ok (s, s)) ?_
  have found := dirlookup_child name tree.cons dir (tree.full dir) (tree.aligned dir)
  have present {k : Nat} := @Tree.entries s₀ tree (s.inode ip).inum k dir
  rw [← holds.volume] at found present full ⊢
  rcases found with ⟨none, run⟩ | ⟨k, below, live, some, run⟩
  · exact Ends.bind_run (onVolume_run run) (.inl ⟨none, rfl, rfl⟩)
  · refine Ends.bind_run (onVolume_run run) ((iget_ends holds (full _ some)).bind fun next s' got => ?_)
    exact .inr ⟨_, next, some, rfl, present below live, got⟩

/-- The names of a path that are looked up: with `nameiparent` all but the last. -/
def looked (nameiparent : Bool) (path : List UInt8) : List (List UInt8) :=
  if nameiparent then (components path).dropLast else components path

/-- What `namex` gives from a directory on: the entry of the inode that the path leads to, or of the directory
for its last name, which is then in `name`. -/
structure Found (nameiparent : Bool) (s₀ : Fs) (d : Nat) (path : List UInt8) (r : Option Slot × Bytes)
    (s : Fs) : Prop where
  holds : Holds r.1.toList none s₀ s
  inode : r.1.map (fun ip => (s.inode ip).inum) =
    if nameiparent then parent s₀.volume d (components path) else follow s₀.volume d (components path)
  name : nameiparent = true → r.1 ≠ none → nameKey r.2 = ((components path).getLastD []).take DIRSIZ
  passes : s₀.Passes d (looked nameiparent path)

theorem looked_cons {nameiparent : Bool} {path rest c : List UInt8}
    (parts : components path = c :: components rest)
    (more : nameiparent = true → components rest ≠ []) :
    looked nameiparent path = c :: looked nameiparent rest := by
  unfold looked
  rw [parts]
  cases nameiparent with
  | true => exact List.dropLast_cons_of_ne_nil (more rfl)
  | false => rfl

/-- One name is followed. -/
theorem Found.step {nameiparent : Bool} {path rest c : List UInt8} {r : Option Slot × Bytes}
    (found : Found nameiparent s₀ i rest r s)
    (some : child s₀.volume d (c.take DIRSIZ) = some i) (parts : components path = c :: components rest)
    (more : nameiparent = true → components rest ≠ []) (admits : Admits (insert d s₀.entered) i) :
    Found nameiparent s₀ d path r s := by
  refine ⟨found.holds, ?_, fun stop some => ?_, ?_⟩
  · rw [found.inode, parts]
    cases nameiparent with
    | true =>
      obtain ⟨c', cs, rest⟩ := List.exists_cons_of_ne_nil (more rfl)
      rw [if_pos rfl, if_pos rfl, rest, parent_cons, some, Option.bind_some]
    | false => rw [if_neg nofun, if_neg nofun, follow, some, Option.bind_some]
  · obtain ⟨c', cs, rest⟩ := List.exists_cons_of_ne_nil (more stop)
    rw [found.name stop some, parts, rest, List.getLastD_cons, List.getLastD_cons, List.getLastD_cons]
  · rw [looked_cons parts more]
    intro j there
    obtain rfl := Option.some.inj (some.symm.trans there)
    exact ⟨admits, found.passes⟩

/-- Nothing is found. -/
theorem Found.none {nameiparent : Bool} {path rest c : List UInt8}
    (holds : Holds [] .none s₀ s) (name : Bytes)
    (parts : components path = c :: components rest)
    (missing : (if nameiparent then parent s₀.volume d (components
      path) else follow s₀.volume d (components path)) = .none)
    (absent : nameiparent = true ∧ components rest = [] ∨ child s₀.volume d (c.take DIRSIZ) = .none) :
    Found nameiparent s₀ d path (.none, name) s := by
  refine ⟨holds, missing.symm, fun _ some => absurd rfl some, ?_⟩
  by_cases last : nameiparent = true ∧ components rest = []
  · obtain ⟨rfl, last⟩ := last
    unfold looked
    rw [parts, last]
    trivial
  · rw [looked_cons parts fun stop none => last ⟨stop, none⟩]
    intro i some
    rw [absent.resolve_left last] at some
    cases some

theorem namexLoop_ends (tree : Tree s₀) (nameiparent : Bool) (fuel : Nat) (path : List UInt8) (name : Bytes)
    (holds : Holds [ip] none s₀ s) (present : s₀.Present (s.inode ip).inum) (nonzero : ∀ b ∈ path, b ≠ 0)
    (enough : path.length < fuel) (full : ¬s₀.Passes (s.inode ip).inum (looked nameiparent path) →
      E "iget: no inodes") :
    Ends (namexLoop nameiparent fuel path name ip) s E fun r s' => Found nameiparent s₀
    (s.inode ip).inum path r s' := by
  induction fuel generalizing path name ip s with
  | zero => omega
  | succ fuel ih =>
    have used : 0 < (s.inode ip).ref := by
      rw [holds.ref, List.count_singleton_self]
      omega
    unfold namexLoop
    obtain ⟨elem, none⟩ | ⟨c, rest, name', elem, parts, last, shorter, suffix, key⟩ := skipelem_spec path name
    · rw [elem]
      dsimp only
      cases nameiparent with
      | true =>
        refine Ends.ite (fun _ => ?_) fun wrong => absurd rfl wrong
        refine (iput_ends holds present).bind fun _ s₁ dropped => Ends.pure ⟨dropped.1, ?_,
          fun _ some => absurd rfl some, ?_⟩
        · rw [none]
          rfl
        · unfold looked
          rw [none]
          trivial
      | false =>
        refine Ends.ite (fun wrong => (by cases wrong)) fun _ => Ends.pure ⟨holds, ?_,
          fun wrong => (by cases wrong), ?_⟩
        · rw [none]
          rfl
        · unfold looked
          rw [none]
          trivial
    · rw [elem]
      dsimp only
      refine (ilock_ends holds used (holds.volume ▸ present.1)).bind fun _ s₁ entered => ?_
      obtain ⟨locked, same⟩ := entered
      refine Ends.bind_run (rfl : (get : FsM Fs) s₁ = .ok (s₁, s₁)) ?_
      have used₁ : 0 < (s₁.inode ip).ref := by
        rw [locked.ref, ← holds.ref]
        exact used
      rw [same, locked.volume]
      have key := key nonzero
      refine Ends.ite (fun file => ?_) fun dir => Ends.ite (fun stop => ?_) fun onward => ?_
      · refine (iunlockput_ends locked (same ip ▸ present)).bind fun _ s₂ dropped => Ends.pure
          (.none dropped.1 _ parts ?_ (.inr (child_file file _)))
        rw [parts, parent_file file, follow_none (child_file file _), ite_self]
      · obtain ⟨rfl, rfl⟩ := stop
        refine (iunlock_ends locked used₁).bind fun _ s₂ left => Ends.pure ⟨left.1, ?_, fun _ _ => ?_, ?_⟩
        · rw [parts, components_nil, if_pos rfl, parent, if_pos (not_not.mp dir),
            Option.map_some, left.2, same]
        · rw [parts, components_nil, key]
          rfl
        · unfold looked
          rw [parts, components_nil]
          trivial
      · have more : nameiparent = true → components rest ≠ [] := fun stop none => onward ⟨stop, last.mpr none⟩
        have names := looked_cons parts more
        have entered := locked.entered
        rw [same] at entered
        -- where `iget` stops, the way from here on does not pass
        have stuck (i : Nat) (some : child s₀.volume (s₁.inode ip).inum (nameKey name') = some i)
          (out : ¬Admits s₁.entered i) :
            E "iget: no inodes" := by
          rw [same, key] at some
          refine full fun passes => out ?_
          rw [names] at passes
          rw [entered]
          exact (passes i some).1
        refine (dirlookup_ends tree locked name' (same ip ▸ not_not.mp dir) stuck).bind fun r s₂ found => ?_
        rw [same, key, entered] at found
        rcases found with ⟨missing, rfl, rfl⟩ | ⟨i, next, some, rfl, there, admits, took, inum, kept⟩
        · refine (iunlockput_ends locked (same ip ▸ present)).bind fun _ s₃ dropped =>
            Ends.pure (.none dropped.1 _ parts ?_ (.inr missing))
          rw [parts]
          cases nameiparent with
          | true => rw [if_pos rfl, parent_none missing (more rfl)]
          | false => rw [if_neg Bool.false_ne_true, follow_none missing]
        · have present₂ : s₀.Present (s₂.inode ip).inum := by
            rw [kept ip used₁, same]
            exact present
          refine (iunlockput_ends (took.perm (List.Perm.swap ip next [])) present₂).bind fun _ s₃ left => ?_
          obtain ⟨dropped, same'⟩ := left
          have inum' : (s₃.inode next).inum = i := (same' next).trans inum
          have stuck' (out : ¬s₀.Passes (s₃.inode next).inum (looked nameiparent rest)) :
            E "iget: no inodes" := by
            refine full fun passes => out ?_
            rw [names] at passes
            rw [inum']
            exact (passes i some).2
          refine (ih rest name' dropped (inum' ▸ there) (fun b member => nonzero b (suffix.subset member))
            (by omega) stuck').mono
            fun r s₄ found => ?_
          rw [inum'] at found
          exact found.step some parts more admits

/-- Where a path starts. -/
def Fs.start (s : Fs) (path : List UInt8) : Nat :=
  if path.head? = some slash then ROOTINO else (s.inode s.cwd).inum

/-- The root, if the path starts there, and each inode that is looked up on the way has an entry, or one is
free for it. -/
def Fs.Fits (s : Fs) (nameiparent : Bool) (path : List UInt8) : Prop :=
  (path.head? = some slash → Admits s.entered ROOTINO) ∧ s.Passes (s.start path) (looked nameiparent path)

theorem namex_fits (tree : Tree s) (path : List UInt8) (nameiparent : Bool) (name : Bytes)
    (nonzero : ∀ b ∈ path, b ≠ 0)
    (full : ¬s.Fits nameiparent path → E "iget: no inodes") :
    Ends (namex path nameiparent name) s E fun r s' => Found nameiparent s (s.start path) path r s' ∧
    s.Fits nameiparent path := by
  have start := Holds.refl tree.unlocked tree.unique
  unfold Fs.Fits Fs.start at full
  unfold namex Fs.Fits Fs.start
  by_cases root : path.head? = some slash
  · rw [if_pos root] at full
    rw [if_pos root, if_pos root]
    refine (iget_ends start fun out => full fun fits => out (fits.1 root)).bind fun ip s₁ ⟨admits,
      took, inum, _⟩ => ?_
    rw [← inum] at full ⊢
    refine (namexLoop_ends tree nameiparent _ path name took (inum ▸ tree.root) nonzero (Nat.lt_succ_self _)
      fun out => full fun fits => out fits.2).mono fun r s' found => ⟨found, fun _ => ?_, found.passes⟩
    rw [inum]
    exact admits
  · rw [if_neg root] at full
    rw [if_neg root, if_neg root]
    refine Ends.bind_run (rfl : (get : FsM Fs) s = .ok (s, s))
      ((idup_ends start tree.cwd.1).bind fun ip s₁ ⟨same, took, inum⟩ => ?_)
    rw [← inum] at full
    rw [same, ← inum]
    exact (namexLoop_ends tree nameiparent _ path name took (inum s.cwd ▸ tree.cwd.2) nonzero
      (Nat.lt_succ_self _)
      fun out => full fun fits => out fits.2).mono fun r s' found => ⟨found, fun start =>
      absurd start root, found.passes⟩

theorem namei_fits (tree : Tree s) (path : List UInt8) (nonzero : ∀ b ∈ path, b ≠ 0)
    (full : ¬s.Fits false path → E "iget: no inodes") :
    Ends (namei path) s E fun r s' => (Holds r.toList none s s' ∧
      r.map (fun ip => (s'.inode ip).inum) = follow s.volume (s.start path)
      (components path)) ∧ s.Fits false path :=
  (namex_fits tree path false (fun _ => 0) nonzero full).bind fun _ _ ⟨found, fits⟩ => Ends.pure
  ⟨⟨found.holds, found.inode⟩, fits⟩

theorem namex_ends (tree : Tree s) (path : List UInt8) (nameiparent : Bool) (name : Bytes)
    (nonzero : ∀ b ∈ path, b ≠ 0)
    (full : E "iget: no inodes") :
    Ends (namex path nameiparent name) s E fun r s' => Found nameiparent s (s.start path) path r s' :=
  (namex_fits tree path nameiparent name nonzero fun _ => full).mono fun _ _ => And.left

theorem namei_ends (tree : Tree s) (path : List UInt8) (nonzero : ∀ b ∈ path, b ≠ 0)
    (full : E "iget: no inodes") :
    Ends (namei path) s E fun r s' => Holds r.toList none s s' ∧
      r.map (fun ip => (s'.inode ip).inum) = follow s.volume (s.start path) (components path) :=
  (namei_fits tree path nonzero fun _ => full).mono fun _ _ => And.left

theorem Tree.child_present (tree : Tree s) {name : Name} (some : child s.volume d name = some i) :
    s.Present i := by
  unfold child at some
  split at some
  next dir =>
    obtain ⟨k, found, rfl⟩ := Option.map_eq_some_iff.mp some
    have hit := List.find?_some found
    exact tree.entries dir (List.mem_range.mp (List.mem_of_find?_eq_some found)) (of_decide_eq_true hit).1
  next => cases some

theorem Tree.follow_present (tree : Tree s) {cs : List (List UInt8)} (start : s.Present d)
    (some : follow s.volume d cs = some i) :
    s.Present i := by
  induction cs generalizing d with
  | nil =>
    obtain rfl := Option.some.inj some
    exact start
  | cons c cs ih =>
    obtain ⟨j, next, rest⟩ := Option.bind_eq_some_iff.mp some
    exact ih (tree.child_present next) rest

theorem Tree.start_present (tree : Tree s) (path : List UInt8) : s.Present (s.start path) := by
  unfold Fs.start
  split
  · exact tree.root
  · exact tree.cwd.2

theorem Fs.Present.kept (present : s.Present i) (holds : Holds [] none s s') : s'.Present i := by
  obtain ⟨type, linked | ⟨b, used, inum⟩⟩ := present
  · exact ⟨holds.volume ▸ type, .inl (holds.volume ▸ linked)⟩
  · refine ⟨holds.volume ▸ type, .inr ⟨b, ?_, (holds.inum used).trans inum⟩⟩
    rw [holds.ref]
    omega

/-- A directory tree stays one while no reference is added or dropped. -/
theorem Tree.kept (tree : Tree s) (holds : Holds [] none s s') : Tree s' where
  cons := holds.volume ▸ tree.cons
  full dir := by
    rw [holds.volume] at dir ⊢
    exact tree.full dir
  aligned dir := by
    rw [holds.volume] at dir ⊢
    exact tree.aligned dir
  entries dir below live := by
    rw [holds.volume] at dir below live ⊢
    exact (tree.entries dir below live).kept holds
  root := tree.root.kept holds
  cwd := by
    obtain ⟨used, present⟩ := tree.cwd
    rw [holds.cwd, holds.inum used, holds.ref]
    exact ⟨by omega, present.kept holds⟩
  unlocked b := holds.locked b
  unique := holds.unique

/-- `namei` gives the inode that the names of the path lead to, with one more reference to it and to no other,
and none exactly if one is missing. -/
def Resolves (s : Fs) (path : List UInt8) : Prop :=
  ∃ r s', namei path s = .ok (r, s') ∧ Holds r.toList none s s' ∧
    r.map (fun ip => (s'.inode ip).inum) = follow s.volume (s.start path) (components path) ∧
    (r = none ↔ Missing s.volume (s.start path) (components path))

/-- `nameiparent` gives the directory that all names but the last lead to, and the last one. -/
def ResolvesParent (s : Fs) (path : List UInt8) (name : Bytes) : Prop :=
  ∃ r name' s', nameiparent path name s = .ok ((r, name'), s') ∧ Holds r.toList none s s' ∧
    (components path = [] → r = none) ∧
    (components path ≠ [] → r.map (fun ip => (s'.inode ip).inum) =
      (follow s.volume (s.start path) (components path).dropLast).filter fun i =>
      (s.volume.inode i).type = T_DIR) ∧
    (r ≠ none → nameKey name' = ((components path).getLastD []).take DIRSIZ)

/-- For every path, `namei` and `nameiparent` give what the path leads to, exactly if each inode that is
looked up on the way has an entry in the inode table or one is free for it; otherwise the kernel stops. -/
theorem paths_resolve (tree : Tree s) (path : List UInt8) (nonzero : ∀ b ∈ path, b ≠ 0) (name : Bytes) :
    ((Resolves s path ↔ s.Fits false path) ∧ (¬s.Fits false path → namei path s = .error "iget: no inodes")) ∧
    (ResolvesParent s path name ↔ s.Fits true path) ∧ (¬s.Fits true path → nameiparent path name s =
      .error "iget: no inodes") := by
  constructor
  · have found := namei_fits (E := fun e => e = "iget: no inodes" ∧ ¬s.Fits false path) tree path
      nonzero fun full => ⟨rfl, full⟩
    unfold Ends at found
    unfold Resolves
    split at found
    next r s' run =>
      obtain ⟨⟨holds, inode⟩, fits⟩ := found
      refine ⟨⟨fun _ => fits, fun _ => ⟨r, s', run, holds, inode, ?_⟩⟩, fun out => absurd fits out⟩
      rw [← follow_none_iff, ← inode, Option.map_eq_none_iff]
    next e run =>
      obtain ⟨rfl, out⟩ := found
      refine ⟨⟨?_, fun fits => absurd fits out⟩, fun _ => run⟩
      rintro ⟨r, s', run', -⟩
      cases run.symm.trans run'
  · have found := namex_fits (E := fun e => e = "iget: no inodes" ∧ ¬s.Fits true path) tree path
      true name nonzero fun full => ⟨rfl, full⟩
    unfold Ends at found
    unfold ResolvesParent nameiparent
    split at found
    next r s' run =>
      obtain ⟨⟨holds, inode, last, -⟩, fits⟩ := found
      refine ⟨⟨fun _ => fits, fun _ => ⟨r.1, r.2, s', run, holds, fun none => ?_, fun some => ?_,
        last rfl⟩⟩, fun out => absurd fits out⟩
      · rw [none, if_pos rfl, parent, Option.map_eq_none_iff] at inode
        exact inode
      · rw [inode, if_pos rfl, parent_eq some]
    next e run =>
      obtain ⟨rfl, out⟩ := found
      refine ⟨⟨?_, fun fits => absurd fits out⟩, fun _ => run⟩
      rintro ⟨r, name', s', run', -⟩
      cases run.symm.trans run'

end Runs

/-- A root with an entry "a" for inode 51, which is a file like the inodes 2 to 50. -/
def oneEntry : Volume where
  size := 2000
  used b := b < 47
  block b := if b = 46 then (dirent 1 dot).splice 16 32 ((dirent 1 dotdot).splice 16 16
    (dirent 51 fun x => if x = 0 then 97 else 0))
    else fun _ => 0
  inode i :=
    if i = 1 then ⟨T_DIR, 1, 48, fun k => if k = 0 then 46 else 0⟩
    else ⟨if i ≤ 51 then T_FILE else 0, 1, 0, fun _ => 0⟩
  ballocs := 0
  logWrites := 0

/-- Inodes 1 to `n` are in use. -/
def busy (n : Nat) : Fs := ⟨oneEntry, fun b => ⟨b.val + 1, if b.val < n then 1 else 0, true, false⟩,
      ⟨0, NINODE_pos⟩⟩

theorem busy_tree {n : Nat} (some : 0 < n) : Tree (busy n) := by
  have slots (i l : Nat) (place : oneEntry.slot i l ≠ 0) : i = 1 ∧ l = 0 := by
    by_cases root : i = 1
    · by_cases first : l = 0
      · exact ⟨root, first⟩
      · exact absurd (by simp [Volume.slot, oneEntry, root, first, NDIRECT]) place
    · exact absurd (by simp [Volume.slot, oneEntry, root]) place
  have root {d : Nat} (dir : (oneEntry.inode d).type = T_DIR) : d = 1 := by
    by_contra other
    simp only [oneEntry, if_neg other] at dir
    split at dir <;> cases dir
  have present {i : Nat} (small : i ≤ 51) : (busy n).Present i := by
    by_cases root : i = 1 <;> simp [Fs.Present, busy, oneEntry, root, small, T_DIR, T_FILE]
  have entries : ∀ k < oneEntry.count 1, oneEntry.inum 1 k ≤ 51 := by decide
  exact {
    cons := by
      refine ⟨fun i l j m _ _ same place => ?_, fun i l _ place => ?_,
      (by decide : oneEntry.size ≤ 2 ^ 32), fun i => ?_⟩
      · obtain ⟨rfl, rfl⟩ := slots i l place
        obtain ⟨rfl, rfl⟩ := slots j m (same ▸ place)
        exact ⟨rfl, rfl⟩
      · obtain ⟨rfl, rfl⟩ := slots i l place
        exact (by decide : oneEntry.used (oneEntry.slot 1 0) = true)
      · by_cases root : i = 1 <;> simp [busy, oneEntry, root, MAXFILE, NDIRECT, NINDIRECT, BSIZE]
    full := fun dir bn inside => by
      obtain rfl := root dir
      have first : bn = 0 := by
        have size : ((busy n).volume.inode 1).size = 48 := rfl
        rw [size] at inside
        unfold BSIZE at inside
        omega
      rw [first]
      exact ⟨by decide, (by decide : oneEntry.slot 1 (dataSlot 0) ≠ 0)⟩
    aligned := fun dir => by
      obtain rfl := root dir
      exact (by decide : (oneEntry.inode 1).size % direntSize = 0)
    entries := fun dir below _ => by
      obtain rfl := root dir
      exact present (entries _ below)
    root := present (by decide)
    cwd := ⟨by simp [busy, some], present (by simp [busy])⟩
    unlocked := fun _ => rfl
    unique := fun b c _ _ same => Fin.ext (Nat.succ.inj same) }

/-- With all entries of the inode table in use, the inode of a name that is there is not given. -/
theorem namei_full : Tree (busy NINODE) ∧
    follow (busy NINODE).volume ((busy NINODE).start [97]) (components [97]) = some 51 ∧
    ¬Resolves (busy NINODE) [97] := by
  refine ⟨busy_tree (by decide), by decide +kernel, fun ⟨r, s', run, _⟩ => ?_⟩
  have stops : (namei [97] (busy NINODE)).toOption.isNone := by decide +kernel
  rw [run] at stops
  cases stops

/-- With a single entry left, it is. -/
theorem paths_resolve_a : Resolves (busy 49) [97] := by
  have tree : Tree (busy 49) := busy_tree (by decide)
  refine (paths_resolve tree [97] (by decide +kernel) fun _ => 0).1.1.mpr ⟨(by decide),
    fun i _ => ⟨.inr ?_, trivial⟩⟩
  have start : (busy 49).start [97] ∈ (busy 49).entered :=
    mem_entered.mpr ⟨⟨0, NINODE_pos⟩, by decide, by decide⟩
  rw [Finset.insert_eq_of_mem start, tree.unique.entered_lt]
  exact ⟨⟨49, by decide⟩, by decide⟩

end Xv6.Namei
