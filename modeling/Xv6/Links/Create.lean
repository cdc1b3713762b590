import Xv6.Links.Midway

/-! `create` gives an inode a name, or it leaves the directories as they were. -/

namespace Xv6.Sysfile.Links
open Function Content Content.Volume Namei

/-- A process whose call starts from `k₀`. Its directory may have been removed. -/
structure Caller (n start : Nat) (k₀ : Kernel) : Prop where
  steady : Steady n start k₀.fs
  ninodes : k₀.ninodes = n
  small : n ≤ 65536
  cwd : 0 < (k₀.fs.inode k₀.fs.cwd).ref
  few (i) : (k₀.volume.inode i).nlink < 32767

/-- A path does not start in a directory that has been removed. -/
def Starts (k₀ : Kernel) (path : Option Path) : Prop := ∀ p ∈ path, p.val.head? = some slash ∨
  (k₀.volume.inode (k₀.fs.inode k₀.fs.cwd).inum).nlink ≠ 0

/-- Inode `i`, which was free, has been given one link, and its own contents, and nothing else
has happened. -/
structure Grown (start i type : Nat) (v₀ v : Volume) : Prop where
  cons : v.Consistent
  tight : Tight start v
  full : v.NoHoles i
  type : (v.inode i).type = type
  nlink : (v.inode i).nlink = 1
  others {e} : e ≠ i → (v.inode e).type = (v₀.inode e).type ∧ (v.inode e).nlink = (v₀.inode e).nlink
  kept {e} : (v₀.inode e).type ≠ 0 → Volume.Kept e v₀ v

section Create

variable {n start d e i j type : Nat} {k₀ k : Kernel} {v₀ v v' : Volume} {held : List (Namei.Slot × Nat)}
  {locks : List Namei.Slot}
  {ip dp : Namei.Slot} {name : Bytes} {x : Name} {r : Int}

theorem Caller.passable (caller : Caller n start k₀) {path : Path} (starts : Starts k₀ (some path)) :
    Passable k₀.volume k₀.fs path.val where
  walk := caller.steady.linked.walkable
  root := ⟨caller.steady.linked.root.used, caller.steady.linked.root.2⟩
  cwd := ⟨caller.cwd, caller.steady.used caller.cwd⟩
  start := starts path rfl

/-- Everything that is allocated is without holes. -/
theorem Grown.all (g : Grown start i type v₀ v) (e : Nat) (used : (v.inode e).type ≠ 0) : v.NoHoles e := by
  by_cases here : e = i
  · exact here ▸ g.full
  · exact (g.kept ((g.others here).1 ▸ used)).full

/-- More has been written to the new inode. -/
theorem Grown.entered (g : Grown start i type v₀ v) (free : (v₀.inode i).type = 0)
    (w : Entered start i x j v r v') (full : v'.NoHoles i) :
    Grown start i type v₀ v' where
  cons := w.cons
  tight := w.tight
  full := full
  type := w.type.trans g.type
  nlink := w.nlink.trans g.nlink
  others {e} apart := by
    rw [w.types, w.nlinks]
    exact g.others apart
  kept {e} used := by
    have apart : e ≠ i := by
      rintro rfl
      exact used free
    have first := g.kept used
    exact first.trans ((w.only e apart).2 first.full)

theorem Grown.failed (g : Grown start i type v₀ v) (w : Entered start d x j v r v') (negative : r < 0) :
    Grown start i type v₀ v' where
  cons := w.cons
  tight := w.tight
  full := (w.failed negative g.full).full
  type := (w.types i).trans g.type
  nlink := (w.nlinks i).trans g.nlink
  others {e} apart := by
    rw [w.types, w.nlinks]
    exact g.others apart
  kept {e} used := (g.kept used).trans (w.failed negative (g.kept used).full)

/-- The inode is about to be freed. -/
theorem Grown.unlinked (g : Grown start i type v₀ v) (fit : Fit n start held v₀ k₀.fs)
    (free : (v₀.inode i).type = 0) (inside : 0 < i ∧ i < n)
    (used : type ≠ 0) (ip : Namei.Slot) : Fit n start ((ip, i) :: held) (v.setNlink i 0) k₀.fs ∧
    tree (v.setNlink i 0) = tree v₀ := by
  obtain ⟨cons, same⟩ := setNlink_spec g.cons i 0
  have others {e : Nat} (apart : e ≠ i) : ((v.setNlink i 0).inode e).type = (v₀.inode e).type ∧
    ((v.setNlink i 0).inode e).nlink = (v₀.inode e).nlink := by
    rw [setNlink_only g.cons i 0 e apart |>.1]
    exact g.others apart
  obtain ⟨linked, trees⟩ := fit.linked.alloc free inside cons ((same i).2 g.full).full (setNlink_nlink ..)
    (fun e apart => others apart)
    fun e used => (g.kept used).trans ((same e).2 (g.kept used).full)
  refine ⟨fit.grow free linked (g.tight.setNlink i 0) (fun apart => (others apart).1)
    (fun apart linked => (others apart).2 ▸ linked) ?_, trees⟩
  rw [(same i).1, g.type]
  exact used

/-- The entries of a new directory. -/
theorem dotLinks_ends (h : Midway [(ip, i), (dp, d)] [ip, dp] v k₀ k) (g : Grown start i T_DIR v₀ v)
    (free : (v₀.inode i).type = 0)
    (empty : (v.inode i).size = 0) (small : 0 < i ∧ i < 65536) (parent : 0 < d ∧ d < 65536) :
    Ends (dotLinks ip dp) k Full fun r k' => ∃ v', Midway [(ip, i), (dp, d)] [ip, dp] v' k₀ k' ∧
    Grown start i T_DIR v₀ v' ∧
      (r = true → DirOk v' i (dots i d)) := by
  have count : v.count i = 0 := by
    unfold count
    rw [empty]
    rfl
  have dir : Directory v i := ⟨g.type, g.full, by rw [empty]; rfl⟩
  have absent : child v i (nameKey dot) = none := child_empty count _
  unfold dotLinks
  refine Ends.bind_run (rfl : (get : SysM Kernel) k = .ok (k, k)) ?_
  rw [h.inum (List.mem_cons_self ..), h.inum (List.mem_cons_of_mem _ (List.mem_cons_self ..))]
  refine (h.dirlink (List.mem_cons_self ..) g.cons g.tight g.all dir dot (fun j here => ?_) small).bind
    fun r k₁ linked => ?_
  · rw [absent] at here
    cases here
  rcases linked with ⟨some, -⟩ | ⟨-, v₁, run, entered, h₁⟩
  · exact absurd absent some
  refine Ends.ite (fun failed => Ends.pure ⟨v₁, h₁, g.failed entered failed, Bool.noConfusion⟩) fun done => ?_
  obtain ⟨dir₁, one, inum, name⟩ := first_entry g.cons dir empty small.2 run done
  have absent₁ : child v₁ i (nameKey dotdot) = none := (child_none _).mpr (.inr fun j below _ => by
    obtain rfl : j = 0 := by omega
    rw [name]
    decide)
  have g₁ : Grown start i T_DIR v₀ v₁ := g.entered free entered dir₁.full
  refine (h₁.dirlink (List.mem_cons_self ..) g₁.cons g₁.tight g₁.all dir₁ dotdot (fun j here => ?_)
    parent).bind fun r k₂ linked => ?_
  · rw [absent₁] at here
    cases here
  rcases linked with ⟨some, -⟩ | ⟨-, v₂, run₂, entered₂, h₂⟩
  · exact absurd absent₁ some
  refine Ends.ite (fun failed => Ends.pure ⟨v₂, h₂, g₁.failed entered₂ failed, Bool.noConfusion⟩)
    fun done₂ => Ends.pure ?_
  have ok := second_entry g₁.cons dir₁ one inum name small.1 parent run₂ done₂
  exact ⟨v₂, h₂, g₁.entered free entered₂ ok.full, fun _ => ok⟩

/-- What `create` has made when it gives a name to the inode. -/
structure Placed (start i type d : Nat) (x : Name) (v₀ v : Volume) : Prop where
  renamed : Renamed d x i v₀ v
  tight : Tight start v
  full : v.NoHoles i
  dots : type = T_DIR → DirOk v i (Content.dots i d)
  type : (v.inode i).type = type
  nlink : (v.inode i).nlink = 1
  others {e : Nat} : e ≠ i → (v.inode e).type = (v₀.inode e).type ∧ (v.inode e).nlink = (v₀.inode e).nlink

theorem Grown.placed (g : Grown start i type v₀ v) (w : Entered start d x i v r v')
    (done : ¬r < 0) (apart : i ≠ d)
    (dots : type = T_DIR → DirOk v i (Content.dots i d)) : Placed start i type d x v₀ v' where
  renamed := (w.renamed done).before fun _ used => g.kept used
  tight := w.tight
  full := ((w.only i apart).2 g.full).full
  type := (w.types i).trans g.type
  nlink := (w.nlinks i).trans g.nlink
  others {e} other := by
    rw [w.types, w.nlinks]
    exact g.others other
  dots dir := (dots dir).keep ((w.only i apart).2 g.full)

/-- The name for a new inode is made, or it is not. -/
theorem linkInode_ends (h : Midway [(ip, i), (dp, d)] [ip, dp] v k₀ k) (g : Grown start i type v₀ v)
    (free : (v₀.inode i).type = 0)
    (empty : (v.inode i).size = 0) (small : 0 < i ∧ i < 65536) (parent : 0 < d ∧ d < 65536)
    (dir : Directory v₀ d)
    (absent : child v₀ d (nameKey name) = none) : Ends (linkInode dp ip name type) k Full fun r k' =>
      ∃ v', Midway [(ip, i), (dp, d)] [ip, dp] v' k₀ k' ∧ (r < 0 → Grown start i type v₀ v') ∧
        (¬r < 0 → Placed start i type d (nameKey name) v₀ v') := by
  have used : (v₀.inode d).type ≠ 0 := by
    rw [dir.dir]
    decide
  have apart : i ≠ d := by
    rintro rfl
    exact used free
  unfold linkInode
  have dots : Ends (if type = T_DIR then dotLinks ip dp else pure true : SysM Bool) k Full fun linked k' =>
      ∃ v', Midway [(ip, i), (dp, d)] [ip, dp] v' k₀ k' ∧ Grown start i type v₀ v' ∧
        (linked = true → type = T_DIR → DirOk v' i (Content.dots i d)) := by
    refine Ends.ite (fun isDir => ?_) fun other => Ends.pure ⟨v, h, g, fun _ isDir => absurd isDir other⟩
    subst isDir
    refine (dotLinks_ends h g free empty small parent).mono fun linked k' made => ?_
    obtain ⟨v', h', g', ok⟩ := made
    exact ⟨v', h', g', fun linked _ => ok linked⟩
  refine dots.bind fun linked k₁ made => ?_
  obtain ⟨v₁, h₁, g₁, ok⟩ := made
  refine Ends.ite (fun linked => ?_) fun _ => Ends.pure ⟨v₁, h₁, fun _ => g₁, fun wrong =>
    absurd (by decide) wrong⟩
  refine Ends.bind_run (rfl : (get : SysM Kernel) k₁ = .ok (k₁, k₁)) ?_
  have kept := g₁.kept used
  have absent₁ : child v₁ d (nameKey name) = none := (child_kept kept _).trans absent
  rw [h₁.inum (List.mem_cons_self ..)]
  refine (h₁.dirlink (List.mem_cons_of_mem _ (List.mem_cons_self ..)) g₁.cons g₁.tight g₁.all
    (dir.kept kept) name (fun j here => ?_)
    small).mono fun r k₂ entered => ?_
  · rw [absent₁] at here
    cases here
  rcases entered with ⟨some, -⟩ | ⟨-, v₂, -, entered, h₂⟩
  · exact absurd absent₁ some
  · exact ⟨v₂, h₂, g₁.failed entered, fun done => g₁.placed entered done apart (ok linked)⟩

/-- What giving a name to a new inode does to the tree. -/
def Made (type d : Nat) (x : Name) (i : Nat) (t : Hierarchy Nat Name) : Hierarchy Nat Name :=
  if type = T_DIR then t.mkdir d x i else t.link d x i

theorem Placed.file (p : Placed start i type d x v₀ v) (fit : Fit n start held v₀ k₀.fs) (dir : IsDir v₀ d)
    (absent : child v₀ d x = none)
    (free : (v₀.inode i).type = 0) (inside : 0 < i ∧ i < n) (used : type ≠ 0) (file : type ≠ T_DIR)
    (ip : Namei.Slot) :
    Fit n start ((ip, i) :: held) v k₀.fs ∧ tree v = Made type d x i (tree v₀) := by
  have live : (v.inode i).type ≠ 0 := p.type.trans_ne used
  have nlink : (v.inode i).nlink = (tree v₀).links i + 1 := by
    rw [p.nlink, fit.linked.fresh free]
    rfl
  obtain ⟨linked, trees⟩ := fit.linked.link p.renamed dir absent (by rw [free]; decide) inside live
    (p.type.trans_ne file) p.full nlink
    fun e apart => p.others apart
  refine ⟨fit.grow free linked p.tight (fun apart => (p.others apart).1) (fun apart linked =>
    (p.others apart).2 ▸ linked) live, ?_⟩
  rw [trees, Made, if_neg file]

theorem Placed.dir (p : Placed start i T_DIR d x v₀ v) (fit : Fit n start held v₀ k₀.fs) (dir : IsDir v₀ d)
    (absent : child v₀ d x = none)
    (free : (v₀.inode i).type = 0) (inside : 0 < i ∧ i < n) (apart : d ≠ i) (ip : Namei.Slot) :
    Fit n start ((ip, i) :: held) (v.setNlink d ((v₀.inode d).nlink + 1)) k₀.fs ∧
      tree (v.setNlink d ((v₀.inode d).nlink + 1)) = Made T_DIR d x i (tree v₀) := by
  obtain ⟨cons, same⟩ := setNlink_spec p.renamed.cons d ((v₀.inode d).nlink + 1)
  have other {e : Nat} (apart : e ≠ d) := (setNlink_only p.renamed.cons d ((v₀.inode d).nlink + 1) e apart).1
  have types (e : Nat) (apart : e ≠ i) : ((v.setNlink d ((v₀.inode d).nlink + 1)).inode e).type =
    (v₀.inode e).type :=
    (same e).1.trans (p.others apart).1
  have nlinks (e : Nat) (apart : e ≠ i) (apart' : e ≠ d) :
      ((v.setNlink d ((v₀.inode d).nlink + 1)).inode e).nlink = (v₀.inode e).nlink := by
    rw [other apart']
    exact (p.others apart).2
  have renamed := p.renamed.after cons (fun e => (same e).2) fun e => (same e).1
  have new := (p.dots rfl).keep ((same i).2 p.full)
  obtain ⟨linked, trees⟩ := fit.linked.mkdir renamed dir absent free inside new
    (by rw [other apart.symm, p.nlink]) (setNlink_nlink ..)
    types nlinks
  have nonneg := fit.linked.nonneg dir.used
  refine ⟨fit.grow free linked (p.tight.setNlink d _) (types _) (fun {e} away linked => ?_)
    (by rw [new.dir]; decide), ?_⟩
  · by_cases here : e = d
    · rw [here, setNlink_nlink]
      omega
    · rwa [nlinks e away here]
  · rw [trees, Made, if_pos rfl]

/-- An inode that has just been allocated, with one link. -/
theorem Grown.new (tight : Tight start v₀) (cons : v₀.Consistent)
    (full : ∀ {e}, (v₀.inode e).type ≠ 0 → v₀.NoHoles e) (free : (v₀.inode i).type = 0) (type : Nat) :
    ∃ v, (v₀.setInode i ⟨type, 0, 0, fun _ => 0⟩).logWrite.setNlink i 1 = v ∧
      Grown start i type v₀ v ∧ (v.inode i).size = 0 := by
  obtain ⟨v, filled, cons', tight', only, inode⟩ := newInode tight cons free type
  have empty : (v.inode i).size = 0 := by rw [inode]
  have others {e : Nat} (apart : e ≠ i) :
      (v.inode e).type = (v₀.inode e).type ∧ (v.inode e).nlink = (v₀.inode e).nlink := by
    rw [(only e apart).1]
    exact ⟨rfl, rfl⟩
  have kept {e : Nat} (used : (v₀.inode e).type ≠ 0) : Volume.Kept e v₀ v := by
    have apart : e ≠ i := by
      rintro rfl
      exact used free
    exact (only e apart).2 (full used)
  exact ⟨v, filled, ⟨cons', tight', full_empty empty, by rw [inode], by rw [inode], others, kept⟩, empty⟩

theorem createInode_ends (caller : Caller n start k₀) (a : Allocated ip [(ip, i), (dp, d)] [dp]
      (k₀.volume.setInode i ⟨type, 0, 0, fun _ => 0⟩).logWrite k₀ k) (once : ip ≠ dp)
    (free : (k₀.volume.inode i).type = 0) (inside : 0 < i ∧ i < n)
    (dir : IsDir k₀.volume d) (absent : child k₀.volume d (nameKey name) = none) (used : type ≠ 0)
    (major minor : Int) :
    Ends (createInode dp ip name type major minor) k Full fun r k' =>
      r = none ∧ (∃ v, Midway [] [] v k₀ k' ∧ Fit n start [] v k₀.fs ∧ tree v = tree k₀.volume) ∨
      r = some ip ∧ ∃ v, Midway [(ip, i)] [ip] v k₀ k' ∧ Fit n start [(ip, i)] v k₀.fs ∧
      (v.inode i).type = type ∧
        tree v = Made type d (nameKey name) i (tree k₀.volume) := by
  have fit : Fit n start [] k₀.volume k₀.fs := caller.steady.fit
  have linked := fit.linked
  have within := linked.inside dir.used
  have small := caller.small
  have nonneg := linked.nonneg dir.used
  have few := caller.few d
  have other : d ≠ i := by
    rintro rfl
    exact dir.used free
  have alone : ip ∉ [dp] := fun member => once (List.mem_singleton.mp member)
  have fitDir : Fit n start [(dp, d)] k₀.volume k₀.fs := fit.take dir.used
  obtain ⟨v, filled, g, size⟩ := Grown.new fit.tight linked.cons (fun {_} => linked.full) free type
  unfold createInode
  refine (a.ilock (List.mem_cons_self ..) alone ?_).bind fun _ k₁ h => ?_
  · have self : ((k₀.volume.setInode i ⟨type, 0, 0, fun _ => 0⟩).logWrite.inode i) =
      ⟨type, 0, 0, fun _ => 0⟩ := update_self ..
    rw [self]
    exact used
  have named : Midway [(ip, i), (dp, d)] [ip, dp] (k₀.volume.setInode i ⟨type, 0, 0, fun _ => 0⟩).logWrite k₀
      { k₁ with
        major := update k₁.major (k₁.inum ip) major, minor := update k₁.minor (k₁.inum ip) minor } :=
    ⟨h.during, { h.rest with }⟩
  refine Ends.seq (Ends.modify ?_)
  refine (named.setNlink (List.mem_cons_self ..) (List.mem_cons_self ..) 1).bind fun _ k₂ h => ?_
  rw [filled] at h
  refine (linkInode_ends h g free size ⟨inside.1, by omega⟩ ⟨within.1, by omega⟩
    (linked.directory dir) absent).bind fun r k₃ made => ?_
  obtain ⟨v₁, last, failed, done⟩ := made
  have swap {w : Volume} {k' : Kernel} (h : Midway [(ip, i), (dp, d)] [ip, dp] w k₀ k') :
    Midway [(dp, d), (ip, i)] [dp, ip] w k₀ k' :=
    h.congr (List.Perm.swap ..) fun b => by
      rw [List.mem_cons, List.mem_cons, List.mem_cons, List.mem_cons, or_left_comm]
  refine Ends.ite (fun negative => ?_) fun positive => ?_
  · obtain ⟨fit', trees⟩ := (failed negative).unlinked fitDir free inside used ip
    refine (last.setNlink (List.mem_cons_self ..) (List.mem_cons_self ..) 0).bind fun _ k₄ h => ?_
    refine (h.unlockput fit' alone).bind fun _ k₅ dropped => ?_
    obtain ⟨v₂, h, fit₂, trees₂, -⟩ := dropped
    refine (h.unlockput fit₂ List.not_mem_nil).bind fun _ k₆ dropped => Ends.pure (.inl ⟨rfl, ?_⟩)
    obtain ⟨v₃, h, fit₃, trees₃, -⟩ := dropped
    exact ⟨v₃, h, fit₃, trees₃.trans (trees₂.trans trees)⟩
  · have placed := done positive
    have finish {w : Volume} {k' : Kernel} (h : Midway [(ip, i), (dp, d)] [ip, dp] w k₀ k')
        (fit' : Fit n start [(ip, i), (dp, d)] w k₀.fs)
        (type' : (w.inode i).type = type) (linked' : (w.inode d).nlink ≠ 0)
        (trees : tree w = Made type d (nameKey name) i (tree k₀.volume)) :
        Ends (do onFs (iunlockput dp); return some ip : SysM (Option Namei.Slot)) k' Full fun r k' =>
          r = none ∧ (∃ v, Midway [] [] v k₀ k' ∧ Fit n start [] v k₀.fs ∧ tree v = tree k₀.volume) ∨
          r = some ip ∧ ∃ v, Midway [(ip, i)] [ip] v k₀ k' ∧ Fit n start [(ip, i)] v k₀.fs ∧
          (v.inode i).type = type ∧
            tree v = Made type d (nameKey name) i (tree k₀.volume) := by
      have once' : dp ∉ [ip] := fun member => once (List.mem_singleton.mp member).symm
      refine ((swap h).iunlockput once' (.inl linked')).bind fun _ k'' h => Ends.pure
        (.inr ⟨rfl, w, h, ?_, type', trees⟩)
      exact (fit'.perm (List.Perm.swap ..)).drop (.inl linked')
    dsimp only
    refine Ends.ite (fun isDir => ?_) fun file => ?_
    · subst isDir
      refine Ends.bind_run (rfl : (get : SysM Kernel) k₃ = .ok (k₃, k₃)) ?_
      have nlink : (v₁.inode d).nlink = (k₀.volume.inode d).nlink := (placed.others other).2
      have value : short ((k₃.ip dp).nlink + 1) = (k₀.volume.inode d).nlink + 1 := by
        rw [last.inode (List.mem_cons_of_mem _ (List.mem_cons_self ..)), nlink]
        exact short_small (by omega) (by omega)
      rw [value]
      refine (last.setNlink (List.mem_cons_of_mem _ (List.mem_cons_self ..))
        (List.mem_cons_of_mem _ (List.mem_cons_self ..)) _).bind fun _ k₄ h => ?_
      obtain ⟨fit', trees⟩ := placed.dir fitDir dir absent free inside other ip
      refine finish h fit' ?_ ?_ trees
      · rw [((setNlink_spec placed.renamed.cons d _).2 i).1, placed.type]
      · rw [setNlink_nlink]
        omega
    · obtain ⟨fit', trees⟩ := placed.file fitDir dir absent free inside used file ip
      exact finish last fit' placed.type ((placed.others other).2.trans_ne dir.2) trees

/-- What `create` comes to: nothing, an inode that has been there, or a new one with a name. -/
theorem create_ends (caller : Caller n start k₀) {path : Path} (starts : Starts k₀ (some path))
    (used : type ≠ 0) (major minor : Int) :
    Ends (create path.val type major minor) k₀ Full fun r k' =>
      (r = none ∧ ∃ v, Midway [] [] v k₀ k' ∧ Fit n start [] v k₀.fs ∧ tree v = tree k₀.volume) ∨
      ∃ ip i v, r = some ip ∧ Midway [(ip, i)] [ip] v k₀ k' ∧ Fit n start [(ip, i)] v k₀.fs ∧
        (type = T_FILE ∧ (v.inode i).type ≠ T_DIR ∧ tree v = tree k₀.volume ∧
            target false k₀.volume (k₀.fs.start path.val) path.val = some i ∨
          (v.inode i).type = type ∧ ∃ d, target true k₀.volume (k₀.fs.start path.val) path.val = some d ∧
          IsDir k₀.volume d ∧
            child k₀.volume d (lastName path.val) = none ∧ (k₀.volume.inode i).type = 0 ∧
            tree v = Made type d (lastName path.val) i (tree k₀.volume)) := by
  have fit : Fit n start [] k₀.volume k₀.fs := caller.steady.fit
  have linked := fit.linked
  have walk := linked.walkable
  unfold create
  refine ((Midway.refl caller.steady).nameiparent (caller.passable starts)).bind fun r k₁ found => ?_
  obtain ⟨r, name⟩ := r
  rcases found with ⟨rfl, -, h⟩ | ⟨dp, d, rfl, leads, dir, key, h⟩
  · exact Ends.pure (.inl ⟨rfl, _, h, fit, rfl⟩)
  have key : nameKey name = lastName path.val := key
  have named {i : Nat} (here : child k₀.volume d (nameKey name) = some i) : Named k₀.volume i :=
    walk.child dir here
  refine (h.ilock (List.mem_cons_self ..) List.not_mem_nil dir.used).bind fun _ k₂ h => ?_
  refine (h.dirlookup (List.mem_cons_self ..) linked.cons (linked.directory dir) name fun i here =>
    (named here).2).bind fun r k₃ looked => ?_
  rcases looked with ⟨missing, rfl, h⟩ | ⟨i, ip, there, rfl, h⟩
  · refine (h.ialloc caller.steady caller.ninodes type fun b i member => ?_).bind fun r k₄ alloc => ?_
    · obtain ⟨rfl, rfl⟩ := Prod.mk.inj (List.mem_singleton.mp member)
      exact dir.used
    rcases alloc with ⟨rfl, h⟩ | ⟨ip, i, rfl, free, inside, a⟩
    · refine (h.iunlockput List.not_mem_nil (.inl dir.2)).bind fun _ k₅ h => Ends.pure
        (.inl ⟨rfl, _, h, fit, rfl⟩)
    · have once : ip ≠ dp := by
        rintro rfl
        have first := a.table.inum (List.mem_cons_self ..)
        have second := a.table.inum (List.mem_cons_of_mem _ (List.mem_cons_self ..))
        rw [first.symm.trans second] at free
        exact dir.used free
      refine (createInode_ends caller a once free inside dir missing used major minor).mono
        fun r k₅ made => ?_
      rcases made with ⟨rfl, back⟩ | ⟨rfl, v, h, fit', type', trees⟩
      · exact .inl ⟨rfl, back⟩
      · rw [key] at missing trees
        exact .inr ⟨ip, i, v, rfl, h, fit', .inr ⟨type', d, leads, dir, missing, free, trees⟩⟩
  · have live := named there
    have swapped := h.congr (List.Perm.swap ..) fun _ => Iff.rfl
    refine (swapped.iunlockput List.not_mem_nil (.inl dir.2)).bind fun _ k₄ h => ?_
    refine (h.ilock (List.mem_cons_self ..) List.not_mem_nil live.1).bind fun _ k₅ h => ?_
    refine Ends.bind_run (rfl : (get : SysM Kernel) k₅ = .ok (k₅, k₅)) ?_
    rw [h.inode (List.mem_cons_self ..)]
    refine Ends.ite (fun both => Ends.pure ?_) fun _ => ?_
    · have found : target false k₀.volume (k₀.fs.start path.val) path.val = some i := by
        rw [key] at there
        exact (follow_parent leads).trans there
      refine .inr ⟨ip, i, k₀.volume, rfl, h, fit.take live.1, .inl ⟨both.1, fun isDir => ?_, rfl, found⟩⟩
      rcases both.2 with file | device
      · exact absurd (isDir.symm.trans file) (by decide)
      · exact absurd (isDir.symm.trans device) (by decide)
    · refine (h.iunlockput List.not_mem_nil (.inl live.2)).bind fun _ k₆ h => Ends.pure
        (.inl ⟨rfl, _, h, fit, rfl⟩)

end Create

end Xv6.Sysfile.Links
