import Xv6.Links.Create
import Xv6.Sysfile.Calls

/-! The calls that change names, and what they do to the tree of directories. -/

namespace Xv6.Sysfile.Links
open Function Content Content.Volume Namei

/-- What a path leads to for the process, or the directory for its last name. -/
def leads (k : Kernel) (nameiparent : Bool) (path : Path) : Option Nat :=
  target nameiparent k.volume (k.fs.start path.val) path.val

/-- A call has ended, with some references left, and with the directories as in a tree. -/
def Settled (n start : Nat) (held : List (Namei.Slot × Nat)) (k k' : Kernel) (t : Hierarchy Nat Name) :
    Prop :=
  ∃ v, Midway held [] v k k' ∧ Fit n start held v k.fs ∧ tree v = t

section Calls

variable {n start d e i j type : Nat} {k₀ k k' : Kernel} {v v' : Volume} {held : List (Namei.Slot × Nat)}
  {locks : List Namei.Slot}
  {ip dp : Namei.Slot} {name : Bytes} {x : Name} {t : Hierarchy Nat Name} {E : String → Prop}

theorem Caller.begun (caller : Caller n start k) : Caller n start k.begun :=
  ⟨caller.steady, caller.ninodes, caller.small, caller.cwd, caller.few⟩

theorem Caller.fit (caller : Caller n start k) : Fit n start [] k.volume k.fs := caller.steady.fit

theorem Caller.settled (caller : Caller n start k) : Settled n start [] k k (tree k.volume) :=
  ⟨k.volume, .refl caller.steady, caller.fit, rfl⟩

theorem Caller.first (caller : Caller n start k) : Midway [] [] k.volume k.begun k.begun :=
  .refl caller.begun.steady

theorem beginOp_ends {α : Type} {m : Unit → SysM α} {Q : α → Kernel → Prop} (rest : Ends (m ()) k.begun E Q) :
    Ends (beginOp >>= m) k E Q := Ends.seq (Ends.modify rest)

theorem endOp_ends {α : Type} {m : Unit → SysM α} {Q : α → Kernel → Prop} (h : Midway held locks v k.begun k')
    (rest : ∀ k'', Midway held locks v k k'' → Ends (m ()) k'' E Q) : Ends (endOp >>= m) k' E Q := by
  refine Ends.seq (Ends.modify (rest _ ⟨h.during, ⟨h.rest.file, h.rest.proc, h.rest.myproc, h.rest.ninodes,
    ?_, h.rest.pipecloses⟩⟩))
  have count : k'.outstanding = k.outstanding + 1 := h.rest.outstanding
  show k'.outstanding - 1 = k.outstanding
  omega

/-- The end of a call. -/
theorem done_ends (h : Midway [] [] v k.begun k') (fit : Fit n start [] v k.fs)
    (trees : tree v = t) (r : Int) :
    Ends (do endOp; return r : SysM Int) k' E fun r' k'' => r' = r ∧ Settled n start [] k k'' t :=
  endOp_ends h fun _ h => Ends.pure ⟨rfl, v, h, fit, trees⟩

theorem fail_ends (h : Midway [] [] v k.begun k') (fit : Fit n start [] v k.fs) (trees : tree v = t)
    {Q : Hierarchy Nat Name → Prop} :
    Ends (do endOp; return -1 : SysM Int) k' E fun r k'' => ∃ t', Settled n start [] k k'' t' ∧
    (r = -1 ∧ t' = t ∨ r = 0 ∧ Q t') :=
  (done_ends h fit trees (-1)).mono fun _ _ done => ⟨t, done.2, .inl ⟨done.1, rfl⟩⟩

theorem succeed_ends (h : Midway [] [] v k.begun k') (fit : Fit n start [] v k.fs)
    {Q : Hierarchy Nat Name → Prop} (holds : Q (tree v)) :
    Ends (do endOp; return 0 : SysM Int) k' E fun r k'' => ∃ t', Settled n start [] k k'' t' ∧
    (r = -1 ∧ t' = t ∨ r = 0 ∧ Q t') :=
  (done_ends h fit rfl 0).mono fun _ _ done => ⟨_, done.2, .inr ⟨done.1, holds⟩⟩

/-! ### link -/

/-- An inode that is not a directory has one link more than names. -/
theorem Walkable.raise (walk : Walkable v) (full : ∀ e, (v.inode e).type ≠ 0 → v.NoHoles e)
    (file : (v.inode i).type ≠ T_DIR) {nlink : Int}
    (some : nlink ≠ 0) : Walkable (v.setNlink i nlink) := by
  obtain ⟨cons, same⟩ := setNlink_spec walk.cons i nlink
  have old {d : Nat} (dir : IsDir (v.setNlink i nlink) d) : IsDir v d := by
    have apart : d ≠ i := by
      rintro rfl
      exact file ((same d).1.symm.trans dir.1)
    unfold IsDir at dir ⊢
    rwa [(setNlink_only walk.cons i nlink d apart).1] at dir
  refine ⟨cons, fun {d} dir => ?_, fun {d x j} dir here => ?_⟩
  · have before := walk.dirs (old dir)
    exact before.kept ((same d).2 before.full)
  · rw [child_kept ((same d).2 (full d (old dir).used))] at here
    obtain ⟨used, linked⟩ := walk.child (old dir) here
    refine ⟨(same j).1.trans_ne used, ?_⟩
    by_cases this : j = i
    · rw [this, setNlink_nlink]
      exact some
    · rwa [(setNlink_only walk.cons i nlink j this).1]

theorem newLink_ends (h : Midway [(ip, i)] [] v k₀ k) {path : Path} (passable : Passable v k₀.fs path.val)
    (tight : Tight start v)
    (full : ∀ e, (v.inode e).type ≠ 0 → v.NoHoles e) (small : 0 < i ∧ i < 65536) :
    Ends (newLink ip path.val) k Full fun r k' =>
      ∃ v', Midway [(ip, i)] [] v' k₀ k' ∧
        (r < 0 ∧ v' = v ∨ ∃ d, target true v (k₀.fs.start path.val) path.val = some d ∧ IsDir v d ∧
        child v d (lastName path.val) = none ∧ Entered start d (lastName path.val) i v r v') := by
  have walk := passable.walk
  unfold newLink
  refine (h.nameiparent passable).bind fun r k₁ found => ?_
  obtain ⟨r, name⟩ := r
  rcases found with ⟨rfl, -, h⟩ | ⟨dp, d, rfl, leads, dir, key, h⟩
  · exact Ends.pure ⟨v, h, .inl ⟨by decide, rfl⟩⟩
  have key : nameKey name = lastName path.val := key
  refine (h.ilock (List.mem_cons_self ..) List.not_mem_nil dir.used).bind fun _ k₂ h => ?_
  refine Ends.bind_run (rfl : (get : SysM Kernel) k₂ = .ok (k₂, k₂)) ?_
  rw [h.inum (List.mem_cons_of_mem _ (List.mem_cons_self ..))]
  refine (h.dirlink (List.mem_cons_self ..) walk.cons tight full (walk.dirs dir) name
    (fun j here => (walk.child dir here).2) small).bind
    fun r k₃ linked => ?_
  rcases linked with ⟨-, rfl, h⟩ | ⟨absent, v', -, entered, h⟩
  · refine (h.iunlockput List.not_mem_nil (.inl dir.2)).bind fun _ k₄ h => Ends.pure
      ⟨v, h, .inl ⟨by decide, rfl⟩⟩
  · refine (h.iunlockput List.not_mem_nil (.inl ((entered.nlinks d).trans_ne dir.2))).bind fun _ k₄ h =>
      Ends.pure ⟨v', h, .inr ?_⟩
    rw [key] at absent entered
    exact ⟨d, leads, dir, absent, entered⟩

/-- Paths lead where they have led. -/
theorem target_congr (types : ∀ e, (v'.inode e).type = (v.inode e).type)
    (kept : ∀ e, (v.inode e).type ≠ 0 → Volume.Kept e v v')
    (nameiparent : Bool) (i : Nat) (path : List UInt8) :
    target nameiparent v' i path = target nameiparent v i path := by
  have same (d : Nat) (x : Name) : child v' d x = child v d x := by
    by_cases used : (v.inode d).type = 0
    · have file : (v.inode d).type ≠ T_DIR := by
        rw [used]
        decide
      rw [child_file file, child_file ((types d).trans_ne file)]
    · exact child_kept (kept d used) x
  have followed (d : Nat) (cs : List (List UInt8)) : follow v' d cs = follow v d cs := by
    induction cs generalizing d with
    | nil => rfl
    | cons c cs ih => simp only [follow, same, ih]
  unfold target
  by_cases empty : components path = []
  · rw [empty]
    rfl
  · rw [followed, parent_eq empty, parent_eq empty, followed]
    simp only [types]

theorem Named.raise (named : Named v j) {nlink : Int} (some : nlink ≠ 0) : Named (v.setNlink i nlink) j := by
  unfold Named
  by_cases here : j = i
  · subst here
    rw [setNlink_nlink]
    refine ⟨?_, some⟩
    have same : ((v.setNlink j nlink).inode j) = { v.inode j with nlink } := update_self ..
    rw [same]
    exact named.1
  · have other : (v.setNlink i nlink).inode j = v.inode j := update_of_ne here ..
    rw [other]
    exact named

/-- Everything but the number of links of an inode is as it was before. -/
theorem Fit.relink (fit : Fit n start held v k.fs) {nlink : Int} {w : Volume} (cons : w.Consistent)
    (tight : Tight start w)
    (types : ∀ e, (w.inode e).type = ((v.setNlink i nlink).inode e).type)
    (nlinks : ∀ e, (w.inode e).nlink = ((v.setNlink i nlink).inode e).nlink)
    (kept : ∀ e, (v.setNlink i nlink).NoHoles e → Volume.Kept e (v.setNlink i nlink) w) :
    Fit n start held (w.setNlink i (v.inode i).nlink) k.fs ∧
    tree (w.setNlink i (v.inode i).nlink) = tree v := by
  obtain ⟨-, raised⟩ := setNlink_spec fit.linked.cons i nlink
  obtain ⟨cons', lowered⟩ := setNlink_spec cons i (v.inode i).nlink
  have same (e : Nat) (used : (v.inode e).type ≠ 0) : Volume.Kept e v (w.setNlink i (v.inode i).nlink) := by
    have first := (raised e).2 (fit.linked.full used)
    have second := first.trans (kept e first.full)
    exact second.trans ((lowered e).2 second.full)
  refine fit.same (tight.setNlink i _) cons' (fun e => (lowered e).1.trans ((types e).trans (raised e).1))
    (fun e => ?_)
    (fun e used => (same e used).full) fun e dir => same e (by rw [dir]; decide)
  by_cases here : e = i
  · rw [here, setNlink_nlink]
  · have first : (v.setNlink i nlink).inode e = v.inode e := update_of_ne here ..
    have second : (w.setNlink i (v.inode i).nlink).inode e = w.inode e := update_of_ne here ..
    rw [second, nlinks, first]

/-- `sys_link` gives one more name to an inode that is not a directory. -/
theorem sysLink_ends (caller : Caller n start k) {old new : Option Path} (starts : Starts k old)
    (starts' : Starts k new) :
    Ends (sysLink (old.map Subtype.val) (new.map Subtype.val)) k Full fun r k' => ∃ t,
    Settled n start [] k k' t ∧
      (r = -1 ∧ t = tree k.volume ∨ r = 0 ∧ ∃ p q d i, old = some p ∧ new = some q ∧
        leads k false p = some i ∧ leads k true q = some d ∧
        (tree k.volume).above d ≠ none ∧ (tree k.volume).above i = none ∧
        (tree k.volume).entry d (lastName q.val) = none ∧
        t = (tree k.volume).link d (lastName q.val) i) := by
  have fit := caller.fit
  have linked := fit.linked
  unfold sysLink
  cases old with
  | none => exact Ends.pure ⟨_, caller.settled, .inl ⟨rfl, rfl⟩⟩
  | some old =>
    cases new with
    | none => exact Ends.pure ⟨_, caller.settled, .inl ⟨rfl, rfl⟩⟩
    | some new =>
      refine beginOp_ends ((caller.first.namei (caller.passable starts)).bind fun r k₁ found => ?_)
      rcases found with ⟨rfl, -, h⟩ | ⟨ip, i, rfl, there, named, h⟩
      · exact fail_ends h fit rfl
      have inside := linked.inside named.1
      have small := caller.small
      have nonneg := linked.nonneg named.1
      have few := caller.few i
      refine (h.ilock (List.mem_cons_self ..) List.not_mem_nil named.1).bind fun _ k₂ h => ?_
      refine Ends.bind_run (rfl : (get : SysM Kernel) k₂ = .ok (k₂, k₂)) ?_
      rw [h.inode (List.mem_cons_self ..)]
      refine Ends.ite (fun _ => ?_) fun file => ?_
      · exact (h.iunlockput List.not_mem_nil (.inl named.2)).bind fun _ k₃ h => fail_ends h fit rfl
      refine Ends.bind_run (rfl : (get : SysM Kernel) k₂ = .ok (k₂, k₂)) ?_
      rw [h.inode (List.mem_cons_self ..)]
      have value : short ((k.volume.inode i).nlink + 1) = (k.volume.inode i).nlink + 1 :=
        short_small (by omega) (by omega)
      rw [value]
      refine (h.setNlink (List.mem_cons_self ..) (List.mem_cons_self ..) _).bind fun _ k₃ h => ?_
      refine (h.iunlock List.not_mem_nil).bind fun _ k₄ h => ?_
      obtain ⟨cons₁, raised⟩ := setNlink_spec linked.cons i ((k.volume.inode i).nlink + 1)
      have some : (k.volume.inode i).nlink + 1 ≠ 0 := by omega
      have full₁ (e : Nat) (used : ((k.volume.setNlink i ((k.volume.inode i).nlink + 1)).inode e).type ≠ 0) :=
        ((raised e).2 (linked.full ((raised e).1 ▸ used))).full
      have passable : Passable (k.volume.setNlink i ((k.volume.inode i).nlink + 1)) k.begun.fs new.val := by
        have before := caller.passable starts'
        refine ⟨before.walk.raise (fun _ => linked.full) file some, before.root.raise some,
          ⟨caller.cwd, (raised _).1.trans_ne before.cwd.2⟩,
          before.start.imp id fun linked => ?_⟩
        exact (Named.raise ⟨before.cwd.2, linked⟩ some).2
      have small' : 0 < i ∧ i < 65536 := ⟨inside.1, by omega⟩
      have tight₁ := fit.tight.setNlink i ((k.volume.inode i).nlink + 1)
      have nlink₁ : ((k.volume.setNlink i ((k.volume.inode i).nlink + 1)).inode i).nlink =
        (k.volume.inode i).nlink + 1 := setNlink_nlink ..
      refine (newLink_ends h passable tight₁ full₁ small').bind fun r k₅ made => ?_
      obtain ⟨v', h, made⟩ := made
      refine Ends.ite (fun negative => ?_) fun positive => ?_
      · have back : v'.Consistent ∧ Tight start v' ∧
            ∀ e, (v'.inode e).type = ((k.volume.setNlink i ((k.volume.inode i).nlink + 1)).inode e).type ∧
            (v'.inode e).nlink = ((k.volume.setNlink i ((k.volume.inode i).nlink + 1)).inode e).nlink ∧
            ((k.volume.setNlink i ((k.volume.inode i).nlink + 1)).NoHoles e →
              Volume.Kept e (k.volume.setNlink i ((k.volume.inode i).nlink + 1)) v') := by
          rcases made with ⟨-, rfl⟩ | ⟨d, -, -, -, entered⟩
          · exact ⟨cons₁, tight₁, fun e => ⟨rfl, rfl, Volume.Kept.refl⟩⟩
          · exact ⟨entered.cons, entered.tight, fun e => ⟨entered.types e, entered.nlinks e,
              entered.failed negative⟩⟩
        obtain ⟨cons', tight', same⟩ := back
        obtain ⟨fit', trees⟩ := fit.relink cons' tight' (fun e => (same e).1) (fun e => (same e).2.1)
          fun e => (same e).2.2
        refine (h.ilock (List.mem_cons_self ..) List.not_mem_nil
          ((same i).1.trans_ne ((raised i).1.trans_ne named.1))).bind fun _ k₆ h => ?_
        refine Ends.bind_run (rfl : (get : SysM Kernel) k₆ = .ok (k₆, k₆)) ?_
        have value' : short ((k₆.ip ip).nlink - 1) = (k.volume.inode i).nlink := by
          rw [h.inode (List.mem_cons_self ..), (same i).2.1, nlink₁, Int.add_sub_cancel]
          exact short_small (by omega) (by omega)
        rw [value']
        refine (h.setNlink (List.mem_cons_self ..) (List.mem_cons_self ..) _).bind fun _ k₇ h => ?_
        have live : Live [] (v'.setNlink i (k.volume.inode i).nlink) k.begun.fs i :=
          .inl (by rw [setNlink_nlink]; exact named.2)
        exact (h.iunlockput List.not_mem_nil live).bind fun _ k₈ h => fail_ends h fit' trees
      · rcases made with ⟨negative, -⟩ | ⟨d, leads', dir, absent, entered⟩
        · exact absurd negative positive
        have apart : d ≠ i := by
          rintro rfl
          exact file ((raised d).1.symm.trans dir.1)
        have dir₀ : IsDir k.volume d := by
          unfold IsDir at dir ⊢
          rwa [(setNlink_only linked.cons i _ d apart).1] at dir
        have kept (e : Nat) (used : (k.volume.inode e).type ≠ 0) := (raised e).2 (linked.full used)
        have absent₀ : child k.volume d (lastName new.val) = none :=
          (child_kept (kept d dir₀.used) _).symm.trans absent
        have types (e : Nat) : (v'.inode e).type = (k.volume.inode e).type :=
          (entered.types e).trans (raised e).1
        have others (e : Nat) (apart : e ≠ i) : (v'.inode e).nlink = (k.volume.inode e).nlink := by
          rw [entered.nlinks, (setNlink_only linked.cons i _ e apart).1]
        have nlink' : (v'.inode i).nlink = (k.volume.inode i).nlink + 1 := (entered.nlinks i).trans nlink₁
        have renamed := (entered.renamed positive).before kept
        obtain ⟨linked', trees⟩ := linked.link renamed dir₀ absent₀ file inside ((types i).trans_ne named.1)
          (by rw [types]; exact file)
          (renamed.full named.1) (by rw [nlink', linked.nlink named.1]) fun e apart =>
          ⟨types e, others e apart⟩
        have fit' : Fit n start [] v' k.fs := fit.change linked' entered.tight types fun e linked => .inl (by
          by_cases here : e = i
          · rw [here, nlink']
            exact some
          · rwa [others e here])
        have live : Live [] v' k.begun.fs i := .inl (by rw [nlink']; exact some)
        refine (h.iput (fun member => absurd member List.not_mem_nil) live).bind fun _ k₆ h =>
          succeed_ends h fit' ?_
        refine ⟨old, new, d, i, rfl, rfl, there, ?_, linked.above.mpr dir₀,
          linked.file.mpr fun dir => file dir.1,
          tree_absent ((names_dir dir₀ _).trans absent₀), trees⟩
        exact (target_congr (fun e => (raised e).1) kept true _ _).symm.trans leads'

/-! ### unlink -/

/-- What `sys_unlink` does to the tree. -/
def Cut (t : Hierarchy Nat Name) (d : Nat) (x : Name) (i : Nat) (t' : Hierarchy Nat Name) : Prop :=
  t.above i = none ∧ t' = t.unlink d x ∨ t.above i ≠ none ∧ (∀ y, t.entry i y = none) ∧ t' = t.rmdir d x i

/-- A file loses a name. -/
theorem Fit.unlink (fit : Fit n start held v k.fs) {w : Volume} (tight : Tight start w) (only : Only d v w)
    (type : (w.inode d).type = (v.inode d).type)
    (nlink : (w.inode d).nlink = (v.inode d).nlink) (renamed : Renamed d x 0 v w)
    (here : (tree v).entry d x = some i) (file : (v.inode i).type ≠ T_DIR)
    (member : i ∈ held.map Prod.snd) : Fit n start held (w.setNlink i ((v.inode i).nlink - 1)) k.fs ∧
      Cut (tree v) d x i (tree (w.setNlink i ((v.inode i).nlink - 1))) := by
  obtain ⟨cons, lowered⟩ := setNlink_spec renamed.cons i ((v.inode i).nlink - 1)
  have types₁ (e : Nat) : (w.inode e).type = (v.inode e).type := by
    by_cases here : e = d
    · rw [here, type]
    · rw [(only e here).1]
  have nlinks₁ (e : Nat) : (w.inode e).nlink = (v.inode e).nlink := by
    by_cases here : e = d
    · rw [here, nlink]
    · rw [(only e here).1]
  have types (e : Nat) : ((w.setNlink i ((v.inode i).nlink - 1)).inode e).type = (v.inode e).type :=
    (lowered e).1.trans (types₁ e)
  have others (e : Nat) (apart : e ≠ i) : ((w.setNlink i ((v.inode i).nlink - 1)).inode e).nlink =
    (v.inode e).nlink := by
    rw [(setNlink_only renamed.cons i _ e apart).1, nlinks₁]
  obtain ⟨linked, trees⟩ := fit.linked.unlink (renamed.after cons (fun e => (lowered e).2) fun e =>
    (lowered e).1) here file types
    (setNlink_nlink ..) others
  refine ⟨fit.change linked (tight.setNlink i _) types fun e some => ?_,
    .inl ⟨fit.linked.file.mpr fun dir => file dir.1, trees⟩⟩
  by_cases here : e = i
  · exact .inr (here ▸ member)
  · exact .inl ((others e here).trans_ne some)

/-- A directory without names is removed. -/
theorem Fit.rmdir (fit : Fit n start held v k.fs) {w : Volume} (tight : Tight start w) (only : Only d v w)
    (type : (w.inode d).type = (v.inode d).type)
    (renamed : Renamed d x 0 v w) (here : (tree v).entry d x = some i) (dir : IsDir v i)
    (empty : ∀ y, (tree v).entry i y = none)
    (member : i ∈ held.map Prod.snd) :
    Fit n start held ((w.setNlink d ((v.inode d).nlink - 1)).setNlink i 0) k.fs ∧
      Cut (tree v) d x i (tree ((w.setNlink d ((v.inode d).nlink - 1)).setNlink i 0)) ∧
      (v.inode d).nlink - 1 ≠ 0 ∧ i ≠ d := by
  obtain ⟨cons₁, first⟩ := setNlink_spec renamed.cons d ((v.inode d).nlink - 1)
  obtain ⟨cons, second⟩ := setNlink_spec cons₁ i 0
  have apart : i ≠ d := fit.linked.sound.entry_ne here
  have types (e : Nat) : (((w.setNlink d ((v.inode d).nlink - 1)).setNlink i 0).inode e).type =
    (v.inode e).type := by
    rw [(second e).1, (first e).1]
    by_cases here : e = d
    · rw [here, type]
    · rw [(only e here).1]
  have less : (((w.setNlink d ((v.inode d).nlink - 1)).setNlink i 0).inode d).nlink =
    (v.inode d).nlink - 1 := by
    rw [(setNlink_only cons₁ i 0 d apart.symm).1, setNlink_nlink]
  have others (e : Nat) (other : e ≠ i) (other' : e ≠ d) :
      (((w.setNlink d ((v.inode d).nlink - 1)).setNlink i 0).inode e).nlink = (v.inode e).nlink := by
    rw [(setNlink_only cons₁ i 0 e other).1, (setNlink_only renamed.cons d _ e other').1, (only e other').1]
  have renamed₁ := renamed.after cons₁ (fun e => (first e).2) fun e => (first e).1
  obtain ⟨linked, trees⟩ := fit.linked.rmdir (renamed₁.after cons (fun e => (second e).2) fun e =>
    (second e).1) here dir empty types
    (setNlink_nlink ..) less others
  have upper := names_some (tree_named here).2.2
  have still : (v.inode d).nlink - 1 ≠ 0 := by
    have upward : (tree ((w.setNlink d ((v.inode d).nlink - 1)).setNlink i 0)).above d ≠ none := by
      rw [trees]
      show update (tree v).above i none d ≠ none
      rw [update_of_ne apart.symm]
      exact fit.linked.above.mpr upper
    have left := (linked.above.mp upward).2
    rwa [less] at left
  refine ⟨fit.change linked ((tight.setNlink d _).setNlink i 0) types fun e some => ?_,
    .inr ⟨fit.linked.above.mpr dir, empty, trees⟩, still, apart⟩
  by_cases here : e = i
  · exact .inr (here ▸ member)
  by_cases there : e = d
  · left
    rw [there, less]
    exact still
  · exact .inl ((others e here there).trans_ne some)

/-- `sys_unlink` takes away one name of a file, or it removes a directory without names. -/
theorem sysUnlink_ends (caller : Caller n start k) {path : Option Path} (starts : Starts k path) :
    Ends (Sysfile.sysUnlink (path.map Subtype.val)) k Full fun r k' => ∃ t, Settled n start [] k k' t ∧
      (r = -1 ∧ t = tree k.volume ∨ r = 0 ∧ ∃ p d i, path = some p ∧ leads k true p = some d ∧
        (tree k.volume).entry d (lastName p.val) = some i ∧ Cut (tree k.volume) d (lastName p.val) i t) := by
  have fit := caller.fit
  have linked := fit.linked
  unfold Sysfile.sysUnlink
  cases path with
  | none => exact Ends.pure ⟨_, caller.settled, .inl ⟨rfl, rfl⟩⟩
  | some path =>
    refine beginOp_ends ((caller.first.nameiparent (caller.passable starts)).bind fun r k₁ found => ?_)
    obtain ⟨r, name⟩ := r
    rcases found with ⟨rfl, -, h⟩ | ⟨dp, d, rfl, there, dir, key, h⟩
    · exact fail_ends h fit rfl
    have key : nameKey name = lastName path.val := key
    obtain ⟨m, ok, -⟩ := linked.dirs dir
    refine (h.ilock (List.mem_cons_self ..) List.not_mem_nil dir.used).bind fun _ k₂ h => ?_
    have bad {k₃ : Kernel} (h : Midway [(dp, d)] [dp] k.volume k.begun k₃) :
        Ends (do onFs (iunlockput dp); endOp; return -1 : SysM Int) k₃ Full fun r k' => ∃ t,
        Settled n start [] k k' t ∧
          (r = -1 ∧ t = tree k.volume ∨ r = 0 ∧ ∃ p d i, some path = some p ∧ leads k true p = some d ∧
            (tree k.volume).entry d (lastName p.val) = some i ∧ Cut (tree k.volume) d (lastName p.val) i t) :=
      (h.iunlockput List.not_mem_nil (.inl dir.2)).bind fun _ _ h => fail_ends h fit rfl
    dsimp only
    refine Ends.ite (fun _ => bad h) fun special => ?_
    have special : nameKey name ≠ dotKey ∧ nameKey name ≠ dotdotKey := by
      rw [namecmp_eq_zero, namecmp_eq_zero, not_or] at special
      exact special
    refine (h.dirlookupOff (List.mem_cons_self ..) linked.walkable dir ok name).bind fun r k₃ looked => ?_
    rcases looked with ⟨-, rfl, h⟩ | ⟨l, ip, below, live, same, found, rfl, h⟩
    · exact bad h
    obtain ⟨i, value⟩ : ∃ i, i = k.volume.inum d l := ⟨_, rfl⟩
    rw [← value] at h found live
    have named := linked.walkable.child dir found
    have nonneg := linked.nonneg named.1
    have few := caller.few i
    have entry : (tree k.volume).entry d (nameKey name) = some i := by
      rw [tree_entry, if_neg (not_or.mpr special), names_dir dir, found]
    have apart := linked.sound.entry_ne entry
    have once : ip ∉ [dp] := fun member => by
      obtain rfl := List.mem_singleton.mp member
      have first := h.inum (List.mem_cons_self ..)
      have second := h.inum (List.mem_cons_of_mem _ (List.mem_cons_self ..))
      exact apart (first.symm.trans second)
    refine (h.ilock (List.mem_cons_self ..) once named.1).bind fun _ k₄ h => ?_
    refine Ends.bind_run (rfl : (get : SysM Kernel) k₄ = .ok (k₄, k₄)) ?_
    rw [h.inode (List.mem_cons_self ..), h.inum (List.mem_cons_self ..),
      h.inum (List.mem_cons_of_mem _ (List.mem_cons_self ..))]
    refine Ends.ite (fun wrong => ?_) fun _ => ?_
    · have some := named.2
      omega
    have inner : (dp, d) ∈ [(ip, i), (dp, d)] := List.mem_cons_of_mem _ (List.mem_cons_self ..)
    have empty : Ends (if (k.volume.inode i).type = T_DIR then onFs (onVolume fun v =>
      v.isdirempty i) else pure true : SysM Bool) k₄ Full
        fun empty k' => (empty = true → IsDir k.volume i → ∀ y, (tree k.volume).entry i y = none) ∧
          Midway [(ip, i), (dp, d)] [ip, dp] k.volume k.begun k' := by
      refine Ends.ite (fun isDir => ?_) fun file => Ends.pure ⟨fun _ isDir => absurd isDir.1 file, h⟩
      obtain ⟨empty, run, nothing⟩ := isdirempty_names linked ⟨isDir, named.2⟩
      refine (h.onVolume (m := fun v => v.isdirempty i) run fun _ => id).mono fun r k' both => ?_
      obtain ⟨rfl, h⟩ := both
      exact ⟨fun yes _ => nothing yes, h⟩
    refine empty.bind fun empty k₅ looked => ?_
    obtain ⟨nothing, h⟩ := looked
    refine Ends.ite (fun _ => (h.iunlockput once (.inl named.2)).bind fun _ k₆ h => bad h) fun yes => ?_
    have yes : empty = true := by
      cases empty
      · exact absurd rfl yes
      · rfl
    obtain ⟨w, run, tight, only, type, nlink, renamed⟩ :=
      removeEntry linked fit.tight dir below (value ▸ live) (same ▸ special)
    rw [same] at renamed
    have types (e : Nat) : (w.inode e).type = (k.volume.inode e).type := by
      by_cases here : e = d
      · rw [here, type]
      · rw [(only e here).1]
    have nlinks (e : Nat) : (w.inode e).nlink = (k.volume.inode e).nlink := by
      by_cases here : e = d
      · rw [here, nlink]
      · rw [(only e here).1]
    refine (h.onVolume (m := fun v => v.writei d (fun _ => 0) none (direntSize * l) direntSize)
      run fun e some => (nlinks e).trans_ne some).bind
      fun r k₆ wrote => ?_
    obtain ⟨rfl, h⟩ := wrote
    refine Ends.ite (fun wrong => absurd rfl wrong) fun _ => ?_
    refine Ends.bind_run (rfl : (get : SysM Kernel) k₆ = .ok (k₆, k₆)) ?_
    rw [h.inode (List.mem_cons_self ..), types]
    have swap {w : Volume} {k' : Kernel} (h : Midway [(ip, i), (dp, d)] [ip, dp] w k.begun k') :
      Midway [(dp, d), (ip, i)] [dp, ip] w k.begun k' :=
      h.congr (List.Perm.swap ..) fun b => by
        rw [List.mem_cons, List.mem_cons, List.mem_cons, List.mem_cons, or_left_comm]
    have once' : dp ∉ [ip] := fun member => once (List.mem_singleton.mpr (List.mem_singleton.mp member).symm)
    -- what is left to do once the links of the directory are right
    have finish {w : Volume} {k' : Kernel} (h : Midway [(ip, i), (dp, d)] [ip, dp] w k.begun k')
        (linked' : (w.inode d).nlink ≠ 0)
        (before : (w.inode i).nlink = (k.volume.inode i).nlink)
        (fit' : Fit n start [(ip, i)] (w.setNlink i ((k.volume.inode i).nlink - 1)) k.fs)
        (cut : Cut (tree k.volume) d (nameKey name) i
          (tree (w.setNlink i ((k.volume.inode i).nlink - 1)))) : Ends (do
          onFs (iunlockput dp)
          setNlink ip (short (((← get).ip ip).nlink - 1))
          onFs (iunlockput ip)
          endOp
          return 0 : SysM Int) k' Full fun r k' => ∃ t, Settled n start [] k k' t ∧
            (r = -1 ∧ t = tree k.volume ∨ r = 0 ∧ ∃ p d i, some path = some p ∧ leads k true p = some d ∧
              (tree k.volume).entry d (lastName p.val) = some i ∧
              Cut (tree k.volume) d (lastName p.val) i t) := by
      refine ((swap h).iunlockput once' (.inl linked')).bind fun _ k₇ h => ?_
      refine Ends.bind_run (rfl : (get : SysM Kernel) k₇ = .ok (k₇, k₇)) ?_
      have less : short ((k₇.ip ip).nlink - 1) = (k.volume.inode i).nlink - 1 := by
        have some := named.2
        rw [h.inode (List.mem_cons_self ..), before]
        exact short_small (by omega) (by omega)
      rw [less]
      refine (h.setNlink (List.mem_cons_self ..) (List.mem_cons_self ..) _).bind fun _ k₈ h => ?_
      refine (h.unlockput fit' List.not_mem_nil).bind fun _ k₉ dropped => ?_
      obtain ⟨v', h, fit₂, trees, -⟩ := dropped
      rw [← trees] at cut
      rw [key] at cut entry
      exact succeed_ends h fit₂ ⟨path, d, i, rfl, there, entry, cut⟩
    have fitI : Fit n start [(ip, i)] k.volume k.fs := fit.take named.1
    have member : i ∈ [(ip, i)].map Prod.snd := List.mem_singleton.mpr rfl
    refine Ends.ite (fun isDir => ?_) fun file => ?_
    · have dirI : IsDir k.volume i := ⟨isDir, named.2⟩
      obtain ⟨fit', cut, still, -⟩ := fitI.rmdir tight only type renamed entry dirI (nothing yes dirI) member
      have one : (k.volume.inode i).nlink - 1 = 0 := by
        rw [linked.nlink named.1, linked.sound.empty_links (linked.above.mpr dirI) entry (nothing yes dirI)]
        rfl
      refine Ends.bind_run (rfl : (get : SysM Kernel) k₆ = .ok (k₆, k₆)) ?_
      have value' : short ((k₆.ip dp).nlink - 1) = (k.volume.inode d).nlink - 1 := by
        have some := dir.2
        have nonneg := linked.nonneg dir.used
        have few := caller.few d
        rw [h.inode inner, nlinks]
        exact short_small (by omega) (by omega)
      rw [value']
      refine (h.setNlink inner (List.mem_cons_of_mem _ (List.mem_cons_self ..)) _).bind fun _ k₇ h => ?_
      rw [← one] at fit' cut
      refine finish h (by rw [setNlink_nlink]; exact still) ?_ fit' cut
      rw [(setNlink_only renamed.cons d _ i apart).1, nlinks]
    · obtain ⟨fit', cut⟩ := fitI.unlink tight only type nlink renamed entry file member
      exact finish h ((nlinks d).trans_ne dir.2) (nlinks i) fit' cut

/-! ### mkdir and mknod -/

/-- A path gives a name in a directory to an inode that had none. -/
def Adds (k : Kernel) (type : Nat) (path : Path) (t : Hierarchy Nat Name) : Prop :=
  ∃ d i, leads k true path = some d ∧
  (tree k.volume).above d ≠ none ∧ (tree k.volume).entry d (lastName path.val) = none ∧
  (tree k.volume).links i = 0 ∧
  t = Made type d (lastName path.val) i (tree k.volume)

theorem Caller.adds (caller : Caller n start k) {path : Path} (there : leads k true path = some d)
    (dir : IsDir k.volume d)
    (absent : child k.volume d (lastName path.val) = none) (free : (k.volume.inode i).type = 0)
    (made : t = Made type d (lastName path.val) i (tree k.volume)) : Adds k type path t := by
  have linked := caller.fit.linked
  exact ⟨d, i, there, linked.above.mpr dir, tree_absent ((names_dir dir _).trans absent),
    linked.fresh free, made⟩

/-- A call that only makes an inode. -/
theorem make_ends (caller : Caller n start k) {path : Option Path} (starts : Starts k path)
    (used : type ≠ 0) (other : type ≠ T_FILE)
    (major minor : Int) : Ends (do
      match ← (match path.map Subtype.val with | none => pure none | some path => create path type major minor) with
      | none => do
        endOp
        return -1
      | some ip => do
        onFs (iunlockput ip)
        endOp
        return 0 : SysM Int) k.begun Full fun r k' => ∃ t, Settled n start [] k k' t ∧
      (r = -1 ∧ t = tree k.volume ∨ r = 0 ∧ ∃ p, path = some p ∧ Adds k type p t) := by
  cases path with
  | none => exact Ends.seq (Ends.pure (fail_ends caller.first caller.fit rfl))
  | some path =>
    refine (create_ends caller.begun starts used major minor).bind fun r k₁ made => ?_
    rcases made with ⟨rfl, v, h, fit, trees⟩ | ⟨ip, i, v, rfl, h, fit,
      ⟨file, -⟩ | ⟨-, d, there, dir, absent, free, trees⟩⟩
    · exact fail_ends h fit trees
    · exact absurd file other
    · refine (h.unlockput fit List.not_mem_nil).bind fun _ k₂ dropped => ?_
      obtain ⟨v', h, fit', trees', -⟩ := dropped
      exact succeed_ends h fit' ⟨path, rfl, caller.adds there dir absent free (trees'.trans trees)⟩

theorem sysMkdir_ends (caller : Caller n start k) {path : Option Path} (starts : Starts k path) :
    Ends (sysMkdir (path.map Subtype.val)) k Full fun r k' => ∃ t, Settled n start [] k k' t ∧
      (r = -1 ∧ t = tree k.volume ∨ r = 0 ∧ ∃ p, path = some p ∧ Adds k T_DIR p t) :=
  beginOp_ends (make_ends caller starts (by decide) (by decide) 0 0)

theorem sysMknod_ends (caller : Caller n start k) {path : Option Path} (starts : Starts k path)
    (major minor : BitVec 32) :
    Ends (sysMknod (path.map Subtype.val) major minor) k Full fun r k' => ∃ t, Settled n start [] k k' t ∧
      (r = -1 ∧ t = tree k.volume ∨ r = 0 ∧ ∃ p, path = some p ∧ Adds k T_DEVICE p t) :=
  beginOp_ends (make_ends caller starts (by decide) (by decide) _ _)

end Calls

end Xv6.Sysfile.Links
